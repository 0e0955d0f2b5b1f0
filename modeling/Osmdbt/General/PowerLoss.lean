import Mathlib.Logic.Function.Basic

/-! Entries and their holders, such as files and their directories: an update of an
entry is durable when its holder was synced, and a power loss keeps any of the others. -/

namespace Osmdbt.General

section Updates

variable {κ ν : Type} [DecidableEq κ]

def assign (entries : κ → Option ν) (update : κ × Option ν) : κ → Option ν :=
  Function.update entries update.1 update.2

/-- An entry is as before, or as some update has it. -/
theorem foldl_assign_cases (updates : List (κ × Option ν)) (entries : κ → Option ν) (key : κ) :
    updates.foldl assign entries key = entries key ∨ (key, updates.foldl assign entries key) ∈ updates := by
  induction updates generalizing entries with
  | nil => exact .inl rfl
  | cons update rest ih =>
    rw [List.foldl_cons]
    rcases ih (assign entries update) with same | later
    · rw [same, assign]
      by_cases own : key = update.1
      · subst own
        rw [Function.update_self]
        exact .inr List.mem_cons_self
      · rw [Function.update_of_ne own]
        exact .inl rfl
    · exact .inr (List.mem_cons_of_mem _ later)

private theorem foldl_assign_other {updates : List (κ × Option ν)} {key : κ}
    (other : ∀ update ∈ updates, update.1 ≠ key)
    (entries : κ → Option ν) : updates.foldl assign entries key = entries key :=
  (foldl_assign_cases updates entries key).resolve_right (fun member => other _ member rfl)

/-- Only the updates of an entry matter for it. -/
private theorem foldl_assign_filter {chosen : κ → Bool} {key : κ} (here : chosen key = true)
    (updates : List (κ × Option ν))
    {entries entries' : κ → Option ν} (same : entries key = entries' key) :
    (updates.filter (fun update => chosen update.1)).foldl assign entries key = updates.foldl assign entries' key := by
  induction updates generalizing entries entries' with
  | nil => exact same
  | cons update rest ih =>
    by_cases own : update.1 = key
    · have kept : chosen update.1 = true := own ▸ here
      rw [List.filter_cons, if_pos kept, List.foldl_cons, List.foldl_cons]
      apply ih
      rw [assign, assign, own, Function.update_self, Function.update_self]
    · have apart (entries : κ → Option ν) : assign entries update key = entries key :=
        Function.update_of_ne (Ne.symm own) _ _
      rw [List.filter_cons, List.foldl_cons]
      split
      · exact ih (by rw [apart, apart, same])
      · exact ih (by rw [apart, same])

end Updates

/-- The entries as they were synced, and the updates since, the oldest first. -/
structure Storage (κ ν : Type) where
  durable : κ → Option ν
  pending : List (κ × Option ν) := []

namespace Storage

variable {κ ν δ : Type} [DecidableEq κ] [DecidableEq δ] {s : Storage κ ν} {holder : κ → δ} {one : δ}
  {updates : List (κ × Option ν)} {key : κ} {value : Option ν} {holds : Option ν → Prop}

/-- The entries as everybody sees them before the power is lost. -/
def current (s : Storage κ ν) : κ → Option ν := s.pending.foldl assign s.durable

def add (s : Storage κ ν) (updates : List (κ × Option ν)) : Storage κ ν := { s with pending := s.pending ++ updates }

/-- The entries of one holder become durable. -/
def sync (holder : κ → δ) (one : δ) (s : Storage κ ν) : Storage κ ν where
  durable key := if holder key = one then s.current key else s.durable key
  pending := s.pending.filter (fun update => !decide (holder update.1 = one))

/-- The entries that may be there after a power loss. -/
def Survives (s : Storage κ ν) (entries : κ → Option ν) : Prop :=
  ∃ kept, List.Sublist kept s.pending ∧ entries = kept.foldl assign s.durable

/-- What one entry may be after a power loss. -/
def Possible (s : Storage κ ν) (key : κ) (value : Option ν) : Prop :=
  value = s.durable key ∨ (key, value) ∈ s.pending

/-- Whatever is lost, this holds of the entry. -/
def Sure (s : Storage κ ν) (key : κ) (holds : Option ν → Prop) : Prop := ∀ value, s.Possible key value → holds value

theorem Survives.possible {entries : κ → Option ν} (survives : s.Survives entries) (key : κ) :
    s.Possible key (entries key) := by
  obtain ⟨kept, part, rfl⟩ := survives
  exact (foldl_assign_cases kept s.durable key).imp id (fun member => part.subset member)

theorem possible_current (s : Storage κ ν) (key : κ) : s.Possible key (s.current key) :=
  foldl_assign_cases s.pending s.durable key

omit [DecidableEq κ] in
theorem Possible.added (possible : (s.add updates).Possible key value) : s.Possible key value ∨
    (key, value) ∈ updates := by
  rcases possible with durable | pending
  · exact .inl (.inl durable)
  · exact (List.mem_append.mp pending).imp_left .inr

theorem Possible.synced (possible : (s.sync holder one).Possible key value) : s.Possible key value := by
  rcases possible with durable | pending
  · change value = if holder key = one then s.current key else s.durable key at durable
    split at durable
    · exact durable ▸ s.possible_current key
    · exact .inl durable
  · exact .inr (List.mem_filter.mp pending).1

/-- An entry is certain when its holder was synced. -/
theorem Possible.of_own (possible : (s.sync holder (holder key)).Possible key value) : value = s.current key := by
  rcases possible with durable | pending
  · exact durable.trans (if_pos rfl)
  · have other := (List.mem_filter.mp pending).2
    simp at other

omit [DecidableEq κ] in
theorem Sure.add (sure : s.Sure key holds) (each : ∀ value, (key, value) ∈ updates → holds value) :
    (s.add updates).Sure key holds :=
  fun value possible => possible.added.elim (sure value) (each value)

theorem Sure.sync (sure : s.Sure key holds) : (s.sync holder one).Sure key holds :=
  fun value possible => sure value possible.synced

theorem sure_synced (here : holds (s.current key)) : (s.sync holder (holder key)).Sure key holds := by
  intro value possible
  rw [possible.of_own]
  exact here

theorem Sure.current (sure : s.Sure key holds) : holds (s.current key) := sure _ (s.possible_current key)

theorem Sure.survives (sure : s.Sure key holds) {entries : κ → Option ν} (survives : s.Survives entries) :
    holds (entries key) := sure _ (survives.possible key)

theorem current_add (s : Storage κ ν) (updates : List (κ × Option ν)) :
    (s.add updates).current = updates.foldl assign s.current := List.foldl_append

theorem current_add_other (other : ∀ update ∈ updates, update.1 ≠ key) :
    (s.add updates).current key = s.current key := by
  rw [current_add]
  exact foldl_assign_other other s.current

/-- A sync is not visible. -/
theorem current_sync (s : Storage κ ν) (holder : κ → δ) (one : δ) (key : κ) :
    (s.sync holder one).current key = s.current key := by
  by_cases own : holder key = one
  · subst own
    exact ((s.sync holder (holder key)).possible_current key).of_own
  · have apart : (s.sync holder one).durable key = s.durable key := if_neg own
    exact @foldl_assign_filter _ _ _ (fun key => !decide (holder key = one)) key (by simp [own]) s.pending _ _ apart

end Storage

end Osmdbt.General
