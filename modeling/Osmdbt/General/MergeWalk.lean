import Mathlib.Data.List.Basic
import Mathlib.Data.List.TakeWhile
import Mathlib.Order.Basic
import Mathlib.Order.Defs.LinearOrder
import Mathlib.Order.Lattice

/-! One forward iterator over a sorted list is threaded through an ascending
list of keys. Every key takes the leading entries that carry it; an entry whose
key is never asked for stops the iterator for good. -/

namespace Osmdbt.MergeWalk

universe u v
variable {κ : Type u} {β : Type v} [LinearOrder κ]

/-- The blocks attached to the keys, in the order of the keys. -/
def walk (key : β → κ) : List κ → List β → List (List β)
  | [], _ => []
  | k :: rest, entries =>
    entries.takeWhile (fun entry => key entry = k) ::
      walk key rest (entries.dropWhile (fun entry => key entry = k))

/-- Every smaller key that occurs among the entries is asked for. -/
def Unblocked (key : β → κ) (keys : List κ) (entries : List β) (k : κ) : Prop :=
  ∀ entry ∈ entries, key entry < k → key entry ∈ keys

instance (key : β → κ) (keys : List κ) (entries : List β) (k : κ) :
    Decidable (Unblocked key keys entries k) :=
  inferInstanceAs (Decidable (∀ entry ∈ entries, key entry < k → key entry ∈ keys))

variable {key : β → κ} {k : κ} {keys : List κ} {entries : List β}

/-- Without a smaller key in front, the leading block is all there is of a key. -/
theorem takeWhile_eq_filter (sorted : entries.Pairwise (fun a b => key a ≤ key b))
    (none : ∀ entry ∈ entries, ¬ key entry < k) :
    entries.takeWhile (fun entry => key entry = k) = entries.filter (fun entry => key entry = k) := by
  induction entries with
  | nil => rfl
  | cons head tail ih =>
    have later := (List.pairwise_cons.mp sorted).1
    by_cases same : key head = k
    · have rest := ih sorted.of_cons (fun entry member => none entry (by simp [member]))
      simp [same, rest]
    · have above : k < key head :=
        lt_of_le_of_ne (not_lt.mp (none head (by simp))) (Ne.symm same)
      have absent : tail.filter (fun entry => key entry = k) = [] := by
        apply List.filter_eq_nil_iff.mpr
        intro entry member
        have bound := later entry member
        simpa using (lt_of_lt_of_le above bound).ne'
      simp [same, absent]

/-- After the block of `k`, only greater keys are left. -/
theorem dropWhile_above (sorted : entries.Pairwise (fun a b => key a ≤ key b))
    (none : ∀ entry ∈ entries, ¬ key entry < k) :
    ∀ entry ∈ entries.dropWhile (fun entry => key entry = k), k < key entry := by
  induction entries with
  | nil => simp
  | cons head tail ih =>
    have later := (List.pairwise_cons.mp sorted).1
    by_cases same : key head = k
    · simpa [same] using ih sorted.of_cons (fun entry member => none entry (by simp [member]))
    · have above : k < key head :=
        lt_of_le_of_ne (not_lt.mp (none head (by simp))) (Ne.symm same)
      intro entry member
      simp only [List.dropWhile_cons, same, decide_false, Bool.false_eq_true, ↓reduceIte] at member
      rcases List.mem_cons.mp member with here | inside
      · exact here ▸ above
      · exact lt_of_lt_of_le above (later entry inside)

/-- A smaller key at the front keeps the iterator where it is. -/
theorem blocked_head (sorted : entries.Pairwise (fun a b => key a ≤ key b))
    (some : ∃ entry ∈ entries, key entry < k) :
    entries.takeWhile (fun entry => key entry = k) = [] ∧
      entries.dropWhile (fun entry => key entry = k) = entries := by
  obtain ⟨entry, member, below⟩ := some
  cases entries with
  | nil => simp at member
  | cons head tail =>
    have low : key head < k := by
      rcases List.mem_cons.mp member with here | inside
      · exact here ▸ below
      · exact lt_of_le_of_lt (List.rel_of_pairwise_cons sorted inside) below
    simp [low.ne]

/-- The entries are the block of `k` followed by what the iterator still holds. -/
theorem mem_block_or_later (entry : β) (member : entry ∈ entries) :
    key entry = k ∨ entry ∈ entries.dropWhile (fun entry => key entry = k) := by
  have split := List.takeWhile_append_dropWhile (p := fun entry => decide (key entry = k)) (l := entries)
  rw [← split] at member
  rcases List.mem_append.mp member with front | back
  · exact .inl (by simpa using List.mem_takeWhile_imp front)
  · exact .inr back

theorem filter_dropWhile_ne {other : κ} (different : other ≠ k) (entries : List β) :
    (entries.dropWhile (fun entry => key entry = k)).filter (fun entry => key entry = other) =
      entries.filter (fun entry => key entry = other) := by
  induction entries with
  | nil => rfl
  | cons head tail ih =>
    by_cases same : key head = k
    · simp [same, Ne.symm different, ih]
    · simp [same]

/-- Exact result of the walk: a key gets all of its entries if the iterator was
never stopped before it, and nothing otherwise. -/
theorem walk_eq (ascending : keys.Pairwise (· < ·))
    (sorted : entries.Pairwise (fun a b => key a ≤ key b)) :
    walk key keys entries = keys.map (fun k =>
      if Unblocked key keys entries k then entries.filter (fun entry => key entry = k) else []) := by
  induction keys generalizing entries with
  | nil => rfl
  | cons k rest ih =>
    have above := (List.pairwise_cons.mp ascending).1
    have sortedLater : (entries.dropWhile (fun entry => key entry = k)).Pairwise
        (fun a b => key a ≤ key b) := sorted.sublist (List.dropWhile_sublist _)
    have notRest : ∀ other, other < k → other ∉ k :: rest := by
      intro other below member
      rcases List.mem_cons.mp member with same | inside
      · exact below.ne same
      · exact lt_asymm below (above other inside)
    rw [walk, List.map_cons, ih ascending.of_cons sortedLater]
    by_cases stopped : ∃ entry ∈ entries, key entry < k
    · obtain ⟨entry, member, below⟩ := stopped
      obtain ⟨noBlock, unmoved⟩ := blocked_head sorted ⟨entry, member, below⟩
      have closed : ∀ other, k ≤ other → ∀ names : List κ, (∀ name ∈ names, name ∈ k :: rest) →
          ¬ Unblocked key names entries other := by
        intro other bound names inside open'
        exact notRest _ below (inside _ (open' entry member (lt_of_lt_of_le below bound)))
      rw [noBlock, unmoved, if_neg (closed k le_rfl _ (fun name present => present))]
      congr 1
      apply List.map_congr_left
      intro other present
      have bound := (above other present).le
      rw [if_neg (closed other bound _ (fun name inside => List.mem_cons_of_mem _ inside)),
        if_neg (closed other bound _ (fun name inside => inside))]
    · have none : ∀ entry ∈ entries, ¬ key entry < k :=
        fun entry member below => stopped ⟨entry, member, below⟩
      have free : Unblocked key (k :: rest) entries k :=
        fun entry member below => absurd below (none entry member)
      rw [if_pos free, takeWhile_eq_filter sorted none]
      congr 1
      apply List.map_congr_left
      intro other present
      have beyond := above other present
      rw [filter_dropWhile_ne beyond.ne' entries]
      have same : Unblocked key rest (entries.dropWhile (fun entry => key entry = k)) other ↔
          Unblocked key (k :: rest) entries other := by
        constructor
        · intro open' entry member below
          rcases mem_block_or_later (k := k) entry member with here | later
          · exact here ▸ List.mem_cons_self
          · exact List.mem_cons_of_mem _ (open' entry later below)
        · intro open' entry later below
          have member := (List.dropWhile_sublist _).subset later
          rcases List.mem_cons.mp (open' entry member below) with here | inside
          · exact absurd here (dropWhile_above sorted none entry later).ne'
          · exact inside
      simp only [same]

/-- Behind the block of `k` are exactly the entries with another key. -/
theorem mem_dropWhile_iff (sorted : entries.Pairwise (fun a b => key a ≤ key b))
    (none : ∀ entry ∈ entries, ¬ key entry < k) (entry : β) :
    entry ∈ entries.dropWhile (fun entry => key entry = k) ↔ entry ∈ entries ∧ key entry ≠ k := by
  constructor
  · intro later
    exact ⟨(List.dropWhile_sublist _).subset later, (dropWhile_above sorted none entry later).ne'⟩
  · rintro ⟨member, different⟩
    exact (mem_block_or_later entry member).resolve_left different

/-- Where the iterator is in the end. -/
def left (key : β → κ) : List κ → List β → List β
  | [], entries => entries
  | k :: rest, entries => left key rest (entries.dropWhile (fun entry => key entry = k))

/-- The iterator comes to the end iff it is never stopped. -/
theorem left_eq_nil_iff (ascending : keys.Pairwise (· < ·)) (sorted : entries.Pairwise (fun a b => key a ≤ key b)) :
    left key keys entries = [] ↔ ∀ entry ∈ entries, key entry ∈ keys := by
  induction keys generalizing entries with
  | nil =>
    rw [left, List.eq_nil_iff_forall_not_mem]
    simp only [List.not_mem_nil]
  | cons k rest ih =>
    have above := (List.pairwise_cons.mp ascending).1
    rw [left, ih ascending.of_cons (sorted.sublist (List.dropWhile_sublist _))]
    by_cases stopped : ∃ entry ∈ entries, key entry < k
    · obtain ⟨entry, member, below⟩ := stopped
      rw [(blocked_head sorted ⟨entry, member, below⟩).2]
      have missing : key entry ∉ rest := fun inside => lt_asymm below (above _ inside)
      refine iff_of_false (fun every => missing (every entry member)) (fun every => ?_)
      rcases List.mem_cons.mp (every entry member) with same | inside
      · exact below.ne same
      · exact missing inside
    · have none : ∀ entry ∈ entries, ¬ key entry < k := fun entry member below => stopped ⟨entry, member, below⟩
      simp only [mem_dropWhile_iff sorted none, List.mem_cons]
      exact forall_congr' (fun entry => by tauto)

end Osmdbt.MergeWalk
