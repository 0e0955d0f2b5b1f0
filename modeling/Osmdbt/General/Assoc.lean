import Mathlib.Data.List.Basic

/-! Maps as association lists without repeated keys. -/

namespace Osmdbt.General

variable {κ ν : Type} [DecidableEq κ]

/-- `map[key] = value` -/
def assocSet (entries : List (κ × ν)) (key : κ) (value : ν) : List (κ × ν) :=
  (key, value) :: entries.filter (fun entry => entry.1 ≠ key)

theorem lookup_assocSet_self (entries : List (κ × ν)) (key : κ) (value : ν) :
    (assocSet entries key value).lookup key = some value := by
  simp [assocSet]

/-- `map.erase(key)` -/
def assocErase (entries : List (κ × ν)) (key : κ) : List (κ × ν) := entries.filter (fun entry => entry.1 ≠ key)

theorem lookup_assocErase_self (entries : List (κ × ν)) (key : κ) : (assocErase entries key).lookup key = none := by
  rw [assocErase, List.lookup_eq_none_iff]
  intro entry member
  have different : entry.1 ≠ key := by simpa using (List.mem_filter.mp member).2
  exact bne_iff_ne.mpr different.symm

theorem lookup_assocErase_ne {key other : κ} (different : other ≠ key) (entries : List (κ × ν)) :
    (assocErase entries key).lookup other = entries.lookup other := by
  induction entries with
  | nil => rfl
  | cons entry rest ih =>
    obtain ⟨name, stored⟩ := entry
    by_cases same : name = key
    · have dropped : assocErase ((name, stored) :: rest) key = assocErase rest key :=
        List.filter_cons_of_neg (by simpa using same)
      have test : (other == name) = false := beq_eq_false_iff_ne.mpr (same ▸ different)
      rw [dropped, ih, List.lookup_cons, test]
    · have kept : assocErase ((name, stored) :: rest) key = (name, stored) :: assocErase rest key :=
        List.filter_cons_of_pos (by simpa using same)
      rw [kept, List.lookup_cons, List.lookup_cons, ih]

theorem lookup_assocSet_ne {key other : κ} (different : other ≠ key) (entries : List (κ × ν)) (value : ν) :
    (assocSet entries key value).lookup other = entries.lookup other := by
  have test : (other == key) = false := beq_eq_false_iff_ne.mpr different
  rw [assocSet, List.lookup_cons, test]
  exact lookup_assocErase_ne different entries

theorem mem_keys_assocSet (entries : List (κ × ν)) (key other : κ) (value : ν) :
    other ∈ (assocSet entries key value).map Prod.fst ↔ other = key ∨ other ∈ entries.map Prod.fst := by
  by_cases same : other = key
  · simp [assocSet, same]
  · simp only [assocSet, List.map_cons, List.mem_cons, same, false_or, List.mem_map, List.mem_filter]
    constructor
    · rintro ⟨entry, ⟨member, _⟩, rfl⟩
      exact ⟨entry, member, rfl⟩
    · rintro ⟨entry, member, rfl⟩
      exact ⟨entry, ⟨member, by simpa using same⟩, rfl⟩

end Osmdbt.General
