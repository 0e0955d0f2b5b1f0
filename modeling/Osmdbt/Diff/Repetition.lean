import Osmdbt.Diff.Redaction
import Mathlib.Data.List.Count

/-! Repeated log entries. A `VALUES` list with a repeated pair joins every copy,
so an object is written once for each of its entries. -/

namespace Osmdbt

section Join

variable {ρ : Type} [DecidableEq ρ] {key : ρ → Key} {rows : List ρ} {asked : List Key}

theorem count_innerJoin (row : ρ) :
    (innerJoin asked key rows).count row = asked.count (key row) * rows.count row := by
  induction asked with
  | nil => simp [innerJoin]
  | cons pair rest ih =>
    have split : innerJoin (pair :: rest) key rows =
        rows.filter (fun row => key row = pair) ++ innerJoin rest key rows := rfl
    rw [split, List.count_append, ih]
    by_cases same : key row = pair
    · rw [List.count_filter (by simpa using same), same, List.count_cons_self, Nat.add_mul, Nat.one_mul,
        Nat.add_comm]
    · have absent : (rows.filter (fun row => key row = pair)).count row = 0 := by
        apply List.count_eq_zero_of_not_mem
        intro member
        exact same (by simpa using (List.mem_filter.mp member).2)
      rw [absent, List.count_cons_of_ne (Ne.symm same), Nat.zero_add]

end Join

section Loop

variable {ρ ι χ ω : Type} {common : ρ → ObjectRow} {attach : ι → Int64 → UInt32 → ι × χ}
  {build : ρ → Attributes → χ → ω} {cucache : ChangesetUserLookup}

theorem mapM_ok {α β : Type} {f : α → Except Fault β} {xs : List α} {ys : List β} (success : xs.mapM f = .ok ys) :
    List.Forall₂ (fun x y => f x = .ok y) xs ys := by
  induction xs generalizing ys with
  | nil =>
    obtain rfl : [] = ys := Except.ok.inj success
    exact .nil
  | cons x xs ih =>
    rw [List.mapM_cons] at success
    cases here : f x with
    | error fault => simp [here, bind, Except.bind] at success
    | ok y =>
      cases rest : xs.mapM f with
      | error fault => simp [here, rest, bind, Except.bind] at success
      | ok tail =>
        obtain rfl : y :: tail = ys := by
          simpa [here, rest, bind, Except.bind, pure, Except.pure] using success
        exact .cons here (ih rest)

private theorem mapM_ok_iff {α β : Type} {f : α → Except Fault β} {xs : List α} :
    (∃ ys, xs.mapM f = .ok ys) ↔ ∀ x ∈ xs, ∃ y, f x = .ok y := by
  induction xs with
  | nil => exact ⟨fun _ _ member => absurd member List.not_mem_nil, fun _ => ⟨[], rfl⟩⟩
  | cons x xs ih =>
    rw [List.mapM_cons, List.forall_mem_cons, ← ih]
    cases f x with
    | error fault => simp [bind, Except.bind]
    | ok y => cases xs.mapM f <;> simp [bind, Except.bind, pure, Except.pure]

/-- The loop as one equation: the attributes of all kept rows, joined with the
children that are handed to them. -/
theorem processObjects_eq (it : ι) (rows : List ρ) (maxTimestamp : Timestamp) :
    processObjects common attach build cucache it rows maxTimestamp =
      (fun attributes => (List.zipWith (fun row children => build row.1 row.2 children)
          ((live common rows).zip attributes) (thread common attach it (live common rows)),
        rows.foldl (fun raised row => raiseTimestamp raised (common row)) maxTimestamp)) <$>
      (live common rows).mapM (fun row => setAttributes cucache (common row)) := by
  induction rows generalizing it maxTimestamp with
  | nil => rfl
  | cons row rest ih =>
    cases kept : (common row).redactionId.isSome with
    | true =>
      have dropped : live common (row :: rest) = live common rest := by
        simp [live, Option.isNone_eq_false_iff.mpr kept]
      rw [processObjects_skip kept, dropped, ih, List.foldl_cons]
    | false =>
      have stays : live common (row :: rest) = row :: live common rest := by
        simp [live, Option.isSome_eq_false_iff.mp kept]
      rw [processObjects_keep kept, stays, ih, List.mapM_cons, thread, List.foldl_cons]
      cases setAttributes cucache (common row) with
      | error fault => rfl
      | ok attributes =>
        cases (live common rest).mapM (fun row => setAttributes cucache (common row)) <;> rfl

/-- The loop ends iff every kept row has its attributes. -/
theorem processObjects_succeeds (it : ι) (rows : List ρ) (maxTimestamp : Timestamp) :
    (∃ result, processObjects common attach build cucache it rows maxTimestamp = .ok result) ↔
      ∀ row ∈ live common rows, ∃ attributes, setAttributes cucache (common row) = .ok attributes := by
  rw [processObjects_eq, ← mapM_ok_iff]
  cases (live common rows).mapM (fun row => setAttributes cucache (common row)) <;> simp [Functor.map, Except.map]

/-- The written objects are the kept rows, row by row. -/
theorem processObjects_keys {keyOf : ω → Key} (built : ∀ row attributes children,
      keyOf (build row attributes children) = key attributes.id attributes.version)
    {it : ι} {rows : List ρ} {maxTimestamp : Timestamp} {result : List ω × Timestamp}
    (success : processObjects common attach build cucache it rows maxTimestamp = .ok result) :
    result.1.map keyOf = (live common rows).map (fun row => (common row).key) := by
  rw [processObjects_eq] at success
  cases attributed : (live common rows).mapM (fun row => setAttributes cucache (common row)) with
  | error fault => simp [attributed, Functor.map, Except.map] at success
  | ok attributes =>
    rw [attributed] at success
    obtain rfl := Except.ok.inj success
    have same : (thread common attach it (live common rows)).length = (live common rows).length := length_thread ..
    have pairs := mapM_ok attributed
    generalize thread common attach it (live common rows) = children at same
    generalize live common rows = kept at same pairs
    clear success attributed
    induction pairs generalizing children with
    | nil => simp
    | @cons row own rows attributes found _ ih =>
      obtain ⟨child, others, rfl⟩ := List.exists_cons_of_length_eq_add_one same
      have content := setAttributes_hasAttributes found
      simp only [List.zip_cons_cons, List.zipWith_cons_cons, List.map_cons, built, content.id, content.version]
      rw [ih others (by simpa using same)]
      rfl

section TwoRuns

variable [DecidableEq ρ] {table result result' : List ρ} {asked asked' : List Key}

/-- A kept row is read once for each copy of its pair. -/
theorem count_live (unique : (table.map (fun row => (common row).key)).Nodup)
    (answer : Answer (fun a b => objectOrder (common a) (common b))
      (innerJoin asked (fun row => (common row).key) table) result) {row : ρ} (present : row ∈ table)
    (kept : (common row).redactionId = none) : (live common result).count row = asked.count (common row).key := by
  have once : table.count row = 1 := List.count_eq_one_of_mem (List.Nodup.of_map _ unique) present
  rw [live, List.count_filter (by simp [kept]), answer.complete.count_eq, count_innerJoin, once, Nat.mul_one]

/-- The pairs of the objects that are written, with their number. -/
theorem count_live_keys (unique : (table.map (fun row => (common row).key)).Nodup)
    (answer : Answer (fun a b => objectOrder (common a) (common b))
      (innerJoin asked (fun row => (common row).key) table) result) (k : Key) :
    ((live common result).map (fun row => (common row).key)).count k =
      if ∃ row ∈ table, (common row).key = k ∧ (common row).redactionId = none then asked.count k else 0 := by
  split
  · rename_i shown
    obtain ⟨row, present, rfl, kept⟩ := shown
    rw [← count_live unique answer present kept, List.count, List.count, List.countP_map]
    apply List.countP_congr
    intro other member
    have inside := ((mem_live answer).mp member).1
    simp only [Function.comp_apply, beq_iff_eq]
    exact ⟨fun same => List.inj_on_of_nodup_map unique inside present same, fun same => same ▸ rfl⟩
  · rename_i hidden
    apply List.count_eq_zero_of_not_mem
    intro member
    obtain ⟨row, inside, rfl⟩ := List.mem_map.mp member
    obtain ⟨present, _, kept⟩ := (mem_live answer).mp inside
    exact hidden ⟨row, present, rfl, kept⟩

end TwoRuns

end Loop

end Osmdbt
