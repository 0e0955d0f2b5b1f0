import Mathlib.Order.Basic

/-! A stream that is cut into batches, one behind the other. -/

namespace Osmdbt.General

section Consecutive

variable {Position Batch : Type} [Preorder Position]

/-- Every batch covers the stream from where the one before ended to a later position. -/
inductive Consecutive (covers : Position → Position → Batch → Prop) : Position → List Batch → Position → Prop where
  | nothing (first : Position) : Consecutive covers first [] first
  | next {first cut last : Position} {batches : List Batch} {batch : Batch}
      (before : Consecutive covers first batches cut)
      (forward : cut ≤ last) (covered : covers cut last batch) : Consecutive covers first (batches ++ [batch]) last

namespace Consecutive

variable {covers covers' : Position → Position → Batch → Prop} {first last : Position} {batches : List Batch}

theorem forward (consecutive : Consecutive covers first batches last) : first ≤ last := by
  induction consecutive with
  | nothing => exact le_rfl
  | next _ forward _ ih => exact ih.trans forward

/-- What is covered only has to stay the same between the first position and the last. -/
theorem imp (consecutive : Consecutive covers first batches last)
    (same : ∀ cut next batch, first ≤ cut → next ≤ last → covers cut next batch → covers' cut next batch) :
    Consecutive covers' first batches last := by
  induction consecutive with
  | nothing => exact .nothing _
  | next before forward covered ih =>
    have earlier := ih (fun cut next batch after below => same cut next batch after (below.trans forward))
    exact .next earlier forward (same _ _ _ before.forward le_rfl covered)

/-- Where the stream is cut: the batch number `i` reaches from one cut to the next. -/
theorem cuts (consecutive : Consecutive covers first batches last) :
    ∃ cut : Nat → Position, cut 0 = first ∧ cut batches.length = last ∧ (∀ i, cut i ≤ last) ∧
      ∀ i batch, batches[i]? = some batch → cut i ≤ cut (i + 1) ∧ covers (cut i) (cut (i + 1)) batch := by
  induction consecutive with
  | nothing => exact ⟨fun _ => first, rfl, rfl, fun _ => le_rfl, fun i batch found => by cases found⟩
  | @next middle last batches batch before forward covered ih =>
    obtain ⟨cut, start, ended, below, pieces⟩ := ih
    refine ⟨fun i => if i ≤ batches.length then cut i else last, ?_, ?_, fun i => ?_, fun i piece found => ?_⟩
    · simpa using start
    · rw [List.length_append, List.length_singleton]
      exact if_neg (Nat.not_succ_le_self _)
    · dsimp only
      split
      · exact (below i).trans forward
      · exact le_rfl
    · dsimp only
      rcases Nat.lt_trichotomy i batches.length with inside | rfl | outside
      · rw [if_pos (Nat.le_of_lt inside), if_pos (Nat.succ_le_of_lt inside)]
        rw [List.getElem?_append_left inside] at found
        exact pieces i piece found
      · rw [if_pos (Nat.le_refl _), if_neg (Nat.not_succ_le_self _), ended]
        rw [List.getElem?_concat_length] at found
        exact Option.some.inj found ▸ ⟨forward, covered⟩
      · rw [List.getElem?_eq_none (by rw [List.length_append, List.length_singleton]; omega)] at found
        cases found

end Consecutive

end Consecutive

end Osmdbt.General
