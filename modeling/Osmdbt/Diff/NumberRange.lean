import Osmdbt.Diff.StateFile

/-! The range of sequence numbers: what comes out of `get_state` and when an assertion
on the way to the names of the files fails. -/

namespace Osmdbt

open General

theorem perform_never_aborts {op : Op} {what : Text} {w : World} : ¬ (perform op what).Aborts Step w := by
  intro aborts
  rcases Program.aborts_bind.mp aborts with wrong | ⟨reply, w₁, _, wrong⟩
  · exact Program.aborts_request wrong
  · cases reply with
    | ok value => exact Program.aborts_pure wrong
    | error code => exact Program.aborts_raise wrong

theorem paddedNumber_length {n : Nat} : (paddedNumber n).length = 9 ↔ n ≤ 999999999 := by
  refine ⟨paddedNumber_nine, fun small => ?_⟩
  have short : (natText n).length ≤ 9 := decimal.length_print_le (k := 9) (show n < 10 ^ 9 by omega) (by decide)
  rw [paddedNumber, List.length_append, List.length_replicate]
  omega

theorem State.path_length {state : State} (small : state.sequenceNumber ≤ 999999999) : state.path.length = 11 := by
  have nine := paddedNumber_length.mpr small
  simp only [State.path, List.length_append, List.length_cons, List.length_take, List.length_drop, nine]
  omega

/-- The number of a new state is one from 1 to 999999999: no assertion in `next`, `path`,
`dir1_path` or `dir2_path` fails. -/
structure NumberInRange (config : Config) (options : CreateDiffOptions) (timestamp : Timestamp)
    (w : World) : Prop where
  range : ∀ state w', Ends (getState config options timestamp) w (.ok state) w' →
    1 ≤ state.sequenceNumber ∧ state.sequenceNumber ≤ 999999999
  next : ¬ (getState config options timestamp).Aborts Step w
  path : ∀ state w', Ends (getState config options timestamp) w (.ok state) w' →
    ¬ (assertPath state).Aborts Step w' ∧ state.path.length = 11

section Range

variable {config : Config} {options : CreateDiffOptions} {timestamp : Timestamp} {w : World}

private theorem requireStateFile_never_aborts : ¬ (requireStateFile config).Aborts Step w := by
  intro aborts
  rcases Program.aborts_bind.mp aborts with wrong | ⟨(present : Bool), w₁, _, wrong⟩
  · exact perform_never_aborts wrong
  · cases present with
    | true => exact Program.aborts_pure wrong
    | false => exact Program.aborts_raise wrong

/-- The assertion in `next` fails for the numbers that cannot be increased. -/
theorem getState_aborts : (getState config options timestamp).Aborts Step w ↔ options.initState = 0 ∧
    ∃ data state, w.get stateFile = some (.text data) ∧ State.parse (stateFile.text config) data = .ok state ∧
      999999999 ≤ state.sequenceNumber := by
  constructor
  · intro aborts
    unfold getState at aborts
    split at aborts
    · exact (Program.aborts_pure aborts).elim
    · rename_i zero
      rcases Program.aborts_bind.mp aborts with wrong | ⟨_, w₁, required, later⟩
      · exact (requireStateFile_never_aborts wrong).elim
      have same : Same w w₁ := ends_untouched requireStateFile_uses required
      rcases Program.aborts_bind.mp later with wrong | ⟨(data : Text), w₂, readIt, later'⟩
      · exact (perform_never_aborts wrong).elim
      obtain ⟨here, rfl⟩ := perform_ok.mp readIt
      rcases Program.aborts_bind.mp later' with wrong | ⟨state, w₃, lifted, later''⟩
      · exact (Program.aborts_lift wrong).elim
      obtain ⟨parsed, rfl⟩ := Program.ends_lift.mp lifted
      rcases Program.aborts_bind.mp later'' with asserted | ⟨_, _, _, wrong⟩
      · refine ⟨not_not.mp zero, data, state, ?_, parsed.symm, not_lt.mp (Program.aborts_assert.mp asserted)⟩
        rw [← same.get stateFile id]
        exact here
      · exact (Program.aborts_pure wrong).elim
  · rintro ⟨zero, data, state, here, parsed, large⟩
    have present : Ends (requireStateFile config) w (.ok ()) w :=
      Program.ends_bind_ok.mpr ⟨true, w, perform_ok.mpr ⟨by rw [here]; rfl, rfl⟩, rfl, rfl⟩
    unfold getState
    rw [if_neg (not_not.mpr zero)]
    refine Program.aborts_bind.mpr
      (.inr ⟨(), w, present, Program.aborts_bind.mpr (.inr ⟨data, w, perform_ok.mpr ⟨here, rfl⟩, ?_⟩)⟩)
    refine Program.aborts_bind.mpr (.inr ⟨state, w, Program.ends_lift.mpr ⟨parsed.symm, rfl⟩, ?_⟩)
    exact Program.aborts_bind.mpr (.inl (Program.aborts_assert.mpr (not_lt.mpr large)))

/-- The numbers are in range exactly when the given one is, or the one in the state file
can be increased. -/
theorem getState_range (config : Config) (options : CreateDiffOptions) (timestamp : Timestamp) (w : World) :
    NumberInRange config options timestamp w ↔ options.initState ≤ 999999999 ∧
      (options.initState = 0 → ∀ data state, w.get stateFile = some (.text data) →
        State.parse (stateFile.text config) data = .ok state → state.sequenceNumber < 999999999) := by
  constructor
  · rintro ⟨range, next, _⟩
    constructor
    · by_contra large
      have given : Ends (getState config options timestamp) w (.ok ⟨options.initState, timestamp⟩) w := by
        unfold getState
        rw [if_pos (by omega)]
        exact ⟨rfl, rfl⟩
      exact large (range _ _ given).2
    · intro zero data state here parsed
      by_contra large
      exact next (getState_aborts.mpr ⟨zero, data, state, here, parsed, not_lt.mp large⟩)
  · rintro ⟨given, stored⟩
    have range (state : State) (w' : World) (ends : Ends (getState config options timestamp) w (.ok state) w') :
        1 ≤ state.sequenceNumber ∧ state.sequenceNumber ≤ 999999999 := by
      obtain ⟨_, _, own, follows⟩ := getState_ok ends
      by_cases zero : options.initState = 0
      · obtain ⟨data, last, here, parsed, bound, number⟩ := follows zero
        omega
      · rw [own zero]
        omega
    refine ⟨range, fun aborts => ?_, fun state w' ends => ?_⟩
    · obtain ⟨zero, data, state, here, parsed, large⟩ := getState_aborts.mp aborts
      exact absurd (stored zero data state here parsed) (not_lt.mpr large)
    · have small := (range state w' ends).2
      exact ⟨fun aborts => Program.aborts_assert.mp aborts (paddedNumber_length.mpr small), State.path_length small⟩

end Range

/-- A state file with the largest number that has nine digits. -/
def lastNumber : World where
  files := [(stateFile, .text "sequenceNumber=999999999\ntimestamp=2020-03-18T14:18:49Z\n".toList)]

theorem getState_range_fails : ¬ NumberInRange {} { initState := 1000000000 } 1584541129 {} ∧
    ¬ NumberInRange {} {} 1584541129 lastNumber := by
  constructor
  · intro inRange
    have ends : Ends (getState {} { initState := 1000000000 } 1584541129) {} (.ok ⟨1000000000, 1584541129⟩)
      {} := ⟨rfl, rfl⟩
    exact absurd (inRange.range _ _ ends).2 (by decide)
  · intro inRange
    have parsed : State.parse (stateFile.text {}) "sequenceNumber=999999999\ntimestamp=2020-03-18T14:18:49Z\n".toList =
        .ok ⟨999999999, 1584541129⟩ := by decide +kernel
    exact inRange.next (getState_aborts.mpr ⟨rfl, _, _, rfl, parsed, le_refl _⟩)

end Osmdbt
