import Osmdbt.Diff.PublishOnce
import Osmdbt.Diff.StateFormat

/-! The published sequence numbers follow each other without a gap, published
files stay as they are, and `state.txt` never runs ahead of them. -/

namespace Osmdbt

open General

def changeFileOf (n : Nat) : Path := (State.mk n 0).changeFile
def ownFileOf (n : Nat) : Path := (State.mk n 0).ownFile

theorem State.changeFile_eq (state : State) : state.changeFile = changeFileOf state.sequenceNumber := rfl
theorem State.ownFile_eq (state : State) : state.ownFile = ownFileOf state.sequenceNumber := rfl

/-- One of the two files with the number `n`. -/
def FileOf (n : Nat) (path : Path) : Prop := path = changeFileOf n ∨ path = ownFileOf n

theorem changeFileOf_inj {m n : Nat} (same : changeFileOf m = changeFileOf n) : m = n := by
  have names := congrArg Path.name same
  exact State.path_inj (List.append_cancel_right (List.append_cancel_right names))

private theorem ownFileOf_inj {m n : Nat} (same : ownFileOf m = ownFileOf n) : m = n :=
  State.path_inj (List.append_cancel_right (congrArg Path.name same))

theorem changeFileOf_ne_ownFileOf (m n : Nat) : changeFileOf m ≠ ownFileOf n := by
  intro same
  have last := congrArg List.getLast? (congrArg Path.name same)
  simp [changeFileOf, ownFileOf, State.changeFile, State.ownFile, State.statePath] at last

theorem FileOf.unique {m n : Nat} {path : Path} (first : FileOf m path) (second : FileOf n path) : m = n := by
  rcases first with rfl | rfl
  · rcases second with same | same
    · exact changeFileOf_inj same
    · exact absurd same (changeFileOf_ne_ownFileOf m n)
  · rcases second with same | same
    · exact absurd same.symm (changeFileOf_ne_ownFileOf n m)
    · exact ownFileOf_inj same

theorem FileOf.dir {n : Nat} {path : Path} (file : FileOf n path) : path.dir = .changes := by
  rcases file with rfl | rfl <;> rfl

theorem FileOf.ne_stateFile {n : Nat} {path : Path} (file : FileOf n path) : path ≠ stateFile := by
  rintro rfl
  have long := length_path (State.mk n 0)
  rcases file with same | same
  · have lengths := congrArg (fun path => path.name.length) same
    simp [stateFile, changeFileOf, State.changeFile, State.oscPath] at lengths
    omega
  · have lengths := congrArg (fun path => path.name.length) same
    simp [stateFile, ownFileOf, State.ownFile, State.statePath] at lengths

/-- The number the constructor of the state reads, whatever it says about the timestamp. -/
def HoldsNumber (config : Config) (n : Nat) (content : Content) : Prop :=
  ∃ data last, content = .text data ∧
    (getlines data).foldlM (State.readLine (stateFile.text config)) { sequenceNumber := 0, timestamp :=
      0 } = .ok last ∧
    last.sequenceNumber = n

/-- The number of a file whose lines are read. -/
theorem holdsNumber_text {config : Config} {n : Nat} {last : State} {data : Text}
    (folded : (getlines data).foldlM (State.readLine (stateFile.text config)) { sequenceNumber := 0, timestamp := 0 } =
      .ok last) : HoldsNumber config n (.text data) ↔ last.sequenceNumber = n := by
  constructor
  · rintro ⟨_, other, same, folded', number⟩
    obtain rfl := Content.text.inj same
    obtain rfl := Except.ok.inj (folded'.symm.trans folded)
    exact number
  · exact fun number => ⟨data, last, rfl, folded, number⟩

theorem HoldsNumber.unique {config : Config} {m n : Nat} {content : Content} (first : HoldsNumber config m content)
    (second : HoldsNumber config n content) : m = n := by
  obtain ⟨data, last, rfl, folded, number⟩ := first
  exact number.symm.trans ((holdsNumber_text folded).mp second)

/-- A state that can be read has its number. -/
theorem HoldsNumber.of_parse {config : Config} {state : State} {data : Text}
    (parsed : State.parse (stateFile.text config) data = .ok state) :
    HoldsNumber config state.sequenceNumber (.text data) := (holdsNumber_text (State.parse_lines parsed)).mpr rfl

/-- So does every state that was written. -/
theorem HoldsNumber.toText {config : Config} {state : State} (small : state.sequenceNumber ≤ 999999999)
    (now : Timestamp) : HoldsNumber config state.sequenceNumber (.text (state.toText now)) :=
  (holdsNumber_text ((rendering_toText state now).readLines (by omega) _)).mpr rfl

/-- The new names of everything that was moved into `changes_dir`, in order. -/
def World.intoChanges (w : World) : List Path :=
  (w.renames.filter (fun moved => moved.newName.dir = .changes)).map Rename.newName

/-- What a complete publication moves. -/
def publication (n : Nat) : List Path := [changeFileOf n, ownFileOf n, stateFile]

/-- The complete publications of the `k` numbers behind `n₀`. -/
def publications (n₀ k : Nat) : List Path := (List.range k).flatMap (fun i => publication (n₀ + i + 1))

theorem publications_succ (n₀ k : Nat) : publications n₀ (k + 1) = publications n₀ k ++ publication (n₀ + k + 1) := by
  simp [publications, List.range_succ]

theorem intoChanges_rename (w : World) (oldName newName : Path) (content : Content) :
    (w.rename oldName newName content).intoChanges = w.intoChanges ++ if newName.dir =
      .changes then [newName] else [] := by
  by_cases changes : newName.dir = .changes <;> simp [World.intoChanges, World.rename, List.filter_append, changes]

/-- `k` numbers behind `n₀` are published and the files in `begun` of the next one
are in place. `kept` tells files that are known. -/
structure Sequence (config : Config) (n₀ : Nat) (kept : Path → Content → Prop) (k : Nat) (begun : List Path)
    (w : World) : Prop where
  moves : w.intoChanges = publications n₀ k ++ begun
  number : ∃ content, w.get stateFile = some content ∧ HoldsNumber config (n₀ + k) content
  current : 0 < k → ∃ data, w.get stateFile = some (.text data) ∧ w.get (ownFileOf (n₀ + k)) = some (.text data) ∧
    ∃ sources objects, w.get (changeFileOf (n₀ + k)) = some (.osc sources (some objects))
  absent : ∀ n path, n₀ + k < n → n ≤ 999999999 → FileOf n path → path ∉ begun → w.get path = none
  kept : ∀ path content, kept path content → w.get path = some content

/-- What is in place of a publication under way. -/
def Plan.moved (plan : Plan) : List Path :=
  match plan.stage with
  | .locked => []
  | .changeMoved => [plan.state.changeFile]
  | .stateMoved => [plan.state.changeFile, plan.state.ownFile]
  | .renaming _ => []

/-- A plan for the next number. -/
structure Next (number : Nat) (plan : Plan) (w : World) : Prop where
  follows : plan.state.sequenceNumber = number
  small : number ≤ 999999999
  text : ∃ now, plan.stateText = plan.state.toText now
  change : changeFileOf number ∈ plan.moved → w.get (changeFileOf number) = some plan.content
  own : ownFileOf number ∈ plan.moved → w.get (ownFileOf number) = some (.text plan.stateText)

section Sequence

variable {config : Config} {n₀ k : Nat} {kept : Path → Content → Prop} {begun : List Path} {w w' : World}

theorem Sequence.same (sequence : Sequence config n₀ kept k begun w) (moves : w'.intoChanges = w.intoChanges)
    (get : ∀ path, path.dir = .changes → w'.get path = w.get path)
    (inside : ∀ path content, kept path content → path.dir = .changes) : Sequence config n₀ kept k begun w' := by
  refine ⟨moves.trans sequence.moves, ?_, ?_, fun n path next small file outside => ?_, fun path content known => ?_⟩
  · rw [get stateFile rfl]
    exact sequence.number
  · rw [get stateFile rfl, get (ownFileOf _) rfl, get (changeFileOf _) rfl]
    exact sequence.current
  · rw [get path file.dir]
    exact sequence.absent n path next small file outside
  · rw [get path (inside path content known)]
    exact sequence.kept path content known

/-- A file with the next number is moved to a name that was free. -/
theorem Sequence.move (sequence : Sequence config n₀ kept k begun w) {oldName newName : Path} {content : Content}
    (tmp : oldName.dir = .tmp) (file : FileOf (n₀ + k + 1) newName) (free : w.get newName = none)
    (inside : ∀ path content, kept path content → path.dir = .changes) :
    Sequence config n₀ kept k (begun ++ [newName]) (w.rename oldName newName content) := by
  have get (path : Path) (changes : path.dir = .changes) (other : path ≠ newName) :
      (w.rename oldName newName content).get path = w.get path := by
    refine World.get_rename_ne _ _ _ ?_ other
    rintro rfl
    rw [tmp] at changes
    cases changes
  have otherNumber {n : Nat} {path : Path} (here : FileOf n path) (different : n ≠ n₀ + k + 1) : path ≠ newName := by
    rintro rfl
    exact different (here.unique file)
  refine ⟨?_, ?_, ?_, fun n path next small here outside => ?_, fun path stored known => ?_⟩
  · rw [intoChanges_rename, if_pos file.dir, sequence.moves, List.append_assoc]
  · rw [get stateFile rfl file.ne_stateFile.symm]
    exact sequence.number
  · rw [get stateFile rfl file.ne_stateFile.symm, get (ownFileOf _) rfl (otherNumber (.inr rfl) (by omega)),
      get (changeFileOf _) rfl (otherNumber (.inl rfl) (by omega))]
    exact sequence.current
  · rw [List.mem_append, not_or, List.mem_singleton] at outside
    rw [get path here.dir outside.2]
    exact sequence.absent n path next small here outside.1
  · have there := sequence.kept path stored known
    rw [get path (inside path stored known)]
    · exact there
    · rintro rfl
      rw [free] at there
      cases there

/-- `state.txt` is replaced by the state of the files that are in place. -/
theorem Sequence.finish {plan : Plan} (sequence : Sequence config n₀ kept k plan.moved w)
    (stage : plan.stage = .stateMoved) (next : Next (n₀ + k + 1) plan w)
    (inside : ∀ path content, kept path content → path.dir = .changes ∧ path ≠ stateFile) :
    Sequence config n₀ kept (k + 1) [] (w.rename newStateCopy stateFile (.text plan.stateText)) := by
  have moved : plan.moved = [changeFileOf (n₀ + k + 1), ownFileOf (n₀ + k + 1)] := by
    rw [Plan.moved, stage, ← next.follows]
    rfl
  have get (path : Path) (changes : path.dir = .changes) (other : path ≠ stateFile) :
      (w.rename newStateCopy stateFile (.text plan.stateText)).get path = w.get path := by
    refine World.get_rename_ne _ _ _ ?_ other
    rintro rfl
    cases changes
  obtain ⟨now, text⟩ := next.text
  refine ⟨?_, ?_, ?_, fun n path later small here _ => ?_, fun path stored known => ?_⟩
  · rw [intoChanges_rename, if_pos (show stateFile.dir = .changes from rfl), sequence.moves, moved,
      publications_succ, List.append_assoc, List.append_nil]
    rfl
  · refine ⟨_, World.get_rename_new _ _ _ _, ?_⟩
    have small : plan.state.sequenceNumber ≤ 999999999 := next.follows.trans_le next.small
    have holds := @HoldsNumber.toText config plan.state small now
    rwa [next.follows, ← text] at holds
  · intro _
    refine ⟨plan.stateText, World.get_rename_new _ _ _ _, ?_, plan.sources, plan.objects, ?_⟩
    · have file : FileOf (n₀ + (k + 1)) (ownFileOf (n₀ + (k + 1))) := .inr rfl
      rw [get _ rfl file.ne_stateFile]
      exact next.own (by simp [moved])
    · have file : FileOf (n₀ + (k + 1)) (changeFileOf (n₀ + (k + 1))) := .inl rfl
      rw [get _ rfl file.ne_stateFile]
      exact next.change (by simp [moved])
  · rw [get path here.dir here.ne_stateFile]
    refine sequence.absent n path (by omega) small here ?_
    rw [moved]
    intro member
    have file : FileOf (n₀ + k + 1) path := by simpa [FileOf] using member
    have same := here.unique file
    omega
  · obtain ⟨changes, other⟩ := inside path stored known
    rw [get path changes other]
    exact sequence.kept path stored known

end Sequence

/-- The sequence number is not given on the command line. -/
def NoInitStateOption (options : CreateDiffOptions) : Prop := options.initState = 0

/-- A publication under way, or one that was just completed. -/
def Advancing (config : Config) (n₀ : Nat) (kept : Path → Content → Prop) (plan : Plan) (w : World) : Prop :=
  ∃ k, Sequence config n₀ kept k plan.moved w ∧
    ((∀ remaining, plan.stage ≠ .renaming remaining) → Next (n₀ + k + 1) plan w)

/-- `k` numbers are published, and no more than the two files of the next one are in place. -/
def Begun (config : Config) (n₀ : Nat) (kept : Path → Content → Prop) (k : Nat) (w : World) : Prop :=
  ∃ begun, Sequence config n₀ kept k begun w ∧ begun <+: [changeFileOf (n₀ + k + 1), ownFileOf (n₀ + k + 1)]

/-- Whatever was stopped, only a beginning of the next number is in place. -/
def LeftOver (config : Config) (n₀ : Nat) (kept : Path → Content → Prop) (w : World) : Prop :=
  ∃ k, Begun config n₀ kept k w

theorem Sequence.begun {config : Config} {n₀ k : Nat} {kept : Path → Content → Prop} {w : World}
    (sequence : Sequence config n₀ kept k [] w) : Begun config n₀ kept k w := ⟨[], sequence, List.nil_prefix⟩

theorem Advancing.leftOver {config : Config} {n₀ : Nat} {kept : Path → Content → Prop} {plan : Plan} {w : World}
    (advancing : Advancing config n₀ kept plan w) : LeftOver config n₀ kept w := by
  obtain ⟨k, sequence, next⟩ := advancing
  refine ⟨k, plan.moved, sequence, ?_⟩
  cases stage : plan.stage with
  | locked => simp [Plan.moved, stage]
  | «renaming» remaining => simp [Plan.moved, stage]
  | changeMoved =>
    have follows := (next (by simp [stage])).follows
    simp only [Plan.moved, stage, State.changeFile_eq, follows]
    exact ⟨[ownFileOf _], rfl⟩
  | stateMoved =>
    have follows := (next (by simp [stage])).follows
    simp only [Plan.moved, stage, State.changeFile_eq, State.ownFile_eq, follows]
    exact List.prefix_rfl

section Kept

variable {config : Config} {n₀ : Nat} {kept : Path → Content → Prop} {w w' : World} {plan : Plan}

theorem Next.changeFile {number : Nat} (next : Next number plan w) : plan.state.changeFile = changeFileOf number := by
  rw [State.changeFile_eq, next.follows]

theorem Next.ownFile {number : Nat} (next : Next number plan w) : plan.state.ownFile = ownFileOf number := by
  rw [State.ownFile_eq, next.follows]

theorem Next.aside {number : Nat} (next : Next number plan w) (aside : Aside w w') : Next number plan w' := by
  refine ⟨next.follows, next.small, next.text, ?_, ?_⟩
  · rw [aside.changes (changeFileOf number) rfl]
    exact next.change
  · rw [aside.changes (ownFileOf number) rfl]
    exact next.own

theorem Sequence.aside {k : Nat} {begun : List Path} (sequence : Sequence config n₀ kept k begun w)
    (aside : Aside w w')
    (dirs : ∀ path content, kept path content → path.dir = .changes) : Sequence config n₀ kept k begun w' := by
  refine sequence.same ?_ aside.changes dirs
  rw [World.intoChanges, aside.renames, World.intoChanges]

/-- The number in `state.txt` is the one the lock is taken for. -/
theorem Sequence.locked {k : Nat} {options : CreateDiffOptions} (sequence : Sequence config n₀ kept k [] w)
    (given : NoInitStateOption options) (prepared : Prepared config options w plan) :
    Advancing config n₀ kept (plan.at .locked) w := by
  obtain ⟨data, last, found, parsed, bound, follows⟩ := prepared.number given
  obtain ⟨content, here, holds⟩ := sequence.number
  obtain rfl : content = .text data := Option.some.inj (here.symm.trans found)
  have number := (HoldsNumber.of_parse parsed).unique holds
  refine ⟨k, sequence, fun _ => ⟨?_, by omega, prepared.text, ?_, ?_⟩⟩
  · change plan.state.sequenceNumber = _
    omega
  · simp [Plan.moved, Plan.at]
  · simp [Plan.moved, Plan.at]

theorem Advancing.moveChange (advancing : Advancing config n₀ kept (plan.at .locked) w)
    (dirs : ∀ path content, kept path content → path.dir = .changes) :
    Advancing config n₀ kept (plan.at .changeMoved) (w.rename newChangeFile plan.state.changeFile plan.content) := by
  obtain ⟨k, sequence, unfinished⟩ := advancing
  have next := unfinished (by rintro _ ⟨⟩)
  have file : plan.state.changeFile = changeFileOf (n₀ + k + 1) := next.changeFile
  have free : w.get plan.state.changeFile = none := by
    rw [file]
    exact sequence.absent _ _ (by omega) next.small (.inl rfl) (by simp [Plan.moved, Plan.at])
  refine ⟨k, sequence.move rfl (.inl file) free dirs, fun _ =>
    ⟨next.follows, next.small, next.text, fun _ => ?_, fun member => ?_⟩⟩
  · rw [← file, World.get_rename_new]
    rfl
  · have same : ownFileOf (n₀ + k + 1) = plan.state.changeFile := by simpa [Plan.moved, Plan.at] using member
    rw [file] at same
    exact absurd same.symm (changeFileOf_ne_ownFileOf _ _)

theorem Advancing.moveState (advancing : Advancing config n₀ kept (plan.at .changeMoved) w)
    (dirs : ∀ path content, kept path content → path.dir = .changes) :
    Advancing config n₀ kept (plan.at .stateMoved)
        (w.rename newStateFile plan.state.ownFile (.text plan.stateText)) := by
  obtain ⟨k, sequence, unfinished⟩ := advancing
  have next := unfinished (by rintro _ ⟨⟩)
  have changeFile : plan.state.changeFile = changeFileOf (n₀ + k + 1) := next.changeFile
  have file : plan.state.ownFile = ownFileOf (n₀ + k + 1) := next.ownFile
  have free : w.get plan.state.ownFile = none := by
    rw [file]
    refine sequence.absent _ _ (by omega) next.small (.inr rfl) ?_
    simp only [Plan.moved, Plan.at, changeFile, List.mem_singleton]
    exact fun same => changeFileOf_ne_ownFileOf _ _ same.symm
  refine ⟨k, sequence.move rfl (.inr file) free dirs, fun _ =>
    ⟨next.follows, next.small, next.text, fun _ => ?_, fun _ => ?_⟩⟩
  · rw [World.get_rename_ne _ _ _ (by rintro ⟨⟩) (by rw [file]; exact changeFileOf_ne_ownFileOf _ _)]
    exact next.change (by simp [Plan.moved, Plan.at, changeFile])
  · rw [← file, World.get_rename_new]
    rfl

theorem Advancing.moveLog {logFile : Text} {remaining : List Text} {content : Content}
    (advancing : Advancing config n₀ kept (plan.at (.renaming (logFile :: remaining))) w)
    (dirs : ∀ path content, kept path content → path.dir = .changes) :
    Advancing config n₀ kept (plan.at (.renaming remaining))
        (w.rename ⟨.log, logFile⟩ (doneFile logFile) content) := by
  obtain ⟨k, sequence, _⟩ := advancing
  refine ⟨k, sequence.same ?_ (fun path changes => ?_) dirs, fun unfinished => absurd rfl (unfinished _)⟩
  · rw [intoChanges_rename]
    simp [doneFile]
  · exact World.get_rename_ne _ _ _ (by rintro rfl; cases changes) (by rintro rfl; cases changes)

end Kept

theorem sequence_kept (config : Config) (n₀ : Nat) {kept : Path → Content → Prop}
    (inside : ∀ path content, kept path content → path.dir = .changes ∧ path ≠ stateFile) :
    Keeps config NoInitStateOption (fun w => ∃ k, Sequence config n₀ kept k [] w) (LeftOver config n₀ kept)
      (Advancing config n₀ kept) where
  aside := by
    intro w w' aside
    have dirs path content (known : kept path content) := (inside path content known).1
    refine ⟨?_, ?_, fun plan => ?_⟩
    · rintro ⟨k, sequence⟩
      exact ⟨k, sequence.aside aside dirs⟩
    · rintro ⟨k, begun, sequence, beginning⟩
      exact ⟨k, begun, sequence.aside aside dirs, beginning⟩
    · rintro ⟨k, sequence, next⟩
      exact ⟨k, sequence.aside aside dirs, fun unfinished => (next unfinished).aside aside⟩
  lock := by
    rintro options w plan given prepared ⟨k, sequence⟩
    exact sequence.locked given prepared
  moveChange advancing := advancing.moveChange (fun path content known => (inside path content known).1)
  moveState advancing := advancing.moveState (fun path content known => (inside path content known).1)
  moveCopy := by
    rintro w plan ⟨k, sequence, next⟩
    exact ⟨k + 1, sequence.finish rfl (next (by rintro _ ⟨⟩)) inside, fun unfinished => absurd rfl (unfinished _)⟩
  moveLog advancing := advancing.moveLog (fun path content known => (inside path content known).1)
  unlock := by
    rintro w plan ⟨k, sequence, _⟩
    exact ⟨k, sequence⟩
  stop := fun advancing => advancing.leftOver

/-- `state.txt` holds `n₀` and nothing is published above it. -/
structure Beginning (config : Config) (n₀ : Nat) (w : World) : Prop where
  state : ∃ content, w.get stateFile = some content ∧ HoldsNumber config n₀ content
  above : ∀ n path, n₀ < n → n ≤ 999999999 → FileOf n path → w.get path = none
  moves : w.intoChanges = []

theorem Beginning.sequence {config : Config} {n₀ : Nat} {w : World} (beginning : Beginning config n₀ w) :
    Sequence config n₀ (fun _ _ => False) 0 [] w :=
  ⟨beginning.moves, beginning.state, fun none => absurd none (by omega), fun n path next small file _ =>
    beginning.above n path next small file, fun _ _ none => none.elim⟩

theorem Beginning.holds {config : Config} {n₀ : Nat} {w : World} (beginning : Beginning config n₀ w) :
    Holding.Runs config NoInitStateOption (fun w => ∃ k, Sequence config n₀ (fun _ _ => False) k [] w)
      (LeftOver config n₀ (fun _ _ => False)) (Advancing config n₀ (fun _ _ => False)) (w, none) := by
  refine ⟨(none, ()), ?_⟩
  cases found : w.get lockFile with
  | none => exact .inl ⟨found, 0, beginning.sequence⟩
  | some content => exact .inr ⟨Option.isSome_iff_exists.mpr ⟨content, found⟩, 0, beginning.sequence.begun⟩

/-- In every state of the runs some beginning is in place. -/
theorem leftOver_of_holds {config : Config} {n₀ : Nat} {kept : Path → Content → Prop} {c : World × Option (Prog Unit)}
    (holds : Holding.Runs config NoInitStateOption (fun w => ∃ k, Sequence config n₀ kept k [] w)
      (LeftOver config n₀ kept) (Advancing config n₀ kept) c) : LeftOver config n₀ kept c.1 := by
  rcases holds.cases with (⟨_, k, sequence⟩ | ⟨_, leftOver⟩) | ⟨_, plan, advancing⟩
  · exact ⟨k, sequence.begun⟩
  · exact leftOver
  · exact advancing.leftOver

/-- Files that are in `changes_dir` now, `state.txt` apart. -/
def Standing (w : World) (path : Path) (content : Content) : Prop :=
  path.dir = .changes ∧ path ≠ stateFile ∧ w.get path = some content

theorem Sequence.learn {config : Config} {n₀ k : Nat} {begun : List Path} {w : World}
    (sequence : Sequence config n₀ (fun _ _ => False) k begun w) : Sequence config n₀ (Standing w) k begun w :=
  ⟨sequence.moves, sequence.number, sequence.current, sequence.absent, fun _ _ standing => standing.2.2⟩

/-- The published numbers follow `n₀` one by one, `state.txt` holds the last of them and has its files in place, and
whatever stands in `changes_dir` stays as it is. -/
theorem createDiff_sequence (config : Config) {n₀ : Nat} {start w : World} {running : Option (Prog Unit)}
    (beginning : Beginning config n₀ start) (reached : DiffRuns config NoInitStateOption (start, none) (w, running)) :
    (∃ k begun, w.intoChanges = publications n₀ k ++ begun ∧
      begun <+: [changeFileOf (n₀ + k + 1), ownFileOf (n₀ + k + 1)] ∧
      ∃ content, w.get stateFile = some content ∧ HoldsNumber config (n₀ + k) content) ∧
    (∀ content n, w.get stateFile = some content → HoldsNumber config n content → n₀ < n →
      w.get (ownFileOf n) = some content ∧
        ∃ sources objects, w.get (changeFileOf n) = some (.osc sources (some objects))) ∧
    ∀ w' running', DiffRuns config NoInitStateOption (w, running) (w', running') →
      ∀ path content, path.dir = .changes → path ≠ stateFile → w.get path = some content →
        w'.get path = some content := by
  have holds := (sequence_kept config n₀ (fun _ _ none => none.elim)).runs beginning.holds reached
  obtain ⟨k, begun, sequence, start⟩ := leftOver_of_holds holds
  refine ⟨⟨k, begun, sequence.moves, start, sequence.number⟩, fun content n found number above => ?_,
    fun w' running' later path content changes other here => ?_⟩
  · obtain ⟨content', found', number'⟩ := sequence.number
    obtain rfl : content = content' := Option.some.inj (found.symm.trans found')
    obtain rfl := number.unique number'
    obtain ⟨data, found, own, change⟩ := sequence.current (by omega)
    obtain rfl : content = .text data := Option.some.inj (found'.symm.trans found)
    exact ⟨own, change⟩
  · have known : Holding.Runs config NoInitStateOption (fun v => ∃ k, Sequence config n₀ (Standing w) k [] v)
        (LeftOver config n₀ (Standing w)) (Advancing config n₀ (Standing w)) (w, running) := by
      refine holds.also ?_ ?_ ?_
      · rintro ⟨k, sequence⟩
        exact ⟨k, sequence.learn⟩
      · rintro ⟨k, begun, sequence, start⟩
        exact ⟨k, begun, sequence.learn, start⟩
      · rintro plan ⟨k, sequence, next⟩
        exact ⟨k, sequence.learn, next⟩
    have kept := (sequence_kept config n₀ (fun _ _ standing => ⟨standing.1, standing.2.1⟩)).runs known later
    obtain ⟨_, _, sequence', _⟩ := leftOver_of_holds kept
    exact sequence'.kept path content ⟨changes, other, here⟩

section Example

private theorem firstNode_beginning : Beginning {} 7 firstNode := by
  have number : State.parse (stateFile.text {}) "sequenceNumber=7\ntimestamp=2020-03-18T14\\:18\\:49Z\n".toList =
      .ok ⟨7, 1584541129⟩ := by decide +kernel
  refine ⟨⟨_, rfl, HoldsNumber.of_parse number⟩, fun n path _ _ file => ?_, rfl⟩
  have notLog : (path == ⟨.log, "a.log".toList⟩) = false := beq_eq_false_iff_ne.mpr (by
    rintro rfl
    cases file.dir)
  have notState : (path == stateFile) = false := beq_eq_false_iff_ne.mpr file.ne_stateFile
  rw [firstNode, World.get, List.lookup_cons, notLog, List.lookup_cons, notState]
  rfl

private theorem firstNodePublished_number : firstNodePublished.intoChanges = publications 7 1 ∧
    ∃ content, firstNodePublished.get stateFile = some content ∧ HoldsNumber {} 8 content := by
  have number : State.parse (stateFile.text {}) "sequenceNumber=8\ntimestamp=1970-01-01T00\\:00\\:01Z\n".toList =
      .ok ⟨8, 1⟩ := by decide +kernel
  exact ⟨by decide +kernel, _, by decide +kernel, HoldsNumber.of_parse number⟩

/-- The first run publishes the number 8, and its files are never changed again. -/
theorem createDiff_sequence_node : firstNodePublished.intoChanges = publications 7 1 ∧
    ∃ content sources objects, firstNodePublished.get stateFile = some content ∧
      ∀ w' running', DiffRuns {} NoInitStateOption (firstNodePublished, none) (w', running') →
        w'.get (ownFileOf 8) = some content ∧ w'.get (changeFileOf 8) = some (.osc sources (some objects)) := by
  obtain ⟨moves, content, found, number⟩ := firstNodePublished_number
  have noInitState : NoInitStateOption {} := rfl
  obtain ⟨_, current, stands⟩ :=
    createDiff_sequence {} firstNode_beginning (firstNode_runs noInitState firstNode_published.visits)
  obtain ⟨own, sources, objects, change⟩ := current content 8 found number (by decide)
  exact ⟨moves, content, sources, objects, found, fun w' running' later =>
    ⟨stands w' running' later _ _ rfl (FileOf.ne_stateFile (.inr rfl)) own,
      stands w' running' later _ _ rfl (FileOf.ne_stateFile (.inl rfl)) change⟩⟩

end Example

end Osmdbt
