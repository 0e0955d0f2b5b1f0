import Osmdbt.Diff.SequenceNumbers
import Osmdbt.Log.Exclusion
import Osmdbt.System.Windows

/-! What somebody sees who follows the published diffs by their numbers while the script
runs, is stopped and starts again. -/

namespace Osmdbt

open General

/-- The diff with the number `n`. -/
def World.diff (w : World) (n : Nat) : Option (List (Text × Text) × Option DiffObjects) :=
  match w.get (changeFileOf n) with
  | some (.osc sources objects) => some (sources, objects)
  | _ => none

/-- `state.txt` says that `number` was published last. -/
def Numbered (config : Config) (w : World) (number : Nat) : Prop :=
  ∃ content, w.get stateFile = some content ∧ HoldsNumber config number content

/-- The name of a diff and not of a state file. -/
def Path.Gz (path : Path) : Prop := path.name.getLast? = some 'z'

instance (path : Path) : Decidable path.Gz := inferInstanceAs (Decidable (_ = _))

theorem changeFileOf_gz (n : Nat) : (changeFileOf n).Gz := by
  simp [Path.Gz, changeFileOf, State.changeFile, State.oscPath]

theorem ownFileOf_not_gz (n : Nat) : ¬ (ownFileOf n).Gz := by
  simp [Path.Gz, ownFileOf, State.ownFile, State.statePath]

private theorem publications_gz (n₀ k : Nat) : (publications n₀ k).countP (fun path => path.Gz) = k := by
  induction k with
  | zero => rfl
  | succ k ih =>
    have one (n : Nat) : (publication n).countP (fun path => path.Gz) = 1 := by
      simp [publication, changeFileOf_gz, ownFileOf_not_gz, show ¬ stateFile.Gz by decide]
    rw [publications_succ, List.countP_append, ih, one]

private theorem publications_states (n₀ k : Nat) : (publications n₀ k).count stateFile = k := by
  induction k with
  | zero => rfl
  | succ k ih =>
    have one (n : Nat) : (publication n).count stateFile = 1 := by
      have change : changeFileOf n ≠ stateFile := FileOf.ne_stateFile (.inl rfl)
      have own : ownFileOf n ≠ stateFile := FileOf.ne_stateFile (.inr rfl)
      simp [publication, change, own]
    rw [publications_succ, List.count_append, ih, one]

/-- The diffs are there under the numbers behind `n₀`, in the order in which they were published. -/
structure Landed (n₀ : Nat) (w : World) : Prop where
  count : w.batches.length = w.intoChanges.countP (fun path => path.Gz)
  stored : ∀ i batch, w.batches[i]? = some batch → w.get (changeFileOf (n₀ + i + 1)) = some (.osc batch.1 batch.2)

section Landed

variable {config : Config} {n₀ k : Nat} {begun : List Path} {kept : Path → Content → Prop} {plan : Plan} {w w' : World}

theorem Landed.same (landed : Landed n₀ w) (moves : w'.intoChanges = w.intoChanges) (batches : w'.batches = w.batches)
    (changes : ∀ path, path.dir = .changes → w'.get path = w.get path) : Landed n₀ w' where
  count := by rw [batches, moves, landed.count]
  stored i batch := by
    rw [batches, changes (changeFileOf _) rfl]
    exact landed.stored i batch

/-- The number of diffs, as far as the files of the next number are in place. -/
theorem Landed.length (landed : Landed n₀ w) (sequence : Sequence config n₀ kept k begun w) :
    w.batches.length = k + begun.countP (fun path => path.Gz) := by
  rw [landed.count, sequence.moves, List.countP_append, publications_gz]

/-- A file that is no diff. -/
theorem Landed.plain (landed : Landed n₀ w) {oldName newName : Path} (tmp : oldName.dir ≠ .changes)
    (plain : ¬ newName.Gz) (data : Text) :
    Landed n₀ (w.rename oldName newName (.text data)) where
  count := by
    rw [(rename_plain (.inr ⟨data, rfl⟩)).1, intoChanges_rename, List.countP_append, landed.count]
    split
    · rw [List.countP_singleton, if_neg (by simpa using plain), Nat.add_zero]
    · rfl
  stored i batch found := by
    rw [(rename_plain (.inr ⟨data, rfl⟩)).1] at found
    rw [World.get_rename_ne]
    · exact landed.stored i batch found
    · rintro same
      exact tmp (same ▸ rfl)
    · rintro rfl
      exact plain (changeFileOf_gz _)

/-- The next diff. -/
theorem Landed.next (landed : Landed n₀ w) (sequence : Sequence config n₀ kept k [] w) {oldName : Path}
    (tmp : oldName.dir ≠ .changes)
    (sources : List (Text × Text)) (objects : Option DiffObjects) :
    Landed n₀ (w.rename oldName (changeFileOf (n₀ + k + 1)) (.osc sources objects)) := by
  have length : w.batches.length = k := landed.length sequence
  have batches : (w.rename oldName (changeFileOf (n₀ + k + 1)) (.osc sources objects)).batches =
      w.batches ++ [(sources, objects)] :=
    batches_rename w _ _ _
  refine ⟨?_, fun i batch found => ?_⟩
  · rw [batches, intoChanges_rename, if_pos (show (changeFileOf _).dir = .changes from rfl),
      List.length_append, List.countP_append,
      landed.count, List.countP_singleton, if_pos (by simpa using changeFileOf_gz _), List.length_singleton]
  · rw [batches] at found
    rcases Nat.lt_trichotomy i w.batches.length with before | rfl | after
    · rw [List.getElem?_append_left before] at found
      have other : changeFileOf (n₀ + i + 1) ≠ changeFileOf (n₀ + k + 1) := by
        intro same
        have number := changeFileOf_inj same
        omega
      have moved : changeFileOf (n₀ + i + 1) ≠ oldName := fun same => tmp (same ▸ rfl)
      rw [World.get_rename_ne _ _ _ moved other]
      exact landed.stored i batch found
    · rw [List.getElem?_concat_length] at found
      obtain rfl := Option.some.inj found
      rw [length, World.get_rename_new]
    · rw [List.getElem?_eq_none (by rw [List.length_append, List.length_singleton]; omega)] at found
      cases found

end Landed

/-- Nothing that matters to who follows the diffs. -/
structure SameFeed (w w' : World) : Prop where
  moves : w'.intoChanges = w.intoChanges
  batches : w'.batches = w.batches
  changes : ∀ path, path.dir = .changes → w'.get path = w.get path

/-- What catchup and get-log ask for. -/
def Op.Apart (op : Op) : Prop := LogOp op ∨ op.Local InRun

instance : Looking Op.Apart := ⟨fun _ looks => .inl (.look looks)⟩

section Apart

variable {config : Config} {w w' : World}

theorem Aside.sameFeed (aside : Aside w w') : SameFeed w w' where
  moves := by rw [World.intoChanges, aside.renames, World.intoChanges]
  batches := by rw [World.batches, aside.renames, World.batches]
  changes := aside.changes

theorem Untouched.sameFeed {touched : Path → Prop} (same : Untouched touched w w')
    (outside : ∀ path, touched path → path.dir ≠ .changes) :
    SameFeed w w' where
  moves := by rw [World.intoChanges, same.renames, World.intoChanges]
  batches := by rw [World.batches, same.renames, World.batches]
  changes path changes := same.get path (fun inside => outside path inside changes)

/-- A rename from and to another directory. -/
theorem SameFeed.elsewhere {oldName newName : Path} (notOld : oldName.dir ≠ .changes) (notNew : newName.dir ≠ .changes)
    (content : Content) : SameFeed w (w.rename oldName newName content) where
  moves := by rw [intoChanges_rename, if_neg notNew, List.append_nil]
  batches := (rename_plain (.inl notNew)).1
  changes path changes := World.get_rename_ne _ _ _ (by rintro rfl; exact notOld changes)
    (by rintro rfl; exact notNew changes)

theorem Step.apart {op : Op} {reply : Reply op} (done : Step w op reply w') (apart : op.Apart) :
    SameFeed w w' ∧ w'.get lockFile = w.get lockFile := by
  have unchanged {touched : Path → Prop} (same : Untouched touched w w')
      (outside : ∀ path, touched path → path.dir ≠ .changes ∧ path.dir ≠ .tmp) :
      SameFeed w w' ∧ w'.get lockFile = w.get lockFile :=
    ⟨same.sameFeed (fun path inside => (outside path inside).1), same.get _ (fun inside => (outside _ inside).2 rfl)⟩
  cases reply with
  | error code =>
    obtain ⟨_, rfl, _⟩ := done
    exact ⟨⟨rfl, rfl, fun _ _ => rfl⟩, rfl⟩
  | ok value =>
    rcases apart with (looks | writes | name | limit | lsn) | own
    · exact unchanged (Step.untouched done (looks.local (fun _ => False))) (fun _ => False.elim)
    · rename_i name
      refine unchanged (Step.untouched done (@Op.Writes.local (· = newLog name) _ rfl _ writes)) ?_
      rintro _ rfl
      exact ⟨by rintro ⟨⟩, by rintro ⟨⟩⟩
    · obtain ⟨content, _, rfl⟩ := done
      exact ⟨.elsewhere (by rintro ⟨⟩) (by rintro ⟨⟩) content, World.get_rename_ne _ _ _ (by rintro ⟨⟩) (by rintro ⟨⟩)⟩
    · obtain ⟨sent, _, _, rfl⟩ := done
      exact ⟨⟨rfl, rfl, fun _ _ => rfl⟩, rfl⟩
    · obtain ⟨value, _, rfl⟩ := done
      exact ⟨⟨rfl, rfl, fun _ _ => rfl⟩, rfl⟩
    · refine unchanged (Step.untouched done own) (fun path run => ?_)
      rw [show path.dir = .run from run]
      decide

theorem pidFile_apart {body : Prog Unit} (uses : body.Uses LogOp (fun _ => True)) :
    (pidFile config logPidName body).Uses Op.Apart (fun _ => True) :=
  pidFile_uses (fun _ writes => .inr (@Op.Writes.local InRun (pidPath logPidName) rfl _ writes)) (.inr rfl)
    (uses.weaken (fun _ here => .inl here) (fun _ here => here))

theorem catchup_apart : (catchup config 0).Uses Op.Apart (fun _ => True) := by
  obtain ⟨body, parts, uses⟩ := @catchup_uses config LogOp _ _ LogOp.writes 0
  rw [parts]
  exact pidFile_apart uses

private theorem getLog_apart : (getLog config {}).Uses Op.Apart (fun _ => True) := by
  obtain ⟨body, parts, uses⟩ := @getLog_uses config {}
  rw [parts]
  exact pidFile_apart uses

end Apart

section Kept

variable {config : Config} {clean stuck : World → Prop} {under : Plan → World → Prop} {w w' : World}

/-- What a publication keeps depends on nothing else. -/
def Following (clean stuck : World → Prop) (under : Plan → World → Prop) : Prop :=
  ∀ w w' : World, SameFeed w w' → (clean w → clean w') ∧ (stuck w → stuck w') ∧ ∀ plan, under plan w → under plan w'

theorem Following.running (following : Following clean stuck under) (same : SameFeed w w')
    (lock : w'.get lockFile = w.get lockFile)
    {t : Option Plan × Unit} (running : Running clean stuck under (w, t)) : Running clean stuck under (w', t) := by
  obtain ⟨keepsClean, keepsStuck, keepsUnder⟩ := following w w' same
  obtain ⟨_ | plan, u⟩ := t
  · have settled : Settled clean stuck w := running
    rw [Settled, ← lock] at settled
    exact settled.imp (And.imp_right keepsClean) (And.imp_right keepsStuck)
  · exact ⟨lock ▸ running.1, keepsUnder plan running.2⟩

def followRules (clean stuck : World → Prop) (under : Plan → World → Prop) : Rules (Option Plan × Unit) where
  step := Step
  rely c c' := Commits c.1 c'.1 ∧ c'.2 = c.2
  move c c' := Running clean stuck under c → Running clean stuck under c'

/-- No publication is under way. -/
def Waiting (clean stuck : World → Prop) (under : Plan → World → Prop) (c : World × (Option Plan × Unit)) : Prop :=
  c.2 = (none, ()) ∧ Running clean stuck under c

variable (following : Following clean stuck under)
include following

theorem Following.commits {t : Option Plan × Unit} (commits : Commits w w')
    (running : Running clean stuck under (w, t)) :
    Running clean stuck under (w', t) := following.running commits.aside.1.sameFeed commits.aside.2.lock running

theorem Following.apart {program : Prog Unit} (uses : program.Uses Op.Apart (fun _ => True)) :
    (followRules clean stuck under).Triple (Waiting clean stuck under) program (fun _ => Waiting clean stuck under)
      (fun _ _ => True) := by
  have stable : (followRules clean stuck under).Stable (Waiting clean stuck under) := by
    rintro ⟨w, t⟩ ⟨w', _⟩ ⟨commits, rfl⟩ ⟨idle, running⟩
    exact ⟨idle, following.commits commits running⟩
  refine (Discipline.Triple.uses uses stable (fun c op reply w' waiting apart done => ?_)).weaken (fun _ here => here)
    (fun _ _ here => here.2) (fun _ _ _ => trivial)
  obtain ⟨w, t⟩ := c
  obtain ⟨same, lock⟩ := Step.apart done apart
  have moved (running : Running clean stuck under (w, t)) : Running clean stuck under (w', t) :=
    following.running same lock running
  exact ⟨t, moved, waiting.1, moved waiting.2⟩

theorem Following.script (keeps : Keeps config NoInitStateOption clean stuck under) :
    (followRules clean stuck under).Triple (Waiting clean stuck under) (script config) (fun _ _ => True)
      (fun _ _ => True) := by
  unfold Osmdbt.script
  refine (following.apart catchup_apart).bind (fun _ => (following.apart getLog_apart).bind (fun _ =>
    (following.apart catchup_apart).bind (fun _ => ?_)))
  rintro ⟨w, t⟩ ⟨rfl, _⟩
  refine Discipline.Safe.mono (D := runRules config NoInitStateOption) (fun _ _ _ _ done => done)
    (fun _ _ change => ⟨change.1.aside.2, change.2⟩) (fun _ _ move running => keeps.moved running move) ?_
  exact createDiff_safe config (show NoInitStateOption {} from rfl) w

/-- What every publication keeps holds while the script runs, is stopped and starts again. -/
theorem Following.cycle (keeps : Keeps config NoInitStateOption clean stuck under) {start : World}
    {current : World × Option (Prog Unit)}
    (initial : Settled clean stuck start)
    (reached : Relation.ReflTransGen (Sequential Step Commits (Cycle config)) (start, none) current) :
    Settled clean stuck current.1 ∨ ∃ plan, under plan current.1 := by
  have kept : Sequential.Holds (followRules clean stuck under) (fun _ _ => True) (fun _ _ => True)
    (Waiting clean stuck under)
      (Running clean stuck under) current := by
    refine Sequential.invariant (D := followRules clean stuck under) ?_ ?_ ?_ ?_ ?_
      (show Sequential.Holds _ _ _ _ _ (start, none) from ⟨(none, ()), rfl, initial⟩) reached
    · exact fun w w' t waiting commits => ⟨t, waiting.1, following.commits commits waiting.2⟩
    · exact fun w w' t running commits => ⟨t, ⟨commits, rfl⟩, following.commits commits running⟩
    · rintro w program w' t ⟨idle, running⟩ ⟨rfl, cleaned⟩
      have same : SameFeed w w' := cleaned.sameFeed (fun path run => by rw [show path.dir = .run from run]; decide)
      have here := following.running same (cleaned.get _ (by rintro ⟨⟩)) running
      exact ⟨t, here, following.script keeps _ ⟨idle, here⟩⟩
    · exact fun c c' running move => move running
    · rintro w ⟨_ | plan, u⟩ running
      · exact ⟨(none, ()), rfl, running⟩
      · exact ⟨(none, ()), rfl, .inr ⟨running.1, keeps.stop running.2⟩⟩
  obtain ⟨w, none | program⟩ := current
  · obtain ⟨t, idle, running⟩ := kept
    obtain rfl : t = (none, ()) := idle
    exact .inl running
  · obtain ⟨⟨_ | plan, u⟩, running, _⟩ := kept
    · exact .inl running
    · exact .inr ⟨plan, running.2⟩

end Kept

section Feed

variable {config : Config} {n₀ k : Nat} {plan : Plan} {w w' : World}

theorem SameFeed.sequence {begun : List Path} (same : SameFeed w w')
    (sequence : Sequence config n₀ (fun _ _ => False) k begun w) :
    Sequence config n₀ (fun _ _ => False) k begun w' := sequence.same same.moves same.changes (fun _ _ => False.elim)

theorem SameFeed.advancing (same : SameFeed w w') (advancing : Advancing config n₀ (fun _ _ => False) plan w) :
    Advancing config n₀ (fun _ _ => False) plan w' := by
  obtain ⟨k, sequence, next⟩ := advancing
  refine ⟨k, same.sequence sequence, fun unfinished => ?_⟩
  obtain ⟨follows, small, text, change, own⟩ := next unfinished
  refine ⟨follows, small, text, ?_, ?_⟩
  · rwa [same.changes (changeFileOf _) rfl]
  · rwa [same.changes (ownFileOf _) rfl]

theorem SameFeed.landed (same : SameFeed w w') (landed : Landed n₀ w) :
    Landed n₀ w' := landed.same same.moves same.batches same.changes

theorem feed_following (config : Config) (n₀ : Nat) :
    Following (fun w => (∃ k, Sequence config n₀ (fun _ _ => False) k [] w) ∧ Landed n₀ w)
      (fun w => LeftOver config n₀ (fun _ _ => False) w ∧ Landed n₀ w)
        (fun plan w => Advancing config n₀ (fun _ _ => False) plan w ∧ Landed n₀ w) := by
  refine fun w w' same => ⟨?_, ?_, fun plan => And.imp same.advancing same.landed⟩
  · exact And.imp (fun ⟨k, sequence⟩ => ⟨k, same.sequence sequence⟩) same.landed
  · exact And.imp (fun ⟨k, begun, sequence, start⟩ => ⟨k, begun, same.sequence sequence, start⟩) same.landed

private theorem feed_kept (config : Config) (n₀ : Nat) :
    Keeps config NoInitStateOption (fun w => (∃ k, Sequence config n₀ (fun _ _ => False) k [] w) ∧ Landed n₀ w)
      (fun w => LeftOver config n₀ (fun _ _ => False) w ∧ Landed n₀ w)
        (fun plan w => Advancing config n₀ (fun _ _ => False) plan w ∧ Landed n₀ w) := by
  have numbers := @sequence_kept config n₀ (fun _ _ => False) (fun _ _ => False.elim)
  refine ⟨fun aside => feed_following config n₀ _ _ aside.sameFeed, fun given prepared here =>
    ⟨numbers.lock given prepared here.1, here.2⟩,
    ?_, ?_, ?_, ?_, fun here => ⟨numbers.unlock here.1, here.2⟩, fun here => ⟨here.1.leftOver, here.2⟩⟩
  · rintro w plan ⟨advancing, landed⟩
    refine ⟨numbers.moveChange advancing, ?_⟩
    obtain ⟨k, sequence, next⟩ := advancing
    have follows : plan.state.sequenceNumber = n₀ + k + 1 := (next (by rintro _ ⟨⟩)).follows
    rw [State.changeFile_eq, follows]
    exact landed.next sequence (by decide) plan.sources (some plan.objects)
  · exact fun here => ⟨numbers.moveState here.1, here.2.plain (by decide) (ownFileOf_not_gz _) _⟩
  · exact fun here => ⟨numbers.moveCopy here.1, here.2.plain (by decide) (by decide) _⟩
  · rintro w plan logFile remaining content ⟨advancing, landed⟩
    have same : SameFeed w (w.rename ⟨.log, logFile⟩ (doneFile logFile) content) := .elsewhere (by rintro ⟨⟩)
      (by rintro ⟨⟩) content
    exact ⟨numbers.moveLog advancing, same.landed landed⟩

/-- The diffs in every state of the runs. -/
theorem Beginning.landed {start : World} {current : World × Option (Prog Unit)} (beginning : Beginning config n₀ start)
    (fresh : NothingWritten start)
    (reached : Relation.ReflTransGen (Sequential Step Commits (Cycle config)) (start, none) current) :
    LeftOver config n₀ (fun _ _ => False) current.1 ∧ Landed n₀ current.1 := by
  have nothing : Landed n₀ start := by
    have none : start.batches = [] := by rw [World.batches, fresh.renames]; rfl
    refine ⟨by rw [none, beginning.moves]; rfl, fun i batch found => ?_⟩
    rw [none] at found
    cases found
  have settled : Settled (fun w => (∃ k, Sequence config n₀ (fun _ _ => False) k [] w) ∧ Landed n₀ w)
      (fun w => LeftOver config n₀ (fun _ _ => False) w ∧ Landed n₀ w) start := by
    cases found : start.get lockFile with
    | none => exact .inl ⟨found, ⟨0, beginning.sequence⟩, nothing⟩
    | some content => exact .inr ⟨by rw [found]; rfl, ⟨0, beginning.sequence.begun⟩, nothing⟩
  rcases (feed_following config n₀).cycle (feed_kept config n₀) settled reached with
    (⟨_, ⟨k, sequence⟩, landed⟩ | ⟨_, begun, landed⟩) | ⟨plan, advancing, landed⟩
  · exact ⟨⟨k, sequence.begun⟩, landed⟩
  · exact ⟨begun, landed⟩
  · exact ⟨advancing.leftOver, landed⟩

theorem Begun.states (here : Begun config n₀ (fun _ _ => False) k w) : w.intoChanges.count stateFile = k := by
  obtain ⟨begun, sequence, start⟩ := here
  have none : begun.count stateFile = 0 := by
    refine List.count_eq_zero.mpr (fun member => ?_)
    have file : FileOf (n₀ + k + 1) stateFile := by simpa [FileOf] using start.subset member
    exact file.ne_stateFile rfl
  rw [sequence.moves, List.count_append, publications_states, none, Nat.add_zero]

theorem Begun.numbered (here : Begun config n₀ (fun _ _ => False) k w) : Numbered config w (n₀ + k) := by
  obtain ⟨begun, sequence, _⟩ := here
  exact sequence.number

theorem Numbered.unique {m n : Nat} (first : Numbered config w m) (second : Numbered config w n) : m = n := by
  obtain ⟨content, found, number⟩ := first
  obtain ⟨content', found', number'⟩ := second
  obtain rfl : content = content' := Option.some.inj (found.symm.trans found')
  exact number.unique number'

/-- Every number up to the one in `state.txt` has its diff. -/
theorem Landed.published (landed : Landed n₀ w) (here : Begun config n₀ (fun _ _ => False) k w) {n : Nat}
    (after : n₀ < n) (upTo : n ≤ n₀ + k) :
    ∃ batch, w.batches[n - n₀ - 1]? = some batch ∧ w.diff n = some batch := by
  obtain ⟨begun, sequence, _⟩ := here
  have length := landed.length sequence
  have inside : n - n₀ - 1 < w.batches.length := by omega
  have found : w.batches[n - n₀ - 1]? = some w.batches[n - n₀ - 1] := List.getElem?_eq_getElem inside
  have number : n₀ + (n - n₀ - 1) + 1 = n := by omega
  have stored := landed.stored _ _ found
  rw [number] at stored
  refine ⟨_, found, ?_⟩
  rw [World.diff, stored]

theorem Step.renames {op : Op} {reply : Reply op} (done : Step w op reply w') : w.renames <+: w'.renames := by
  cases reply with
  | error code =>
    obtain ⟨_, rfl, _⟩ := done
    exact List.prefix_rfl
  | ok value =>
    cases op with
    | rename oldName newName =>
      obtain ⟨content, _, rfl⟩ := done
      exact List.prefix_append _ _
    | peek limit =>
      obtain ⟨sent, _, _, rfl⟩ := done
      exact List.prefix_rfl
    | advance lsn =>
      obtain ⟨value, _, rfl⟩ := done
      exact List.prefix_rfl
    | _ => exact (@Step.untouched (fun _ => True) w w' _ (.ok value) done trivial).renames ▸ List.prefix_rfl

end Feed

end Osmdbt
