import Osmdbt.General.Serial
import Osmdbt.Diff.PublishOnce
import Osmdbt.Log.Exclusion

/-! The pid files as locks: with a directory for them, interleaved runs of one program, or
of the log programs, do nothing they could not do one after the other. -/

namespace Osmdbt

open General

section PidFile

variable {config : Config} {name : Text} {α : Type}

theorem keeps_taken {path : Path} (w : World) (op : Op) (reply : Reply op) (w' : World) (keeps : op.Keeps path)
    (done : Step w op reply w') (taken : (w.get path).isSome) : (w'.get path).isSome :=
      (Step.keeps done keeps).mpr taken

theorem pidFile_waits {body : Prog α} (some : config.runDir ≠ [])
    (uses : body.Uses (Op.Keeps (pidPath name)) (fun _ => True)) :
    (pidFile config name body).Waits Step (fun w => (w.get (pidPath name)).isSome) := by
  have last : (body.scope (unlink (pidPath name))).Inside Step (fun w => (w.get (pidPath name)).isSome) :=
    Program.Inside.scope keeps_taken uses (.unlink (pidPath name))
  have constructor : ((perform Op.getpid [] : Prog Nat) >>= fun pid =>
      reliableWrite (pidPath name) (natText pid ++ ['\n']) >>= fun _ => reliableClose (pidPath name)).Uses
        (Op.Keeps (pidPath name)) (fun _ => True) :=
    (perform_uses trivial).bind (fun (pid : Nat) _ => (reliableWrite_uses (fun _ => trivial) _).bind
      (fun _ _ => perform_uses trivial))
  rw [pidFile_eq some]
  intro w reply w' done
  cases reply with
  | error code =>
    exact .inr ⟨done.2.1, trivial⟩
  | ok value =>
    obtain ⟨free, rfl⟩ := done
    refine .inl ⟨by simp [free], by simp, ?_⟩
    exact Program.Inside.bind keeps_taken constructor (fun _ => last)

end PidFile

/-- Left-over pid files are removed. -/
def Tidied (w w' : World) : Prop := Untouched (fun path => path.dir = .run) w w'

def diffPidName : Text := "osmdbt-create-diff".toList

section CreateDiff

variable (config : Config) (options : CreateDiffOptions)

theorem MakeOp.keeps {path : Path} (run : path.dir = .run) {op : Op} (makes : MakeOp op) : op.Keeps path := by
  have other {own : Path} (dir : own.dir ≠ .run) : own ≠ path := fun same => dir (same ▸ run)
  cases makes with
  | «open» => exact other (by decide)
  | close sources objects => exact other (by decide)
  | state writes => cases writes <;> first | exact other (by decide) | trivial
  | copy writes => cases writes <;> first | exact other (by decide) | trivial

theorem PublishOp.keeps {path : Path} (run : path.dir = .run) {state : State} {logFiles : List Text} {op : Op}
    (used : PublishOp state logFiles op) : op.Keeps path := by
  have other {own : Path} (dir : own.dir ≠ .run) : own ≠ path := fun same => dir (same ▸ run)
  cases used with
  | look looks => exact Looking.looks op looks
  | lock writes => cases writes <;> first | exact other (by decide) | trivial
  | unlock => exact other (by decide)
  | change => exact ⟨other (by decide), other (by rintro ⟨⟩)⟩
  | own => exact ⟨other (by decide), other (by rintro ⟨⟩)⟩
  | copy => exact ⟨other (by decide), other (by decide)⟩
  | log member => exact ⟨other (by rintro ⟨⟩), other (by rintro ⟨⟩)⟩

/-- Between constructor and destructor nobody touches the pid file. -/
theorem createDiff_body : ∃ body, createDiff config options = pidFile config diffPidName body ∧
    body.Uses (Op.Keeps (pidPath diffPidName)) (fun _ => True) := by
  refine ⟨_, rfl, findLogFiles_uses.bind (fun logFiles _ => ?_)⟩
  split
  · exact Program.Uses.pure trivial
  refine connect_uses.bind (fun _ _ => getDbVersion_uses.bind
    (fun _ _ => (readLogFiles_uses {} [] _).bind (fun result _ => ?_)))
  change (if _ then _ else _ : Prog Unit).Uses _ _
  split
  · exact Program.Uses.pure trivial
  have make : ∀ op, MakeOp op → op.Keeps (pidPath diffPidName) := fun _ makes => makes.keeps rfl
  refine (writeFiles_uses make result.1 result.2).bind (fun state _ => ?_)
  split
  · exact Program.Uses.pure trivial
  · exact (publish_uses state _).weaken (fun _ used => used.keeps rfl) (fun _ here => here)

theorem Outside.keeps {w w' : World} (outside : Outside w w') {path : Path} (run : path.dir = .run) :
    w'.get path = w.get path := by
  cases outside with
  | commit wal tables => rfl
  | logFile name data log fresh unused =>
    refine World.get_put_ne _ _ _ ?_
    rintro rfl
    cases run

/-- Any number of create-diff processes. -/
abbrev DiffProcesses (allowed : CreateDiffOptions → Prop) {ι : Type} [DecidableEq ι] :
    World × (ι → Option (Prog Unit)) → World × (ι → Option (Prog Unit)) → Prop :=
  Attended Step Outside Tidied (fun program => ∃ options, allowed options ∧ program = createDiff config options)

/-- What any number of create-diff processes come to, one run after the other comes to: at
most one of them has done anything that is not finished. -/
theorem createDiff_serial (given : config.runDir ≠ []) {allowed : CreateDiffOptions → Prop}
    (permitted : allowed options)
    {ι : Type} [DecidableEq ι] {start : World} {current : World × (ι → Option (Prog Unit))}
    (reached : Relation.ReflTransGen (DiffProcesses config allowed) (start, fun _ => none) current) :
    ∃ running, DiffRuns config allowed (start, none) (current.1, running) ∧
      ∀ i program, current.2 i = some program → running = some program ∨ program.Over ∨
        ∃ options, allowed options ∧ program = createDiff config options := by
  have waits (program : Prog Unit) : (∃ options, allowed options ∧ program = createDiff config options) →
      program.Waits Step (fun w => (w.get (pidPath diffPidName)).isSome) := by
    rintro ⟨own, _, rfl⟩
    obtain ⟨body, same, uses⟩ := createDiff_body config own
    rw [same]
    exact pidFile_waits given uses
  have outsideKeeps (w w' : World) (outside : Outside w w') (taken : (w.get (pidPath diffPidName)).isSome) :
      (w'.get (pidPath diffPidName)).isSome := by
    rwa [outside.keeps rfl]
  have tidies (w w' : World) (tidied : Tidied w w') : ∃ program, Launch config allowed w program w' :=
    ⟨createDiff config options, ⟨options, permitted, rfl⟩, tidied⟩
  obtain ⟨holder, running, runs, turn⟩ := Attended.serial waits outsideKeeps
    (fun w program launched => ⟨launched, Untouched.refl w⟩) tidies (fun _ => rfl) reached
  exact ⟨running, runs, fun i program here => turn.cases here⟩

end CreateDiff

/-- The first of two processes has made its pid file, the second is refused. -/
theorem createDiff_serial_two : ∃ running,
    DiffRuns {} NoLogFileOption ({}, none) (({} : World).put (pidPath diffPidName) (.text []), running) := by
  let w : World := ({} : World).put (pidPath diffPidName) (.text [])
  obtain ⟨body, own, _⟩ := createDiff_body {} {}
  obtain ⟨next, first⟩ := @pidFile_first {} diffPidName Unit (by decide) body
  have launched : ∃ options, NoLogFileOption options ∧ createDiff {} {} = createDiff {} options :=
    ⟨{}, (rfl : ({} : CreateDiffOptions).logFileNames = []), rfl⟩
  have starts : createDiff {} {} = .perform (Op.openExcl (pidPath diffPidName)) next := own.trans first
  have made : Step {} (.openExcl (pidPath diffPidName)) (.ok ()) w := ⟨rfl, rfl⟩
  have refused : Step w (.openExcl (pidPath diffPidName)) (.error .exist) w :=
    ⟨trivial, rfl, fun path same _ => Op.openExcl.inj same ▸ by decide⟩
  have reached : Relation.ReflTransGen (DiffProcesses {} NoLogFileOption) (({} : World), fun _ : Nat => none) _ :=
    .head (.process (.start 0 rfl launched))
      (.head (.process (.start 1 rfl launched))
      (.head (.process (.perform 0 ((Function.update_of_ne (by decide) ..).trans
        ((Function.update_self ..).trans (congrArg some starts))) made))
      (.single (.process (.perform 1 ((Function.update_of_ne (by decide) ..).trans
        ((Function.update_self ..).trans (congrArg some starts))) refused)))))
  obtain ⟨now, runs, _⟩ := createDiff_serial {} {} (by decide)
    (rfl : ({} : CreateDiffOptions).logFileNames = []) reached
  exact ⟨now, runs⟩

section LogTools

variable {runDir : Text}

/-- A run of a log program starts, perhaps after left-over pid files were removed. -/
def LogLaunch (runDir : Text) (w : World) (program : Prog Unit) (w' : World) :
    Prop := LogTool runDir program ∧ Tidied w w'

theorem LogTool.waits (given : runDir ≠ []) {program : Prog Unit} (tool : LogTool runDir program) :
    program.Waits Step (fun w => (w.get logPidFile).isSome) := by
  have keeps {α : Type} {body : Prog α} (uses : body.Uses LogOp (fun _ => True)) :
      body.Uses (Op.Keeps (pidPath logPidName)) (fun _ => True) :=
    uses.weaken (fun _ used => used.keeps rfl) (fun _ here => here)
  obtain ⟨config, rfl, ⟨body, rfl, uses⟩ | ⟨body, rfl, uses⟩⟩ := tool.body
  · exact pidFile_waits given (keeps uses)
  · exact (pidFile_waits given (keeps uses)).map (fun _ => ())

/-- What any number of get-log, fake-log and catchup processes come to, one run after the
other comes to. -/
theorem logTools_serial (given : runDir ≠ []) {ι : Type} [DecidableEq ι] {start : World}
    {current : World × (ι → Option (Prog Unit))}
    (reached : Relation.ReflTransGen (Attended Step Elsewhere Tidied (LogTool runDir))
      (start, fun _ => none) current) :
    ∃ running, Relation.ReflTransGen (Sequential Step Elsewhere (LogLaunch runDir)) (start, none)
      (current.1, running) ∧
      ∀ i program, current.2 i = some program → running = some program ∨ program.Over ∨ LogTool runDir program := by
  have elsewhere (w w' : World) (same : Elsewhere w w') (taken : (w.get logPidFile).isSome) :
      (w'.get logPidFile).isSome := by
    rwa [same]
  have tidies (w w' : World) (tidied : Tidied w w') : ∃ program, LogLaunch runDir w program w' :=
    ⟨catchup { runDir } 0, ⟨_, rfl, .inr (.inr ⟨0, rfl⟩)⟩, tidied⟩
  obtain ⟨holder, running, runs, turn⟩ := Attended.serial (fun _ tool => tool.waits given) elsewhere
    (fun w program tool => ⟨tool, Untouched.refl w⟩) tidies (fun _ => rfl) reached
  exact ⟨running, runs, fun i program here => turn.cases here⟩

/-- A run of catchup is refused while a run of get-log has the pid file. -/
theorem logTools_serial_refused :
    ∃ running, Relation.ReflTransGen (Sequential Step Elsewhere (LogLaunch "/tmp/".toList)) ({}, none)
    (({} : World).put logPidFile (.text []), running) := by
  let w : World := ({} : World).put logPidFile (.text [])
  obtain ⟨first, logs⟩ : ∃ next, getLog {} {} = .perform (Op.openExcl logPidFile) next := pidFile_first (by decide) _
  obtain ⟨other, catches⟩ : ∃ next, catchup {} 0 = .perform (Op.openExcl logPidFile) next :=
    pidFile_first (by decide) _
  have made : Step {} (.openExcl logPidFile) (.ok ()) w := ⟨rfl, rfl⟩
  have refused : Step w (.openExcl logPidFile) (.error .exist) w :=
    ⟨trivial, rfl, fun path same _ => Op.openExcl.inj same ▸ by decide⟩
  have reached : Relation.ReflTransGen (Attended Step Elsewhere Tidied (LogTool "/tmp/".toList))
      (({} : World), fun _ : Nat => none) _ :=
    .head (.process (.start 0 rfl ⟨{}, rfl, .inl ⟨{}, rfl⟩⟩))
      (.head (.process (.perform 0 ((Function.update_self ..).trans (congrArg some logs)) made))
      (.head (.process (.start 1 rfl ⟨{}, rfl, .inr (.inr ⟨0, rfl⟩)⟩))
      (.single (.process (.perform 1 ((Function.update_self ..).trans (congrArg some catches)) refused)))))
  obtain ⟨running, runs, _⟩ := logTools_serial (by decide) reached
  exact ⟨running, runs⟩

end LogTools

end Osmdbt
