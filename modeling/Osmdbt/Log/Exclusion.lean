import Osmdbt.General.Protocol
import Osmdbt.Log.FakeLog
import Osmdbt.System.Effects
import Osmdbt.System.LogFiles

/-! The pid file of get-log, fake-log and catchup: whoever created it is the only one
who removes it, and nobody else works while it is there. -/

namespace Osmdbt

open General

/-- What the log programs do while they hold the pid file. -/
inductive LogOp : Op → Prop where
  | look {op : Op} (looks : op.Looks) : LogOp op
  | write {op : Op} {name : Text} (writes : op.Writes (newLog name)) : LogOp op
  | rename (name : Text) : LogOp (.rename (newLog name) ⟨.log, name⟩)
  | peek (limit : Option Nat) : LogOp (.peek limit)
  | advance (lsn : Text) : LogOp (.advance lsn)

instance : Looking LogOp := ⟨fun _ => .look⟩

/-- Free to move the slot and to write log files with `good` names. -/
structure LogWrites (allowed : Op → Prop) (good : Text → Prop) : Prop where
  write : ∀ name, good name → ∀ op, op.Writes (newLog name) → allowed op
  rename : ∀ name, good name → allowed (.rename (newLog name) ⟨.log, name⟩)
  advance : ∀ lsn, allowed (.advance lsn)

theorem LogOp.writes : LogWrites LogOp (fun _ => True) := ⟨fun _ _ _ => .write, fun name _ => .rename name, .advance⟩

section Uses

variable {config : Config} {allowed : Op → Prop} [Looking allowed] {good : Text → Prop}

theorem connect_uses : connect.Uses allowed (fun _ => True) := look_uses (show Op.connect.Looks from trivial)

theorem commitTransaction_uses : commitTransaction.Uses allowed (fun _ => True) :=
  look_uses (show Op.commit.Looks from trivial)

section Writes

variable (may : LogWrites allowed good)
include may

private theorem writeLogFile_uses {name : Text} (named : good name) (data : Text) :
    (writeSynced (newLog name) data).Uses allowed (fun _ => True) :=
  (reliableWrite_uses (fun c => may.write name named _ (.write c)) data).bind (fun _ _ =>
    (look_uses (show (Op.fsync _).Looks from trivial)).bind
      (fun _ _ => look_uses (show (Op.close _).Looks from trivial)))

theorem writeDataToFile_uses {fileName : Text} (named : good fileName) (data : Text) :
    (writeDataToFile config data fileName).Uses allowed (fun _ => True) := by
  unfold writeDataToFile
  refine (Program.Uses.request (may.write fileName named _ .openExcl)).bind (fun reply _ => ?_)
  cases reply with
  | error _ => exact Program.Uses.raise
  | ok _ =>
    exact (writeLogFile_uses may named data).bind (fun _ _ =>
      (perform_uses (may.rename fileName named)).bind (fun _ _ => syncDir_uses config _))

theorem catchupToLsn_uses (lsn : Text) : (catchupToLsn lsn).Uses allowed (fun _ => True) := by
  unfold catchupToLsn
  exact (look_uses (show Op.serverVersion.Looks from trivial)).bind (fun (_ : Nat) _ =>
    Program.Uses.ite (fun _ => perform_uses (may.advance lsn)) (fun _ => Program.Uses.raise))

omit may in
private theorem catchupTarget_uses (lsn : Nat) : (catchupTarget lsn).Uses allowed (fun _ => True) := by
  unfold catchupTarget
  split
  · exact Program.Uses.pure trivial
  · exact (look_uses (show (Op.list .log).Looks from rfl)).bind (fun (files : List Text) _ => lift_uses _)

theorem catchup_uses (lsn : Nat) :
    ∃ body, catchup config lsn = pidFile config logPidName body ∧ body.Uses allowed (fun _ => True) := by
  refine ⟨_, rfl, (catchupTarget_uses lsn).bind (fun target _ => ?_)⟩
  split
  · exact Program.Uses.pure trivial
  · exact connect_uses.bind (fun _ _ => getDbVersion_uses.bind (fun _ _ =>
      (catchupToLsn_uses may _).bind (fun _ _ => commitTransaction_uses)))

end Writes

private theorem writeLog_uses (log : LogState) : (writeLog config log).Uses LogOp (fun _ => True) := by
  unfold writeLog
  split
  · exact (look_uses (show Op.time.Looks from trivial)).bind (fun (now : Timestamp) _ =>
      writeDataToFile_uses LogOp.writes trivial _)
  · exact Program.Uses.pure trivial

private theorem catchUpLog_uses (options : GetLogOptions) (log : LogState) :
    (catchUpLog options log).Uses LogOp (fun _ => True) := by
  unfold catchUpLog
  split
  · exact (lift_uses _).bind (fun lsn _ => (catchupToLsn_uses LogOp.writes lsn).bind
      (fun _ _ => commitTransaction_uses))
  · exact Program.Uses.pure trivial

theorem getLog_uses (options : GetLogOptions) :
    ∃ body, getLog config options = pidFile config logPidName body ∧ body.Uses LogOp (fun _ => True) := by
  refine ⟨_, rfl, connect_uses.bind (fun _ _ => getDbVersion_uses.bind (fun _ _ =>
    (perform_uses (.peek _)).bind (fun (rows : List PeekRow) _ => ?_)))⟩
  split
  · exact commitTransaction_uses
  · exact (lift_uses _).bind (fun log _ => (writeLog_uses log).bind (fun _ _ => catchUpLog_uses options log))

namespace FakeLog

theorem readLogFiles_uses (objectsDone : ObjectsDone) (logNames : List Text) :
    (readLogFiles config objectsDone logNames).Uses allowed (fun _ => True) := by
  induction logNames generalizing objectsDone with
  | nil => exact Program.Uses.pure trivial
  | cons log rest ih =>
    exact (look_uses (show (Op.readFile _).Looks from trivial)).bind (fun (data : Text) _ =>
      (lift_uses _).bind (fun _ _ => ih _))

theorem readObjects_uses (entries : List LogEntry) (timestamp : Timestamp) (type : ItemType) (objectsDone : List Key) :
    (readObjects entries timestamp type objectsDone).Uses allowed (fun _ => True) :=
  Program.Uses.bind (ask_uses _) (fun _ _ => lift_uses _)

private theorem newFileName_uses (made : ∀ minute now, good (createReplicationLogName (toIso minute) now))
    (entry : LogEntry) :
    (newFileName entry).Uses allowed good :=
  (look_uses (show Op.time.Looks from trivial)).bind (fun (now : Timestamp) _ => Program.Uses.pure (made _ now))

section Writes

variable (may : LogWrites allowed good)
include may

private theorem flush_uses (last : Int) {fileName : Text} (named : good fileName) (data : Text) :
    (flush config last fileName data).Uses allowed (fun _ => True) := by
  unfold flush
  split
  · exact writeDataToFile_uses may named data
  · exact Program.Uses.pure trivial

private theorem writeLogs_uses (made : ∀ minute now, good (createReplicationLogName (toIso minute) now))
    (last : Int) {fileName : Text}
    (named : good fileName) (data : Text) (entries : List LogEntry) :
    (writeLogs config last fileName data entries).Uses allowed (fun _ => True) := by
  induction entries generalizing last fileName data with
  | nil => exact writeDataToFile_uses may named data
  | cons entry rest ih =>
    unfold writeLogs
    split
    · exact (flush_uses may last named data).bind (fun _ _ =>
        (newFileName_uses made entry).bind (fun name given => ih _ given _))
    · exact ih _ named _

end Writes

end FakeLog

open FakeLog in
/-- The first file name of the loop is empty. -/
theorem fakeLog_uses (may : LogWrites allowed good) (empty : good [])
    (made : ∀ minute now, good (createReplicationLogName (toIso minute) now)) (options : FakeLogOptions) :
    ∃ body, fakeLog config options = pidFile config logPidName body ∧ body.Uses allowed (fun _ => True) := by
  refine ⟨_, rfl, (FakeLog.readLogFiles_uses _ _).bind
      (fun _ _ => connect_uses.bind (fun _ _ => getDbVersion_uses.bind (fun _ _ =>
    (readObjects_uses _ _ _ _).bind (fun _ _ => (readObjects_uses _ _ _ _).bind (fun _ _ =>
      (readObjects_uses _ _ _ _).bind (fun entries _ => commitTransaction_uses.bind (fun _ _ => ?_)))))))⟩
  split
  · exact Program.Uses.pure trivial
  · exact (writeLogs_uses may made _ empty _ _).bind (fun _ _ => Program.Uses.pure trivial)

end Uses

/-- Operations that neither make nor remove a file. -/
def Op.Keeps (path : Path) : Op → Prop
  | .openExcl other => other ≠ path
  | .unlink other => other ≠ path
  | .openWriter other => other ≠ path
  | .closeWriter other _ _ => other ≠ path
  | .rename oldName newName => oldName ≠ path ∧ newName ≠ path
  | _ => True

/-- Where a process is with the pid file: `unremoved` when its `unlink` failed. -/
inductive PidPhase where
  | before
  | refused
  | constructing
  | inside
  | removed
  | unremoved
  deriving DecidableEq, Repr

namespace PidPhase

/-- The process has created the file and not removed it. -/
def Holds : PidPhase → Prop
  | .constructing | .inside | .unremoved => True
  | _ => False

def Over : PidPhase → Prop
  | .refused | .removed | .unremoved => True
  | _ => False

/-- The constructor is over when the file is closed, the destructor with `unlink`. -/
def next (path : Path) (phase : PidPhase) : (op : Op) → Reply op → PidPhase
  | .openExcl other, reply =>
    if other = path then (match reply with | .ok _ => .constructing | .error _ => .refused) else phase
  | .close other, _ => if other = path ∧ phase = .constructing then .inside else phase
  | .unlink other, reply =>
    if other = path then (match reply with | .ok _ => .removed | .error _ => .unremoved) else phase
  | _, _ => phase

section Next

variable (path : Path) (phase : PidPhase)

@[simp] theorem next_openExcl_ok (value : (Op.openExcl path).Value) :
    next path phase (.openExcl path) (.ok value) = .constructing := if_pos rfl

@[simp] theorem next_openExcl_error (code : Errno) : next path phase (.openExcl path) (.error code) =
    .refused := if_pos rfl

@[simp] theorem next_unlink_ok (value : (Op.unlink path).Value) :
    next path phase (.unlink path) (.ok value) = .removed := if_pos rfl

@[simp] theorem next_unlink_error (code : Errno) : next path phase (.unlink path) (.error code) =
    .unremoved := if_pos rfl

end Next

end PidPhase

/-- Writing the pid, which is taken to succeed. -/
def Op.WritesPid (path : Path) : Op → Prop
  | .getpid => True
  | .write other _ => other = path
  | .close other => other = path
  | _ => False

/-- Only the first operation creates the file, and only who is inside removes it. -/
def pidProtocol (path : Path) : Protocol Op Reply PidPhase where
  allowed phase op := op.Keeps path ∨ op = .openExcl path ∧ phase = .before ∨ op = .unlink path ∧ phase = .inside
  possible op reply := op.WritesPid path → ∃ value, reply = .ok value
  advance := PidPhase.next path

section Phases

variable {path : Path} {phase : PidPhase} {op : Op} {reply : Reply op} {w w' : World}

instance (path : Path) : Looking (Op.Keeps path) where
  looks op looks := by cases op <;> trivial

theorem LogOp.keeps (run : path.dir = .run) (used : LogOp op) : op.Keeps path := by
  have other {name : Text} : (⟨.log, name⟩ : Path) ≠ path := by
    rintro rfl
    cases run
  cases used with
  | look looks => exact Looking.looks op looks
  | write writes => cases writes <;> first | exact other | trivial
  | rename name => exact ⟨other, other⟩
  | peek limit => trivial
  | advance lsn => trivial

theorem Step.keeps (done : Step w op reply w') (keeps : op.Keeps path) : (w'.get path).isSome ↔
    (w.get path).isSome := by
  have written {other : Path} {content : Content} (same : w' = w.put other content)
      (there : other = path → (w.get path).isSome) : (w'.get path).isSome ↔ (w.get path).isSome := by
    subst same
    by_cases own : path = other
    · subst own
      rw [World.get_put_self]
      exact iff_of_true rfl (there rfl)
    · rw [World.get_put_ne _ _ _ own]
  have same (equal : w' = w) : (w'.get path).isSome ↔ (w.get path).isSome := by rw [equal]
  cases reply with
  | error code => exact same done.2.1
  | ok value =>
    cases op with
    | openExcl other => exact written done.2 (fun own => absurd own keeps)
    | openWriter other => exact written done (fun own => absurd own keeps)
    | closeWriter other sources objects => exact written done (fun own => absurd own keeps)
    | write other c =>
      obtain ⟨data, here, equal⟩ := done
      exact written equal (fun own => by rw [← own, here]; rfl)
    | rename oldName newName =>
      obtain ⟨content, _, rfl⟩ := done
      rw [World.get_rename_ne _ _ _ (Ne.symm keeps.1) (Ne.symm keeps.2)]
    | unlink other =>
      obtain ⟨_, rfl⟩ := done
      rw [World.get_drop_ne _ _ (Ne.symm keeps)]
    | peek limit =>
      obtain ⟨sent, _, _, rfl⟩ := done
      exact Iff.rfl
    | advance lsn =>
      obtain ⟨number, _, rfl⟩ := done
      exact Iff.rfl
    | «exists» other => exact same done.2
    | list dir => exact same done.2.2
    | readFile other => exact same done.2
    | query statement => exact same done.2
    | _ => exact same done

private theorem next_of_keeps (keeps : op.Keeps path) (later : phase ≠ .constructing) :
    phase.next path op reply = phase := by
  cases op with
  | openExcl other => exact if_neg keeps
  | unlink other => exact if_neg keeps
  | close other => exact if_neg (fun both => later both.2)
  | _ => rfl

private theorem next_holds (keeps : op.Keeps path) : (phase.next path op reply).Holds ↔ phase.Holds := by
  cases op with
  | openExcl other => rw [show phase.next path (.openExcl other) reply = phase from if_neg keeps]
  | unlink other => rw [show phase.next path (.unlink other) reply = phase from if_neg keeps]
  | close other =>
    by_cases both : other = path ∧ phase = .constructing
    · rw [show phase.next path (.close other) reply = .inside from if_pos both, both.2]
      exact Iff.rfl
    · rw [show phase.next path (.close other) reply = phase from if_neg both]
  | _ => exact Iff.rfl

end Phases

section Follows

variable {config : Config} {name : Text}

/-- Writing the pid and nothing else. -/
theorem perform_follows {path : Path} {op : Op} {what : Text} {phase : PidPhase} {post : op.Value → PidPhase → Prop}
    (keeps : op.Keeps path) (writes : op.WritesPid path)
    (normal : ∀ value, post value (phase.next path op (.ok value))) :
    (pidProtocol path).Follows post PidPhase.Over (perform op what) phase := by
  refine ⟨.inl keeps, fun reply possible => ?_⟩
  obtain ⟨value, rfl⟩ := possible writes
  exact normal value

private theorem reliableWrite_follows (path : Path) (data : Text) :
    (pidProtocol path).Follows (fun _ phase => phase = .constructing) PidPhase.Over (reliableWrite path data)
      .constructing := by
  induction data with
  | nil => exact rfl
  | cons c rest ih =>
    refine Protocol.Follows.bind (perform_follows (show (Op.write path c).Keeps path from trivial) rfl (fun _ => ?_))
    exact ih

private theorem writePid_follows (path : Path) (pidText : Nat → Text) :
    (pidProtocol path).Follows (fun _ phase => phase = .inside) PidPhase.Over
      ((perform Op.getpid [] : Prog Nat) >>= fun pid => reliableWrite path (pidText pid) >>= fun _ =>
        reliableClose path) .constructing := by
  refine Protocol.Follows.bind (perform_follows (show Op.getpid.Keeps path from trivial) trivial (fun pid => ?_))
  refine Protocol.Follows.bind ((reliableWrite_follows path (pidText pid)).weaken (fun _ phase here => ?_))
  obtain rfl : phase = .constructing := here
  exact perform_follows (show (Op.close path).Keeps path from trivial) rfl (fun _ => if_pos ⟨rfl, rfl⟩)

/-- Making the pid file comes first. -/
theorem pidFile_first (some : config.runDir ≠ []) (body : Prog α) :
    ∃ next, pidFile config name body = .perform (Op.openExcl (pidPath name)) next := by
  rw [pidFile_eq some]
  exact ⟨_, rfl⟩

/-- The constructor creates the file, or it raises without having created it. -/
theorem makePidFile_follows : (pidProtocol (pidPath name)).Follows (fun _ phase => phase = .inside) PidPhase.Over
    (makePidFile config name) .before := by
  refine ⟨.inr (.inl ⟨rfl, rfl⟩), fun reply _ => ?_⟩
  cases reply with
  | error code => exact (congrArg PidPhase.Over (if_pos rfl)).mpr trivial
  | ok value =>
    exact (congrArg ((pidProtocol (pidPath name)).Follows _ _ _) (if_pos rfl)).mpr (writePid_follows (pidPath name) _)

/-- The destructor comes after the body, however that ends. -/
theorem pidFile_follows {α : Type} {body : Prog α} (some : config.runDir ≠ [])
    (uses : body.Uses (Op.Keeps (pidPath name)) (fun _ => True)) :
    (pidProtocol (pidPath name)).Follows (fun _ => PidPhase.Over)
        PidPhase.Over (pidFile config name body) .before := by
  have removes : (pidProtocol (pidPath name)).Follows (fun _ => PidPhase.Over)
      PidPhase.Over (unlink (pidPath name)) .inside := by
    refine ⟨.inr (.inr ⟨rfl, rfl⟩), fun reply _ => ?_⟩
    cases reply with
    | error code => exact (congrArg PidPhase.Over (if_pos rfl)).mpr trivial
    | ok value => exact (congrArg PidPhase.Over (if_pos rfl)).mpr trivial
  rw [pidFile_eq some]
  refine Protocol.Follows.bind (makePidFile_follows.weaken (fun _ phase here => ?_))
  obtain rfl : phase = .inside := here
  refine Protocol.Follows.scope (Protocol.Follows.of_uses uses (fun op keeps => ⟨.inl keeps, fun reply _ => ?_⟩)
    (fun _ _ => removes) removes)
  exact next_of_keeps keeps (by decide)

end Follows

/-- A run of a log program with this directory for pid files. -/
def LogTool (runDir : Text) (program : Prog Unit) : Prop :=
  ∃ config : Config, config.runDir = runDir ∧ ((∃ options, program = getLog config options) ∨
    (∃ options, program = fakeLog config options >>= fun _ => pure ()) ∨ ∃ lsn, program = catchup config lsn)

def logPidFile : Path := pidPath logPidName

/-- Anything else may happen, as long as nobody touches the pid file. -/
def Elsewhere (w w' : World) : Prop := w'.get logPidFile = w.get logPidFile

/-- The processes that run the log programs. -/
abbrev LogTools (runDir : Text) {ι : Type} [DecidableEq ι] :
    World × (ι → Option (Process Op Reply Fault Unit PidPhase)) →
      World × (ι → Option (Process Op Reply Fault Unit PidPhase)) → Prop :=
  Interleaved (pidProtocol logPidFile) Step Elsewhere (LogTool runDir) .before

section Tools

variable {runDir : Text} {w : World}

theorem LogTool.body {program : Prog Unit} (tool : LogTool runDir program) :
    ∃ config : Config, config.runDir = runDir ∧
      ((∃ body : Prog Unit, program = pidFile config logPidName body ∧ body.Uses LogOp (fun _ => True)) ∨
      ∃ body : Prog Bool, program = pidFile config logPidName body >>= (fun _ => pure ()) ∧
        body.Uses LogOp (fun _ => True)) := by
  obtain ⟨config, dir, ⟨options, rfl⟩ | ⟨options, rfl⟩ | ⟨lsn, rfl⟩⟩ := tool
  · obtain ⟨body, same, uses⟩ := @getLog_uses config options
    exact ⟨config, dir, .inl ⟨body, same, uses⟩⟩
  · obtain ⟨body, same, uses⟩ := @fakeLog_uses config LogOp _ _ LogOp.writes trivial (fun _ _ => trivial) options
    exact ⟨config, dir, .inr ⟨body, by rw [same], uses⟩⟩
  · obtain ⟨body, same, uses⟩ := @catchup_uses config LogOp _ _ LogOp.writes lsn
    exact ⟨config, dir, .inl ⟨body, same, uses⟩⟩

theorem LogTool.follows (some : runDir ≠ []) {program : Prog Unit} (tool : LogTool runDir program) :
    (pidProtocol logPidFile).Follows (fun _ => PidPhase.Over) PidPhase.Over program .before := by
  have keeps {α : Type} {body : Prog α} (uses : body.Uses LogOp (fun _ => True)) :
      body.Uses (Op.Keeps (pidPath logPidName)) (fun _ => True) :=
    uses.weaken (fun _ used => used.keeps rfl) (fun _ here => here)
  obtain ⟨config, rfl, ⟨body, rfl, uses⟩ | ⟨body, rfl, uses⟩⟩ := tool.body
  · exact pidFile_follows some (keeps uses)
  · exact Protocol.Follows.bind (pidFile_follows some (keeps uses))

variable {ι : Type} [DecidableEq ι] {processes : ι → Option (Process Op Reply Fault Unit PidPhase)}

/-- Who creates the pid file takes the flag, who removes it takes it down. -/
private theorem exclusive_moved {path : Path} {phases : ι → Option PidPhase} {i : ι} {phase : PidPhase}
    {op : Op} {reply : Reply op} {w' : World}
    (exclusive : Exclusive PidPhase.Holds (w.get path).isSome phases) (here : phases i = some phase)
    (allowed : op.Keeps path ∨ op = .openExcl path ∧ phase = .before ∨ op = .unlink path ∧ phase = .inside)
    (done : Step w op reply w') :
    Exclusive PidPhase.Holds (w'.get path).isSome (Function.update phases i (some (phase.next path op reply))) := by
  rcases allowed with keeps | ⟨rfl, rfl⟩ | ⟨rfl, rfl⟩
  · refine exclusive.keep (Step.keeps done keeps) ((next_holds keeps).trans ?_)
    simp [here]
  · cases reply with
    | error code =>
      obtain rfl : w' = w := done.2.1
      rw [PidPhase.next_openExcl_error]
      exact exclusive.keep Iff.rfl (iff_of_false id (by simp [here, PidPhase.Holds]))
    | ok value =>
      obtain ⟨free, rfl⟩ := done
      rw [PidPhase.next_openExcl_ok]
      refine exclusive.take (by simp [free]) ?_ trivial
      rw [World.get_put_self]
      rfl
  · cases reply with
    | error code =>
      obtain rfl : w' = w := done.2.1
      rw [PidPhase.next_unlink_error]
      exact exclusive.keep Iff.rfl (iff_of_true trivial ⟨_, here, trivial⟩)
    | ok value =>
      obtain ⟨_, rfl⟩ := done
      rw [PidPhase.next_unlink_ok]
      exact exclusive.release here trivial (by simp) id

/-- The pid file is a flag for one process at a time. -/
private theorem logTools_invariant (given : runDir ≠ []) {start : World} (free : start.get logPidFile = none)
    (reached : Relation.ReflTransGen (LogTools runDir) (start, fun _ => none) (w, processes)) :
    Exclusive PidPhase.Holds (w.get logPidFile).isSome (phases processes) ∧
      ∀ i program phase, processes i = some ⟨some program, phase⟩ →
        (pidProtocol logPidFile).Follows (fun _ => PidPhase.Over) PidPhase.Over program phase := by
  refine Interleaved.invariant (I := fun w phases => Exclusive PidPhase.Holds (w.get logPidFile).isSome phases) ?_
    (fun program tool => tool.follows given) ?_ ?_ (fun _ => rfl) (.none (by simp [free])) reached
  · intro w w' phases exclusive same
    rwa [same]
  · intro w phases i exclusive fresh
    exact exclusive.keep Iff.rfl (iff_of_false id (by simp [fresh]))
  · intro w phases i phase op reply w' exclusive here allowed done
    exact exclusive_moved exclusive here allowed done

/-- A process that starts without the file gets past its constructor. -/
theorem logTools_again (given : runDir ≠ []) (free : w.get logPidFile = none) {i : ι}
    (fresh : processes i = none) {program : Prog Unit}
    (tool : LogTool runDir program) : ∃ w' process, Relation.ReflTransGen (LogTools runDir) (w, processes)
      (w', Function.update processes i (some process)) ∧ process.phase = .inside := by
  have make (config : Config) (rest : Unit → Prog Unit)
    (tool : LogTool runDir (makePidFile config logPidName >>= rest)) :
      ∃ w' process, Relation.ReflTransGen (LogTools runDir) (w, processes)
        (w', Function.update processes i (some process)) ∧
        process.phase = .inside := by
    obtain ⟨w', made⟩ := @makePidFile_does (fun w op reply w' => (pidProtocol logPidFile).possible op reply ∧
      Step w op reply w')
      (fun w op value w' done => ⟨fun _ => ⟨value, rfl⟩, done⟩) config logPidName w free
    obtain ⟨phase, inside, steps⟩ : ∃ phase, phase = PidPhase.inside ∧ Relation.ReflTransGen (LogTools runDir)
        (w, Function.update processes i (some ⟨some (makePidFile config logPidName >>= rest), .before⟩))
        (w', Function.update processes i (some ⟨some (rest ()), phase⟩)) := makePidFile_follows.runs made i processes
    exact ⟨w', _, .head (.start i fresh tool) steps, inside⟩
  obtain ⟨config, rfl, ⟨body, same, _⟩ | ⟨body, same, _⟩⟩ := tool.body
  · rw [same, pidFile_eq given] at tool
    exact make config _ tool
  · rw [same, pidFile_eq given, bind_assoc] at tool
    exact make config _ tool

/-- What holds of the pid file and the processes of the log programs. -/
structure LogToolsExclude (runDir : Text) (w : World)
    (processes : ι → Option (Process Op Reply Fault Unit PidPhase)) : Prop where
  /-- at most one live process is between its constructor and its destructor -/
  alone : ∀ i j process other, processes i = some process → processes j = some other → process.Live → other.Live →
    process.phase = .inside → other.phase = .inside → i = j
  /-- only the first operation makes the file, only the process that made it removes it -/
  own : ∀ i op next phase, processes i = some ⟨some (.perform op next), phase⟩ →
    op.Keeps logPidFile ∨ op = .openExcl logPidFile ∧ phase = .before ∨ op = .unlink logPidFile ∧ phase = .inside
  held : (w.get logPidFile).isSome ↔ ∃ i process, processes i = some process ∧ process.phase.Holds
  holder : ∀ i process, processes i = some process → process.phase.Holds →
    process.Live ∨ process.Stopped ∨ process.phase = .unremoved
  again : (∀ i process, processes i = some process → process.Ended ∧ process.phase ≠ .unremoved) →
    w.get logPidFile = none ∧ ∀ i program, processes i = none → LogTool runDir program →
      ∃ w' processes' process, Relation.ReflTransGen (LogTools runDir) (w, processes) (w', processes') ∧
        processes' i = some process ∧ process.phase = .inside

/-- One log program at a time works, in any interleaving of any number of processes. -/
theorem logTools_exclude (given : runDir ≠ []) {start : World} (free : start.get logPidFile = none)
    (reached : Relation.ReflTransGen (LogTools runDir) (start, fun _ => none) (w, processes)) :
    LogToolsExclude runDir w processes := by
  obtain ⟨exclusive, follows⟩ := logTools_invariant given free reached
  have phaseOf {i : ι} {process : Process Op Reply Fault Unit PidPhase} (here : processes i = some process) :
      phases processes i = some process.phase := by simp [phases, here]
  have held : (w.get logPidFile).isSome ↔ ∃ i process, processes i = some process ∧ process.phase.Holds := by
    rw [exclusive.held]
    constructor
    · rintro ⟨i, phase, here, holds⟩
      obtain ⟨process, there, rfl⟩ := Option.map_eq_some_iff.mp here
      exact ⟨i, process, there, holds⟩
    · rintro ⟨i, process, here, holds⟩
      exact ⟨i, process.phase, phaseOf here, holds⟩
  have finished {i : ι} {process : Process Op Reply Fault Unit PidPhase} (here : processes i = some process)
    (ended : process.Ended) :
      process.phase.Over := by
    obtain ⟨program, phase⟩ := process
    rcases ended with ⟨value, rfl⟩ | ⟨fault, rfl⟩
    · exact follows i _ phase here
    · exact follows i _ phase here
  have holder {i : ι} {process : Process Op Reply Fault Unit PidPhase} (here : processes i = some process)
    (holds : process.phase.Holds)
    (ended : process.Ended) : process.phase = .unremoved := by
    have done := finished here ended
    revert holds done
    cases process.phase <;> simp [PidPhase.Holds, PidPhase.Over]
  refine ⟨fun i j process other atI atJ _ _ inside inside' => ?_, fun i op next phase here =>
    (follows i _ phase here).1, held,
    fun i process here holds => ?_, fun all => ?_⟩
  · exact exclusive.single i j _ _ (phaseOf atI) (phaseOf atJ) (inside ▸ trivial) (inside' ▸ trivial)
  · by_cases ended : process.Ended
    · exact .inr (.inr (holder here holds ended))
    · by_cases stopped : process.Stopped
      · exact .inr (.inl stopped)
      · exact .inl ⟨ended, stopped⟩
  · have gone : w.get logPidFile = none := by
      rw [← Option.not_isSome_iff_eq_none, held]
      rintro ⟨i, process, here, holds⟩
      exact (all i process here).2 (holder here holds (all i process here).1)
    refine ⟨gone, fun i program fresh tool => ?_⟩
    obtain ⟨w', process, steps, inside⟩ := logTools_again given gone fresh tool
    exact ⟨w', _, process, steps, Function.update_self .., inside⟩

/-- get-log is refused while catchup is behind its constructor. -/
theorem logTools_exclude_catchup : ∃ (w : World) (processes : Nat → Option (Process Op Reply Fault Unit PidPhase))
    (process other : Process Op Reply Fault Unit PidPhase), processes 0 = some process ∧ process.phase = .inside ∧
    processes 1 = some other ∧ other.phase = .refused ∧ LogToolsExclude "/tmp/".toList w processes := by
  have tool : LogTool "/tmp/".toList (catchup {} 0) := ⟨{}, rfl, .inr (.inr ⟨0, rfl⟩)⟩
  obtain ⟨w, process, reached, inside⟩ :=
    @logTools_again "/tmp/".toList {} Nat _ (fun _ => none) (by decide) rfl 0 rfl _ tool
  have taken : (w.get logPidFile).isSome :=
    (logTools_exclude (by decide) rfl reached).held.mpr
      ⟨0, process, Function.update_self .., by simp [inside, PidPhase.Holds]⟩
  obtain ⟨next, logs⟩ : ∃ next, getLog {} {} = .perform (Op.openExcl logPidFile) next := pidFile_first (by decide) _
  have refused : Step w (.openExcl logPidFile) (.error .exist) w :=
    ⟨trivial, rfl, fun path same _ => Op.openExcl.inj same ▸ taken⟩
  have started := reached.tail (.start 1 (by simp) ⟨{}, rfl, .inl ⟨{}, rfl⟩⟩)
  rw [logs] at started
  have both := started.tail (.perform 1 (Function.update_self ..) (fun writes : False => writes.elim) refused)
  have out := PidPhase.next_openExcl_error logPidFile .before .exist
  exact ⟨w, _, process, _, by simp, inside, Function.update_self .., out, logTools_exclude (by decide) rfl both⟩

end Tools

end Osmdbt
