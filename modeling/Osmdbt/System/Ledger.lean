import Osmdbt.Log.Batches
import Osmdbt.Diff.PublishOnce

/-! At most once: the inserts of a transaction stand in one log file, and every log
file goes into one diff, as long as only what was caught up is published. -/

namespace Osmdbt

open General

/-- The transactions whose inserts stand in the log file of a name. -/
abbrev Ledger := Text → List Commit

/-- The log file has the inserts of the transactions in the ledger. -/
structure Ledger.Entered (ledger : Ledger) (log : Text × Text) : Prop where
  used : ledger log.1 ≠ []
  entries : logEntries log.2 = .ok (Commit.objects (ledger log.1))

/-- Everything in the ledger has been caught up. -/
def Ledger.Caught (ledger : Ledger) (w : World) : Prop := ∀ name, ∀ commit ∈ ledger name, commit.lsn ≤ w.slot

/-- A published diff, made from complete log files. `agrees` relates these to the inserts
the last peek had returned. -/
structure Ledger.Published (agrees : List (Text × Text) → List Osmobj → Prop) (ledger : Ledger)
    (sources : List (Text × Text)) (objects : Option DiffObjects) (returned : List Osmobj) : Prop where
  written : ∃ written, objects = some written ∧ WrittenFrom sources written
  distinct : (sources.map Prod.fst).Nodup
  entered : ∀ source ∈ sources, ledger.Entered source
  agrees : agrees sources returned

/-- The log files are what the ledger has. -/
structure Ledger.Files (ledger : Ledger) (w : World) : Prop where
  streams : w.Streams
  committed : ∀ name, (ledger name).Sublist w.wal
  apart : ∀ name other, name ≠ other → (ledger name).Disjoint (ledger other)
  named : ∀ name, ledger name ≠ [] → isLog name = true ∧
    ∃ last ∈ ledger name, lsnOfName name = .ok last.lsn ∧ ∀ commit ∈ ledger name, commit.lsn ≤ last.lsn
  file : ∀ name content, isLog name = true → w.get ⟨.log, name⟩ = some content →
    ∃ data, content = .text data ∧ ledger.Entered (name, data)
  done : ∀ name, isLog name = true → (w.get (doneFile name)).isSome → ledger name ≠ []
  caught : ∀ name, w.get ⟨.log, name⟩ = none → ∀ commit ∈ ledger name, commit.lsn ≤ w.slot

/-- What a running create-diff publishes has been caught up. -/
structure Ledger.Plans (agrees : List (Text × Text) → List Osmobj → Prop) (ledger : Ledger) (plan : Plan)
    (w : World) : Prop where
  publishes : ledger.Published agrees plan.sources (some plan.objects) w.returned
  waiting : ∀ name ∈ plan.waiting, ∀ commit ∈ ledger name, commit.lsn ≤ w.slot

/-- So are the published diffs. -/
def Ledger.Diffs (agrees : List (Text × Text) → List Osmobj → Prop) (ledger : Ledger) (renames : List Rename) : Prop :=
  ∀ moved ∈ renames, moved.newName.dir = .changes → ∀ sources objects, moved.content = .osc sources objects →
    ledger.Published agrees sources objects moved.returned

namespace Ledger

variable {agrees : List (Text × Text) → List Osmobj → Prop} {ledger : Ledger} {w w' : World}

theorem Entered.of_other {name : Text} {sent : List Commit} {log : Text × Text} (entered : ledger.Entered log)
    (free : ledger name = []) : Ledger.Entered (Function.update ledger name sent) log := by
  have other : log.1 ≠ name := fun same => entered.used (same ▸ free)
  refine ⟨?_, ?_⟩
  · rw [Function.update_of_ne other]
    exact entered.used
  · rw [Function.update_of_ne other]
    exact entered.entries

theorem Diffs.append {renames : List Rename} (diffs : ledger.Diffs agrees renames) {moved : Rename}
    (publishes : moved.newName.dir = .changes → ∀ sources objects, moved.content = .osc sources objects →
      ledger.Published agrees sources objects moved.returned) : ledger.Diffs agrees (renames ++ [moved]) := by
  intro other member
  rcases List.mem_append.mp member with old | new
  · exact diffs other old
  · exact List.mem_singleton.mp new ▸ publishes

theorem Diffs.of_other {renames : List Rename} {name : Text} {sent : List Commit} (diffs : ledger.Diffs agrees renames)
    (free : ledger name = []) : Ledger.Diffs agrees (Function.update ledger name sent) renames := by
  intro moved member changes sources objects same
  have published := diffs moved member changes sources objects same
  exact { published with entered := fun source inside => (published.entered source inside).of_other free }

namespace Files

variable (files : ledger.Files w)
include files

/-- Nothing that matters has changed but perhaps the slot, forwards. -/
theorem kept (wal : w'.wal = w.wal) (slot : w.slot ≤ w'.slot)
    (logs : ∀ name, isLog name = true → w'.get ⟨.log, name⟩ = w.get ⟨.log, name⟩ ∧
      w'.get (doneFile name) = w.get (doneFile name)) :
    ledger.Files w' where
  streams := ⟨wal ▸ files.streams.order, wal ▸ files.streams.small⟩
  committed name := wal ▸ files.committed name
  apart := files.apart
  named := files.named
  file name content log stored := files.file name content log ((logs name log).1 ▸ stored)
  done name log there := files.done name log ((logs name log).2 ▸ there)
  caught name free commit member := by
    have log := (files.named name (List.ne_nil_of_mem member)).1
    exact (files.caught name ((logs name log).1 ▸ free) commit member).trans slot

theorem untouched {touched : Path → Prop} (same : Untouched touched w w')
    (outside : ∀ path, touched path → path.dir = .log → ∃ name, path = newLog name) : ledger.Files w' := by
  refine files.kept same.wal same.slot.ge
    (fun name log => ⟨same.get _ (fun inside => ?_), same.get _ (fun inside => ?_)⟩)
  · obtain ⟨other, new⟩ := outside _ inside rfl
    exact newLog_ne log other new
  · obtain ⟨other, new⟩ := outside _ inside rfl
    exact newLog_ne_doneFile other name new.symm

theorem commit {commit : Commit} (tables : Tables) (above : ∀ other ∈ w.wal, other.lsn < commit.lsn)
    (small : commit.lsn < 2 ^ 64) : ledger.Files { w with wal := w.wal ++ [commit], tables } where
  streams := by
    refine ⟨List.pairwise_append.mpr ⟨files.streams.order, List.pairwise_singleton _ _,
      fun other member last same => ?_⟩,
      fun other member => ?_⟩
    · obtain rfl := List.mem_singleton.mp same
      exact above other member
    · rcases List.mem_append.mp member with old | new
      · exact files.streams.small other old
      · exact List.mem_singleton.mp new ▸ small
  committed name := (files.committed name).trans (List.sublist_append_left _ _)
  apart := files.apart
  named := files.named
  file := files.file
  done := files.done
  caught := files.caught

/-- A rename that touches no log file. -/
theorem move {oldName newName : Path} {content : Content} (notOld : oldName.dir ≠ .log) (notNew : newName.dir ≠ .log) :
    ledger.Files (w.rename oldName newName content) := by
  have get (path : Path) (log : path.dir = .log) : (w.rename oldName newName content).get path = w.get path :=
    World.get_rename_ne _ _ _ (by rintro rfl; exact notOld log) (by rintro rfl; exact notNew log)
  exact files.kept rfl le_rfl (fun name _ => ⟨get _ rfl, get _ rfl⟩)

/-- A published log file gets its last name. -/
theorem retire {name : Text} {content : Content} (stored : w.get ⟨.log, name⟩ = some content) (log : isLog name = true)
    (caught : ∀ commit ∈ ledger name, commit.lsn ≤ w.slot) :
    ledger.Files (w.rename ⟨.log, name⟩ (doneFile name) content) := by
  have other {path : Path} (notOld : path ≠ ⟨.log, name⟩) (notNew : path ≠ doneFile name) :
      (w.rename ⟨.log, name⟩ (doneFile name) content).get path = w.get path := World.get_rename_ne _ _ _ notOld notNew
  have used : ledger name ≠ [] := by
    obtain ⟨data, _, entered⟩ := files.file name content log stored
    exact entered.used
  refine ⟨⟨files.streams.order, files.streams.small⟩, files.committed, files.apart, files.named,
    fun own content' log' found => ?_, fun own log' there => ?_, fun own free commit member => ?_⟩
  · have different : own ≠ name := by
      rintro rfl
      rw [World.get_rename_old _ _ _ (doneFile_ne log' own)] at found
      cases found
    rw [other (fun same => different (congrArg Path.name same)) (doneFile_ne log' name)] at found
    exact files.file own content' log' found
  · by_cases same : own = name
    · exact same ▸ used
    · rw [other (doneFile_ne log own).symm (fun equal => same (doneFile_inj equal))] at there
      exact files.done own log' there
  · by_cases same : own = name
    · exact caught commit (same ▸ member)
    · have log' := (files.named own (List.ne_nil_of_mem member)).1
      rw [other (fun equal => same (congrArg Path.name equal)) (doneFile_ne log' name)] at free
      exact files.caught own free commit member

/-- A new log file: its name was never used, because everything before it has been caught up. -/
theorem unused (caught : ledger.Caught w) {last : Commit} (later : w.slot < last.lsn) (small : last.lsn < 2 ^ 64)
    (time : Timestamp) :
    ledger (replicationLogName (lsnStr last.lsn) time) = [] := by
  by_contra used
  obtain ⟨_, own, member, named, _⟩ := files.named _ used
  rw [lsnOfName_replicationLogName small time] at named
  have below := caught _ own member
  have same := Except.ok.inj named
  omega

/-- The commits of a new log file are entered under its name. -/
theorem enter (caught : ledger.Caught w) {sent : List Commit} {last : Commit} {data name : Text}
    (ending : sent.getLast? = some last)
    (pending : sent.Sublist w.pending) (entries : logEntries data = .ok (Commit.objects sent))
    (log : isLog name = true)
    (lsn : lsnOfName name = .ok last.lsn) (free : ledger name = []) :
    Ledger.Files (Function.update ledger name sent) (w.rename (newLog name) ⟨.log, name⟩ (.text data)) := by
  have sorted : sent.Pairwise (fun a b => a.lsn < b.lsn) := (files.streams.order.filter _).sublist pending
  have fresh : ∀ other, sent.Disjoint (ledger other) := by
    intro other commit new old
    have behind : w.slot < commit.lsn := by simpa using (List.mem_filter.mp (pending.subset new)).2
    exact absurd (caught other commit old) (not_le.mpr behind)
  have some : sent ≠ [] := List.ne_nil_of_mem (List.mem_of_getLast? ending)
  have get {path : Path} (notOld : path ≠ newLog name) (notNew : path ≠ ⟨.log, name⟩) :
      (w.rename (newLog name) ⟨.log, name⟩ (.text data)).get path = w.get path :=
        World.get_rename_ne _ _ _ notOld notNew
  exact {
    streams := ⟨files.streams.order, files.streams.small⟩
    committed := (Function.forall_update_iff ledger (p := fun _ commits => commits.Sublist w.wal)).mpr
      ⟨pending.trans List.filter_sublist, fun own _ => files.committed own⟩
    apart := fun own other different => by
      by_cases same : own = name
      · subst same
        rw [Function.update_self, Function.update_of_ne different.symm]
        exact fresh other
      · rw [Function.update_of_ne same]
        by_cases same' : other = name
        · rw [same', Function.update_self]
          exact (fresh own).symm
        · rw [Function.update_of_ne same']
          exact files.apart own other different
    named := (Function.forall_update_iff ledger (p := fun own commits => commits ≠ [] → isLog own = true ∧
        ∃ last ∈ commits, lsnOfName own = .ok last.lsn ∧ ∀ commit ∈ commits, commit.lsn ≤ last.lsn)).mpr
      ⟨fun _ => ⟨log, last, List.mem_of_getLast? ending, lsn, lsn_le_last sorted ending⟩, fun own _ => files.named own⟩
    file := fun own content log' found => by
      by_cases same : own = name
      · subst same
        rw [World.get_rename_new] at found
        refine ⟨data, (Option.some.inj found).symm, ?_, ?_⟩
        · rwa [Function.update_self]
        · rw [Function.update_self]
          exact entries
      · rw [get (newLog_ne log' name) (fun equal => same (congrArg Path.name equal))] at found
        obtain ⟨stored, text, entered⟩ := files.file own content log' found
        exact ⟨stored, text, entered.of_other free⟩
    done := fun own log' there => by
      by_cases same : own = name
      · rwa [same, Function.update_self]
      · rw [get (newLog_ne_doneFile name own).symm (doneFile_ne log own).symm] at there
        rw [Function.update_of_ne same]
        exact files.done own log' there
    caught := (Function.forall_update_iff ledger (p := fun own commits => (w.rename (newLog name) ⟨.log, name⟩
        (.text data)).get ⟨.log, own⟩ = none → ∀ commit ∈ commits, commit.lsn ≤ w.slot)).mpr
      ⟨fun none => absurd ((World.get_rename_new ..).symm.trans none) (Option.some_ne_none _),
        fun own _ _ => caught own⟩ }

theorem arrive (caught : ledger.Caught w) {sent : List Commit} {last : Commit} {data : Text}
    (ending : sent.getLast? = some last)
    (pending : sent.Sublist w.pending) (entries : logEntries data = .ok (Commit.objects sent)) (time : Timestamp) :
    Ledger.Files (Function.update ledger (replicationLogName (lsnStr last.lsn) time) sent)
      (w.rename (newLog (replicationLogName (lsnStr last.lsn) time))
        ⟨.log, replicationLogName (lsnStr last.lsn) time⟩ (.text data)) := by
  obtain ⟨committed, later⟩ := List.mem_filter.mp (pending.subset (List.mem_of_getLast? ending))
  have small := files.streams.small last committed
  have free := files.unused caught (by simpa using later) small time
  exact files.enter caught ending pending entries (isLog_replicationLogName _ _)
    (lsnOfName_replicationLogName small time) free

end Files

end Ledger

/-- No log file is part of two published diffs. -/
def AtMostOnce (w : World) : Prop := ∀ name, isLog name = true → w.timesPublished name ≤ 1

theorem Plan.published_waiting (plan : Plan) {name : Text} (inside : name ∈ plan.published) : name ∈ plan.waiting := by
  unfold Plan.published at inside
  unfold Plan.waiting
  cases stage : plan.stage with
  | locked =>
    rw [stage] at inside
    cases inside
  | _ =>
    rw [stage] at inside
    exact inside

theorem LogFiles.atMostOnce {plan : Plan} {w : World}
    (files : LogFiles (fun _ => False) plan.published plan.waiting w) : AtMostOnce w := by
  intro name log
  have account := files.account name log
  have count := account.count
  by_cases done : w.hasDone name
  · have notThere : ¬ w.hasLog name := fun there => account.single ⟨there, done⟩
    have notWaiting : name ∉ plan.published := fun inside =>
      notThere (files.there name (plan.published_waiting inside)).2
    rw [if_pos done, if_neg notWaiting] at count
    omega
  · rw [if_neg done] at count
    split at count <;> omega

theorem once_kept (config : Config) : Keeps config NoLogFileOption (LogFiles (fun _ => False) [] []) AtMostOnce
    (fun plan => LogFiles (fun _ => False) plan.published plan.waiting) where
  aside aside := by
    obtain ⟨clean, _, under⟩ := (logFiles_kept config (fun _ => False)).aside aside
    exact ⟨clean, fun once name log => timesPublished_aside aside name ▸ once name log, under⟩
  lock := (logFiles_kept config _).lock
  moveChange := (logFiles_kept config _).moveChange
  moveState := (logFiles_kept config _).moveState
  moveCopy := (logFiles_kept config _).moveCopy
  moveLog := (logFiles_kept config _).moveLog
  unlock := (logFiles_kept config _).unlock
  stop files := files.atMostOnce

theorem LogFiles.same {w w' : World} (files : LogFiles (fun _ => False) [] [] w)
    (times : ∀ name, w'.timesPublished name = w.timesPublished name)
    (logs : ∀ name, isLog name = true → (w'.hasLog name ∧ w'.hasDone name → w.hasLog name ∧ w.hasDone name) ∧
      w'.hasDone name = w.hasDone name) : LogFiles (fun _ => False) [] [] w' := by
  refine ⟨fun name log => ⟨?_, fun both => ?_, fun none => none.elim⟩, List.nodup_nil, fun _ none =>
    absurd none List.not_mem_nil⟩
  · rw [times, (logs name log).2]
    exact (files.account name log).count
  · exact (files.account name log).single ((logs name log).1 both)

/-- Ledger, published diffs and log files agree, also while create-diff publishes. -/
structure Balanced (agrees : List (Text × Text) → List Osmobj → Prop) (ledger : Ledger) (plan : Option Plan)
    (w : World) : Prop where
  files : ledger.Files w
  diffs : ledger.Diffs agrees w.renames
  plans : ∀ current, plan = some current → ledger.Plans agrees current w
  once : Running (LogFiles (fun _ => False) [] []) AtMostOnce (fun plan => LogFiles (fun _ => False)
    plan.published plan.waiting)
    (w, (plan, ()))

namespace Balanced

variable {agrees : List (Text × Text) → List Osmobj → Prop} {ledger : Ledger} {w w' : World}

/-- Between two runs of create-diff. -/
theorem idle {plan : Option Plan} (balanced : Balanced agrees ledger plan w)
    (ended : plan = none ∨ (w.get lockFile).isSome) :
    Balanced agrees ledger none w := by
  refine ⟨balanced.files, balanced.diffs, (fun _ wrong => nomatch wrong), ?_⟩
  cases plan with
  | none => exact balanced.once
  | some plan => exact .inr ⟨ended.resolve_left (fun wrong => nomatch wrong), balanced.once.2.atMostOnce⟩

section Idle

variable (balanced : Balanced agrees ledger none w)
include balanced

theorem settled (lock : w'.get lockFile = w.get lockFile) (times : ∀ name,
    w'.timesPublished name = w.timesPublished name)
    (logs : ∀ name, isLog name = true → (w'.hasLog name ∧ w'.hasDone name → w.hasLog name ∧ w.hasDone name) ∧
      w'.hasDone name = w.hasDone name) :
    Settled (LogFiles (fun _ => False) [] []) AtMostOnce w' := by
  rcases balanced.once with ⟨free, files⟩ | ⟨held, once⟩
  · exact .inl ⟨lock.trans free, files.same times logs⟩
  · exact .inr ⟨lock ▸ held, fun name log => times name ▸ once name log⟩

theorem kept (wal : w'.wal = w.wal) (slot : w.slot ≤ w'.slot) (renames : w'.renames = w.renames)
    (lock : w'.get lockFile = w.get lockFile)
    (logs : ∀ name, isLog name = true → w'.get ⟨.log, name⟩ = w.get ⟨.log, name⟩ ∧
      w'.get (doneFile name) = w.get (doneFile name)) :
    Balanced agrees ledger none w' := by
  refine ⟨balanced.files.kept wal slot logs, renames ▸ balanced.diffs, (fun _ wrong => nomatch wrong),
    balanced.settled lock (fun name => by rw [World.timesPublished, renames, World.timesPublished])
      (fun name log => ?_)⟩
  rw [World.hasLog, World.hasLog, World.hasDone, World.hasDone, (logs name log).1, (logs name log).2]
  exact ⟨id, rfl⟩

theorem untouched {touched : Path → Prop} (same : Untouched touched w w')
    (outside : ∀ path, touched path → path.dir = .run ∨ ∃ name, path = newLog name) :
    Balanced agrees ledger none w' := by
  have apart {path : Path} (notRun : path.dir ≠ .run) (notNew : ∀ name, path ≠ newLog name) :
      w'.get path = w.get path :=
    same.get path (fun inside => (outside path inside).elim notRun (fun ⟨name, new⟩ => notNew name new))
  exact balanced.kept same.wal same.slot.ge same.renames (apart (by decide) (fun name => by rintro ⟨⟩))
      (fun name log =>
    ⟨apart (by rintro ⟨⟩) (newLog_ne log), apart (by rintro ⟨⟩) (fun other => (newLog_ne_doneFile other name).symm)⟩)

/-- A new log file. -/
theorem arrive (caught : ledger.Caught w) {sent : List Commit} {last : Commit} {data : Text}
    (ending : sent.getLast? = some last)
    (pending : sent.Sublist w.pending) (entries : logEntries data = .ok (Commit.objects sent)) (time : Timestamp) :
    Balanced agrees (Function.update ledger (replicationLogName (lsnStr last.lsn) time) sent) none
      (w.rename (newLog (replicationLogName (lsnStr last.lsn) time))
        ⟨.log, replicationLogName (lsnStr last.lsn) time⟩ (.text data)) := by
  have log : isLog (replicationLogName (lsnStr last.lsn) time) = true := isLog_replicationLogName _ _
  have member := pending.subset (List.mem_of_getLast? ending)
  have later : w.slot < last.lsn := by simpa using (List.mem_filter.mp member).2
  have free := balanced.files.unused caught later (balanced.files.streams.small last (List.mem_filter.mp member).1)
    time
  refine ⟨balanced.files.arrive caught ending pending entries time, (balanced.diffs.of_other free).append
    (fun wrong => by cases wrong),
    (fun _ wrong => nomatch wrong), ?_⟩
  generalize replicationLogName (lsnStr last.lsn) time = name at *
  have get {path : Path} (notOld : path ≠ newLog name) (notNew : path ≠ ⟨.log, name⟩) :
      (w.rename (newLog name) ⟨.log, name⟩ (.text data)).get path = w.get path :=
        World.get_rename_ne _ _ _ notOld notNew
  have hasDone (other : Text) : (w.rename (newLog name) ⟨.log, name⟩ (.text data)).hasDone other = w.hasDone other :=
    congrArg Option.isSome (get (newLog_ne_doneFile name other).symm (doneFile_ne log other).symm)
  refine balanced.settled (get (by rintro ⟨⟩) (by rintro ⟨⟩)) (fun other => ?_)
    (fun other log' => ⟨fun both => ?_, hasDone other⟩)
  · rw [timesPublished_rename]
    simp
  · rw [hasDone] at both
    by_cases same : other = name
    · subst same
      exact absurd free (balanced.files.done other log both.2)
    · have hasLog : (w.rename (newLog name) ⟨.log, name⟩ (.text data)).hasLog other = w.hasLog other :=
        congrArg Option.isSome (get (newLog_ne log' name) (fun equal => same (congrArg Path.name equal)))
      rwa [hasLog] at both

end Idle

end Balanced

/-- The objects of a published diff. -/
def Rename.diff (moved : Rename) : Option DiffObjects :=
  match moved.newName.dir, moved.content with
  | .changes, .osc _ objects => objects
  | _, _ => none

theorem Rename.isChange {moved : Rename} (isDiff : moved.diff.isSome) :
    moved.newName.dir = .changes ∧ ∃ sources objects, moved.content = .osc sources objects := by
  unfold Rename.diff at isDiff
  split at isDiff
  · rename_i changes content
    exact ⟨changes, _, _, content⟩
  · cases isDiff

/-- The published diffs, in order. -/
def World.diffs (w : World) : List DiffObjects := w.renames.filterMap Rename.diff

/-- How often an object version is written in published diffs. -/
def World.timesWritten (w : World) (type : ItemType) (k : Key) : Nat :=
  (w.diffs.map (fun objects => (objects.keys type).count k)).sum

/-- The log files of a published diff. -/
def Rename.logs (moved : Rename) : List Text := if moved.newName.dir = .changes then moved.content.logNames else []

theorem objects_append (commits more : List Commit) : Commit.objects (commits ++ more) =
    Commit.objects commits ++ Commit.objects more :=
  List.flatMap_append

section Count

variable {agrees : List (Text × Text) → List Osmobj → Prop} {ledger : Ledger}

theorem readEntries_entered {sources : List (Text × Text)} (entered : ∀ source ∈ sources, ledger.Entered source) :
    readEntries (sources.map Prod.snd) = .ok (Commit.objects ((sources.map Prod.fst).flatMap ledger)) := by
  induction sources with
  | nil => rfl
  | cons source rest ih =>
    rw [List.map_cons, readEntries_cons, (entered source List.mem_cons_self).entries,
      ih (fun other member => entered other (List.mem_cons_of_mem _ member)), List.map_cons,
        List.flatMap_cons, objects_append]
    rfl

/-- A published diff has no more than the inserts of its transactions. -/
theorem Ledger.Diffs.written {renames : List Rename} (diffs : ledger.Diffs agrees renames)
    (type : ItemType) (k : Key) :
    ((renames.filterMap Rename.diff).map (fun objects => (objects.keys type).count k)).sum ≤
      occurrences type k (Commit.objects ((renames.flatMap Rename.logs).flatMap ledger)) := by
  induction renames with
  | nil => exact Nat.zero_le _
  | cons moved rest ih =>
    have tail := ih (fun other member => diffs other (List.mem_cons_of_mem _ member))
    have here := diffs moved List.mem_cons_self
    rw [List.flatMap_cons, List.flatMap_append, objects_append, occurrences, List.countP_append]
    by_cases changes : moved.newName.dir = .changes
    · cases content : moved.content with
      | text data =>
        have none : moved.diff = none := by simp [Rename.diff, content]
        rw [List.filterMap_cons_none none]
        exact tail.trans (Nat.le_add_left _ _)
      | osc sources objects =>
        obtain ⟨⟨written, rfl, entries, read, counts⟩, _, entered, _⟩ := here changes sources objects content
        have some : moved.diff = some written := by simp [Rename.diff, content, changes]
        have logs : moved.logs = sources.map Prod.fst := by simp [Rename.logs, changes, content, Content.logNames]
        obtain rfl := Except.ok.inj (read.symm.trans (readEntries_entered entered))
        rw [List.filterMap_cons_some some, List.map_cons, List.sum_cons, logs]
        exact Nat.add_le_add (counts type k) tail
    · have none : moved.diff = none := by
        unfold Rename.diff
        split
        · rename_i same _
          exact absurd same changes
        · rfl
      rw [List.filterMap_cons_none none]
      exact tail.trans (Nat.le_add_left _ _)

theorem Ledger.Diffs.count_logs {renames : List Rename} (diffs : ledger.Diffs agrees renames) (name : Text) :
    (renames.flatMap Rename.logs).count name ≤ renames.countP (Rename.publishes name) := by
  induction renames with
  | nil => exact Nat.zero_le _
  | cons moved rest ih =>
    have tail := ih (fun other member => diffs other (List.mem_cons_of_mem _ member))
    have here := diffs moved List.mem_cons_self
    rw [List.flatMap_cons, List.count_append, List.countP_cons, Nat.add_comm]
    refine Nat.add_le_add tail ?_
    unfold Rename.logs Rename.publishes
    by_cases changes : moved.newName.dir = .changes
    · have distinct : moved.content.logNames.Nodup := by
        cases content : moved.content with
        | text data => exact List.nodup_nil
        | osc sources objects => exact (here changes sources objects content).distinct
      by_cases inside : name ∈ moved.content.logNames
      · simp [changes, inside, List.count_eq_one_of_mem distinct inside]
      · simp [changes, inside, List.count_eq_zero_of_not_mem inside]
    · simp [changes]

theorem Ledger.Diffs.log_used {renames : List Rename} (diffs : ledger.Diffs agrees renames) {name : Text}
    (member : name ∈ renames.flatMap Rename.logs) : ledger name ≠ [] := by
  obtain ⟨moved, inside, logs⟩ := List.mem_flatMap.mp member
  unfold Rename.logs at logs
  split at logs
  · rename_i changes
    cases content : moved.content with
    | text data =>
      rw [content] at logs
      cases logs
    | osc sources objects =>
      rw [content] at logs
      obtain ⟨source, among, rfl⟩ := List.mem_map.mp logs
      exact ((diffs moved inside changes sources objects content).entered source among).used
  · cases logs

private theorem occurrences_subperm {commits more : List Commit} (sub : commits.Subperm more)
    (type : ItemType) (k : Key) :
    occurrences type k (Commit.objects commits) ≤ occurrences type k (Commit.objects more) := by
  obtain ⟨front, perm, sublist⟩ := sub
  have same : (Commit.objects front).Perm (Commit.objects commits) := perm.flatMap_right _
  rw [occurrences, ← same.countP_eq]
  exact (sublist.flatMap _).countP_le

theorem Balanced.onceOnly {plan : Option Plan} {w : World} (balanced : Balanced agrees ledger plan w) :
    AtMostOnce w := by
  have current := balanced.once
  cases plan with
  | none =>
    let nothing : Plan := ⟨[], {}, ⟨0, 0⟩, [], .locked⟩
    have resting (files : LogFiles (fun _ => False) nothing.published nothing.waiting w) := LogFiles.atMostOnce files
    exact current.elim (fun clean => resting clean.2) And.right
  | some plan => exact current.2.atMostOnce

/-- The published diffs have no log file in common. -/
theorem Balanced.distinct {plan : Option Plan} {w : World} (balanced : Balanced agrees ledger plan w) :
    (w.renames.flatMap Rename.logs).Nodup := by
  rw [List.nodup_iff_count_le_one]
  intro name
  by_cases member : name ∈ w.renames.flatMap Rename.logs
  · have log := (balanced.files.named name (balanced.diffs.log_used member)).1
    exact (balanced.diffs.count_logs name).trans (balanced.onceOnly name log)
  · rw [List.count_eq_zero_of_not_mem member]
    exact Nat.zero_le _

/-- No object version is published more often than it was inserted. -/
theorem Balanced.atMostOnce {plan : Option Plan} {w : World} (balanced : Balanced agrees ledger plan w)
    (type : ItemType) (k : Key) :
    w.timesWritten type k ≤ occurrences type k (Commit.objects w.wal) := by
  have files := balanced.files
  have wal : w.wal.Nodup := files.streams.order.imp (fun less same => less.ne (congrArg Commit.lsn same))
  have commits : ((w.renames.flatMap Rename.logs).flatMap ledger).Nodup := by
    refine List.nodup_flatMap.mpr ⟨fun name _ => (files.committed name).nodup wal,
      balanced.distinct.imp (fun different => ?_)⟩
    exact files.apart _ _ different
  have inside : (w.renames.flatMap Rename.logs).flatMap ledger ⊆ w.wal := by
    intro commit member
    obtain ⟨name, _, among⟩ := List.mem_flatMap.mp member
    exact (files.committed name).subset among
  exact (balanced.diffs.written type k).trans (occurrences_subperm (List.subperm_of_subset commits inside) type k)

end Count

end Osmdbt
