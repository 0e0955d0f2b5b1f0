import Osmdbt.General.Volume
import Osmdbt.Diff.PowerLoss
import Osmdbt.System.Books

/-! The log files on a disk that may lose its power: what is certain of them, and the operations
that leave them alone. -/

namespace Osmdbt

open General

abbrev LogDisk := Volume Path Content

/-- What becomes of the disk when an operation succeeds; `w` are the files afterwards. -/
def Op.stored (disk : LogDisk) (w : World) : Op → LogDisk
  | .openExcl path => disk.create path (.text [])
  | .openWriter path =>
    if (disk.read path).isSome then disk.store path (.osc [] none) else disk.create path (.osc [] none)
  | .write path _ => disk.store path ((w.get path).getD (.text []))
  -- create-diff asks for the change file to be synced
  | .closeWriter path sources objects => (disk.store path (.osc sources (some objects))).fsync path
  | .fsync path => disk.fsync path
  | .rename oldName newName => disk.move oldName newName
  | .unlink path => disk.remove path
  | .fsyncDir dir => disk.syncDir Path.holder dir
  | _ => disk

/-- One operation on the files as they are seen, and on the disk. -/
def DiskStep (c : World × LogDisk) (op : Op) (reply : Reply op) (c' : World × LogDisk) : Prop :=
  Step c.1 op reply c'.1 ∧ match reply with
    | .ok _ => c'.2 = op.stored c.2 c'.1
    | .error _ => c'.2 = c.2

/-- The power is lost, and what was not synced may be gone. The database server loses nothing. -/
structure PowerLost (c c' : World × LogDisk) : Prop where
  files : c.2.Survives c'.1.get
  synced : c'.2 = .initial c'.1.get
  wal : c'.1.wal = c.1.wal
  slot : c'.1.slot = c.1.slot

/-- A complete log file that was not published yet. -/
def LogPath (path : Path) : Prop := path.dir = .log ∧ isLog path.name = true

/-- Nothing has happened to the names of log files since the directory was synced. -/
def LogsSynced (disk : LogDisk) : Prop := ∀ path file, LogPath path → (path, file) ∉ disk.names.pending

/-- A file with the position in its name has the inserts of all transactions up to there,
beginning with a position the slot has passed. -/
def FilledTo (origin : Nat) (w : World) (path : Path) (content : Content) : Prop :=
  ∃ data entries lsn start, content = .text data ∧ logEntries data = .ok entries ∧ lsnOfName path.name = .ok lsn ∧
    lsn < 2 ^ 64 ∧ Reached origin w lsn ∧ start ≤ w.slot ∧
    ∀ commit ∈ w.wal, origin < commit.lsn → start < commit.lsn → commit.lsn ≤ lsn →
      ∀ obj ∈ commit.inserts, obj ∈ entries

/-- The insert is in a log file up to the position, and no power loss takes it away. -/
def OnDisk (disk : LogDisk) (position : Nat) (obj : Osmobj) : Prop :=
  ∃ name data entries lsn, isLog name = true ∧ lsnOfName name = .ok lsn ∧ lsn ≤ position ∧
    disk.Sure ⟨.log, name⟩ (.text data) ∧
    logEntries data = .ok entries ∧ obj ∈ entries

structure Durable (origin : Nat) (c : World × LogDisk) : Prop where
  order : c.1.wal.Pairwise (fun a b => a.lsn < b.lsn)
  small : ∀ commit ∈ c.1.wal, commit.lsn < 2 ^ 64
  reached : Reached origin c.1 c.1.slot
  shown : c.1.get = c.2.read
  files : c.2.Sealed LogPath (FilledTo origin c.1)
  logged : ∀ commit ∈ c.1.wal, origin < commit.lsn → commit.lsn ≤ c.1.slot → ∀ obj ∈ commit.inserts,
    OnDisk c.2 c.1.slot obj

section Steps

variable {origin position : Nat} {w w' : World} {disk disk' : LogDisk} {obj : Osmobj} {sent : List Commit}

theorem OnDisk.mono (here : OnDisk disk position obj) {later : Nat} (more : position ≤ later) :
    OnDisk disk later obj := by
  obtain ⟨name, data, entries, lsn, log, named, bound, rest⟩ := here
  exact ⟨name, data, entries, lsn, log, named, bound.trans more, rest⟩

theorem OnDisk.aside (here : OnDisk disk position obj) (aside : Volume.Aside LogPath disk disk') :
    OnDisk disk' position obj := by
  obtain ⟨name, data, entries, lsn, log, named, bound, sure, rest⟩ := here
  exact ⟨name, data, entries, lsn, log, named, bound, aside.sure ⟨rfl, log⟩ sure, rest⟩

theorem FilledTo.mono {path : Path} {content : Content} (filled : FilledTo origin w path content)
    (wal : w'.wal = w.wal)
    (slot : w.slot ≤ w'.slot) : FilledTo origin w' path content := by
  obtain ⟨data, entries, lsn, start, text, read, named, small, reached, passed, holds⟩ := filled
  refine ⟨data, entries, lsn, start, text, read, named, small, ?_, passed.trans slot, wal ▸ holds⟩
  rwa [Reached, wal]

/-- A transaction is behind everything that was reached. -/
theorem Commits.reached {lsn : Nat} (commits : Commits w w') (reached : Reached origin w lsn) : Reached origin w' lsn ∧
    ∀ commit ∈ w'.wal, origin < commit.lsn → commit.lsn ≤ lsn → commit ∈ w.wal := by
  cases commits with
  | commit commit tables above small =>
    refine ⟨reached.imp_right (fun ⟨other, member, bound⟩ => ⟨other, List.mem_append_left _ member, bound⟩),
      fun other member after below => (List.mem_append.mp member).resolve_right (fun new => ?_)⟩
    obtain rfl := List.mem_singleton.mp new
    rcases reached with early | ⟨known, inside, bound⟩
    · omega
    · have := above known inside
      omega

theorem Durable.commits (durable : Durable origin (w, disk)) (commits : Commits w w') : Durable origin (w', disk) := by
  have reached := durable.reached
  have shown := durable.shown
  have files := durable.files
  have logged := durable.logged
  cases commits with
  | commit commit tables above small =>
    have step : Commits w { w with wal := w.wal ++ [commit], tables } := .commit w commit tables above small
    refine ⟨List.pairwise_append.mpr ⟨durable.order, List.pairwise_singleton _ _, by simpa using above⟩,
      fun other member => ?_,
      (step.reached reached).1, shown, files.mono ?_, fun other member after below => ?_⟩
    · rcases List.mem_append.mp member with old | new
      · exact durable.small other old
      · exact List.mem_singleton.mp new ▸ small
    · rintro path content ⟨data, entries, lsn, start, text, read, named, fits, beyond, passed, holds⟩
      exact ⟨data, entries, lsn, start, text, read, named, fits, (step.reached beyond).1, passed,
        fun other member after later below => holds other ((step.reached beyond).2 other member after below)
          after later below⟩
    · exact logged other ((step.reached reached).2 other member after below) after below

/-- The slot moves to a position up to which everything is on the disk. -/
theorem Durable.advance (durable : Durable origin (w, disk)) {lsn : Nat} (reached : Reached origin w lsn)
    (each : ∀ commit ∈ w.wal, origin < commit.lsn → w.slot < commit.lsn → commit.lsn ≤ lsn → ∀ obj ∈ commit.inserts,
      OnDisk disk lsn obj) : Durable origin ({ w with slot := max w.slot lsn }, disk) := by
  refine ⟨durable.order, durable.small, ?_, durable.shown,
    durable.files.mono (fun _ _ filled => filled.mono rfl (le_max_left _ _)),
    fun commit member after below obj inside => ?_⟩
  · rcases max_choice w.slot lsn with old | new
    · rw [old]
      exact durable.reached
    · rw [new]
      exact reached
  · by_cases passed : commit.lsn ≤ w.slot
    · exact (durable.logged commit member after passed obj inside).mono (le_max_left _ _)
    · have bound : commit.lsn ≤ lsn := (le_max_iff.mp below).resolve_left passed
      exact (each commit member after (not_le.mp passed) bound obj inside).mono (le_max_right _ _)

theorem Durable.restart {c c' : World × LogDisk} (durable : Durable origin c) (lost : PowerLost c c') :
    Durable origin c' := by
  obtain ⟨files, synced, wal, slot⟩ := lost
  obtain ⟨w', disk'⟩ := c'
  obtain rfl : disk' = .initial w'.get := synced
  refine ⟨wal ▸ durable.order, wal ▸ durable.small, ?_, (funext (Volume.read_initial _)).symm,
    Volume.sealed_initial ?_, ?_⟩
  · rw [Reached, wal, slot]
    exact durable.reached
  · exact fun path content isSealed stored => (durable.files.good_survives isSealed files stored).mono wal slot.ge
  · intro commit member after below obj inside
    obtain ⟨name, data, entries, lsn, log, named, bound, sure, rest⟩ := durable.logged commit (wal ▸ member)
      after (slot ▸ below) obj inside
    exact ⟨name, data, entries, lsn, log, named, slot ▸ bound, Volume.initial_sure (sure.survives files), rest⟩

def Op.Spares : Op → Prop
  | .openExcl path => ¬ LogPath path
  | .write path _ => ¬ LogPath path
  | .unlink path => ¬ LogPath path
  | .openWriter _ => False
  | .closeWriter _ _ _ => False
  | .rename _ _ => False
  | .advance _ => False
  | _ => True

instance : Looking Op.Spares where
  looks op looks := by cases op <;> trivial

/-- What does not matter to the log files. -/
structure Spared (c c' : World × LogDisk) : Prop where
  wal : c'.1.wal = c.1.wal
  slot : c'.1.slot = c.1.slot
  aside : Volume.Aside LogPath c.2 c'.2
  settled : LogsSynced c.2 → LogsSynced c'.2

theorem Durable.spared {c c' : World × LogDisk} (durable : Durable origin c) (spared : Spared c c')
    (shown : c'.1.get = c'.2.read)
    (files : c'.2.Sealed LogPath (FilledTo origin c.1)) : Durable origin c' := by
  obtain ⟨wal, slot, aside, _⟩ := spared
  refine ⟨wal ▸ durable.order, wal ▸ durable.small, ?_, shown, files.mono (fun _ _ filled => filled.mono wal slot.ge),
    fun commit member after below obj inside => ?_⟩
  · rw [Reached, wal, slot]
    exact durable.reached
  · rw [slot]
    exact (durable.logged commit (wal ▸ member) after (slot ▸ below) obj inside).aside aside

theorem get_put (w : World) (path : Path) (content : Content) :
    (w.put path content).get = Function.update w.get path (some content) := by
  funext own
  by_cases same : own = path
  · rw [same, World.get_put_self, Function.update_self]
  · rw [World.get_put_ne _ _ _ same, Function.update_of_ne same]

theorem get_drop (w : World) (path : Path) : (w.drop path).get = Function.update w.get path none := by
  funext own
  by_cases same : own = path
  · rw [same, World.get_drop_self, Function.update_self]
  · rw [World.get_drop_ne _ _ same, Function.update_of_ne same]

theorem settled_add {names : Storage Path (Path × Nat)} {data : Storage (Path × Nat) Content}
    {next next' : Nat} {path : Path}
    {file : Option (Path × Nat)} (settled : LogsSynced ⟨names, data, next⟩) (other : ¬ LogPath path)
    (data' : Storage (Path × Nat) Content) : LogsSynced ⟨names.add [(path, file)], data', next'⟩ := by
  intro own value log member
  rcases List.mem_append.mp member with before | new
  · exact settled own value log before
  · obtain ⟨rfl, _⟩ := Prod.mk.inj (List.mem_singleton.mp new)
    exact other log

/-- The operations of the log writers other than the moves of the log file and of the slot. -/
theorem Durable.step {c c' : World × LogDisk} (durable : Durable origin c) {op : Op} (spares : op.Spares)
    {reply : Reply op}
    (done : DiskStep c op reply c') : Durable origin c' ∧ Spared c c' := by
  obtain ⟨w, disk⟩ := c
  obtain ⟨w', disk'⟩ := c'
  obtain ⟨step, stored⟩ := done
  have still (same : w' = w) (same' : disk' = disk) : Durable origin (w', disk') ∧ Spared (w, disk) (w', disk') := by
    subst same same'
    exact ⟨durable, rfl, rfl, ⟨fun _ _ _ => id, fun _ _ _ _ _ => id⟩, id⟩
  have changed (spared : Spared (w, disk) (w', disk')) (shown : w'.get = disk'.read)
      (files : disk'.Sealed LogPath (FilledTo origin w)) : Durable origin (w', disk') ∧ Spared (w, disk) (w', disk') :=
    ⟨durable.spared spared shown files, spared⟩
  have shown := durable.shown
  have files := durable.files
  cases reply with
  | error code => exact still step.2.1 stored
  | ok value =>
    cases op with
    | openExcl path =>
      obtain ⟨free, rfl⟩ := step
      obtain rfl : disk' = disk.create path (.text []) := stored
      refine changed ⟨rfl, rfl, files.create_aside spares _, fun settled => settled_add settled spares _⟩
        ?_ (files.create spares _)
      rw [get_put, shown, Volume.read_create files.fresh]
    | write path c =>
      obtain ⟨data, here, rfl⟩ := step
      have same : disk' = disk.store path (((w.put path (.text (data ++ [c]))).get path).getD (.text [])) := stored
      rw [World.get_put_self, Option.getD_some] at same
      subst same
      obtain ⟨names, _⟩ := Volume.store_names disk path (.text (data ++ [c]))
      refine changed ⟨rfl, rfl, files.store_aside spares _, fun settled => ?_⟩ ?_ (files.store spares _)
      · rwa [LogsSynced, names]
      · rw [get_put, shown, Volume.read_store files.linked (shown ▸ here)]
    | unlink path =>
      obtain ⟨_, rfl⟩ := step
      obtain rfl : disk' = disk.remove path := stored
      refine changed ⟨rfl, rfl, Volume.remove_aside spares, fun settled => settled_add settled spares _⟩
        ?_ (files.remove spares)
      rw [get_drop, shown, Volume.read_remove]
    | fsync path =>
      obtain rfl : w' = w := step
      obtain rfl : disk' = disk.fsync path := stored
      obtain ⟨names, _⟩ := Volume.fsync_names disk path
      refine changed ⟨rfl, rfl, Volume.fsync_aside _ _ _, fun settled => ?_⟩ ?_ (files.fsync path)
      · rwa [LogsSynced, names]
      · rw [shown, Volume.read_fsync]
    | fsyncDir dir =>
      obtain rfl : w' = w := step
      obtain rfl : disk' = disk.syncDir Path.holder dir := stored
      refine changed ⟨rfl, rfl, Volume.syncDir_aside _ _ _ _, fun settled path file log member => ?_⟩
        ?_ (files.syncDir _ dir)
      · exact settled path file log (List.mem_filter.mp member).1
      · rw [shown, Volume.read_syncDir]
    | peek limit =>
      obtain ⟨sent, _, _, rfl⟩ := step
      obtain rfl : disk' = disk := stored
      exact changed ⟨rfl, rfl, ⟨fun _ _ _ => id, fun _ _ _ _ _ => id⟩, id⟩ shown files
    | openWriter path => exact spares.elim
    | closeWriter path sources objects => exact spares.elim
    | rename oldName newName => exact spares.elim
    | advance lsn => exact spares.elim
    | «exists» path => exact still step.2 stored
    | list dir => exact still step.2.2 stored
    | readFile path => exact still step.2 stored
    | query statement => exact still step.2 stored
    | _ => exact still step stored

theorem Durable.done (durable : Durable origin (w, disk)) {op : Op} (spares : op.Spares) {value : op.Value}
    (done : Done w op value w') :
    Durable origin (w', op.stored disk w') ∧ Spared (w, disk) (w', op.stored disk w') := by
  have step : DiskStep (w, disk) op (.ok value) (w', op.stored disk w') := ⟨done, rfl⟩
  exact durable.step spares step

end Steps

section Rules

variable {origin : Nat} {α : Type} {F G : World × LogDisk → Prop}

def diskRules (origin : Nat) : Discipline Op Reply (World × LogDisk) Unit where
  step := DiskStep
  rely c c' := Commits c.1.1 c'.1.1 ∧ c'.1.2 = c.1.2
  move c c' := Durable origin c.1 → Durable origin c'.1

def Keeping (origin : Nat) (F : World × LogDisk → Prop) (c : (World × LogDisk) × Unit) :
    Prop := Durable origin c.1 ∧ F c.1

/-- The commits of others change nothing about it. -/
def Enduring (F : World × LogDisk → Prop) : Prop := ∀ w w' disk, Commits w w' → F (w, disk) → F (w', disk)

/-- Operations that spare the log files change nothing about it. -/
def Apart (F : World × LogDisk → Prop) : Prop := ∀ c c', Spared c c' → F c → F c'

def Anything : World × LogDisk → Prop := fun _ => True

theorem enduring_anything : Enduring Anything := fun _ _ _ _ => id

theorem apart_anything : Apart Anything := fun _ _ _ => id

theorem Enduring.stable (enduring : Enduring F) : (diskRules origin).Stable (Keeping origin F) := by
  rintro ⟨⟨w, disk⟩, _⟩ ⟨⟨w', disk'⟩, _⟩ ⟨commits, same⟩ ⟨durable, here⟩
  obtain rfl : disk' = disk := same
  exact ⟨durable.commits commits, enduring w w' disk' commits here⟩

theorem Keeping.anything {c : (World × LogDisk) × Unit} (here : Keeping origin F c) :
    Keeping origin Anything c := ⟨here.1, trivial⟩

theorem stable_anything : (diskRules origin).Stable (Keeping origin Anything) := enduring_anything.stable

theorem spares_triple (enduring : Enduring F) (apart : Apart F) {result : α → Prop} {program : Prog α}
    (uses : program.Uses Op.Spares result) : (diskRules origin).Triple (Keeping origin F) program
      (fun value c => result value ∧ Keeping origin F c) (fun _ => Keeping origin Anything) := by
  have kept := Discipline.Triple.uses (D := diskRules origin) uses enduring.stable
    (fun c op reply c' here spares done => ?_)
  · exact kept.weaken (fun _ => id) (fun _ _ => id) (fun _ _ here => here.anything)
  · obtain ⟨durable, spared⟩ := here.1.step spares done
    exact ⟨(), fun _ => durable, durable, apart _ _ spared here.2⟩

/-- What is known after either reply. -/
def Replied (origin : Nat) {op : Op} (G : op.Value → World × LogDisk → Prop) :
    Reply op → (World × LogDisk) × Unit → Prop
  | .ok value => Keeping origin (G value)
  | .error _ => Keeping origin Anything

theorem request_triple {op : Op} {G : op.Value → World × LogDisk → Prop} (enduring : Enduring F)
    (after : ∀ value, Enduring (G value))
    (ok : ∀ w disk value w', Durable origin (w, disk) → F (w, disk) → Done w op value w' →
      Durable origin (w', op.stored disk w') ∧ G value (w', op.stored disk w')) :
    (diskRules origin).Triple (Keeping origin F) (Program.request op : Prog (Reply op)) (Replied origin G)
      (fun _ => Keeping origin Anything) := by
  refine Discipline.Triple.request enduring.stable ?_ ?_
  · intro reply
    cases reply with
    | ok value => exact (after value).stable
    | error code => exact stable_anything
  · rintro ⟨⟨w, disk⟩, _⟩ reply ⟨w', disk'⟩ ⟨durable, here⟩ ⟨step, stored⟩
    cases reply with
    | ok value =>
      obtain rfl : disk' = op.stored disk w' := stored
      obtain ⟨durable', later⟩ := ok w disk value w' durable here step
      exact ⟨(), fun _ => durable', durable', later⟩
    | error code =>
      obtain rfl : disk' = disk := stored
      obtain ⟨_, rfl, _⟩ := step
      exact ⟨(), fun _ => durable, durable, trivial⟩

/-- An operation whose failure is raised. -/
theorem operate_triple {op : Op} {what : Text} {G : op.Value → World × LogDisk → Prop} (enduring : Enduring F)
    (after : ∀ value, Enduring (G value))
    (ok : ∀ w disk value w', Durable origin (w, disk) → F (w, disk) → Done w op value w' →
      Durable origin (w', op.stored disk w') ∧ G value (w', op.stored disk w')) :
    (diskRules origin).Triple (Keeping origin F) (perform op what) (fun value => Keeping origin (G value))
      (fun _ => Keeping origin Anything) := by
  unfold perform
  refine (request_triple enduring after ok).bind (fun reply => ?_)
  cases reply with
  | ok value => exact Discipline.Triple.pure (after value).stable (fun _ here => here)
  | error code => exact Discipline.Triple.raise stable_anything (fun _ here => here)

/-- Descriptors that are opened or closed are nothing to the files. -/
def Op.Idle : Op → Prop
  | .close _ => True
  | .openDir _ => True
  | .closeDir _ => True
  | _ => False

theorem Op.Idle.done {op : Op} (idle : op.Idle) {w w' : World} {disk : LogDisk} {value : op.Value}
    (done : Done w op value w') :
    w' = w ∧ op.stored disk w' = disk := by
  cases op with
  | close path => exact ⟨done, rfl⟩
  | openDir dir => exact ⟨done, rfl⟩
  | closeDir dir => exact ⟨done, rfl⟩
  | _ => exact idle.elim

theorem idle_triple {op : Op} {what : Text} (enduring : Enduring F) (idle : op.Idle) :
    (diskRules origin).Triple (Keeping origin F) (perform op what) (fun _ => Keeping origin F)
      (fun _ => Keeping origin Anything) := by
  apply operate_triple enduring (fun _ => enduring)
  intro w disk value w' durable here done
  obtain ⟨rfl, same⟩ := @Op.Idle.done op idle w w' disk value done
  rw [same]
  exact ⟨durable, here⟩

theorem pidPath_spared (name : Text) : ¬ LogPath (pidPath name) := by
  rintro ⟨⟨⟩, _⟩

theorem pidFile_keeps {config : Config} {name : Text} {body : Prog Unit} (before : Enduring F)
    (apart : Apart F) (after : Enduring G)
    (apart' : Apart G) (run : (diskRules origin).Triple (Keeping origin F) body (fun _ => Keeping origin G)
      (fun _ => Keeping origin Anything)) : (diskRules origin).Triple (Keeping origin F) (pidFile config name body)
      (fun _ => Keeping origin G) (fun _ => Keeping origin Anything) := by
  by_cases none : config.runDir = []
  · unfold pidFile
    rwa [if_pos (List.isEmpty_iff.mpr none)]
  rw [pidFile_eq none]
  have outside := pidPath_spared name
  have writes (op : Op) (writes : op.Writes (pidPath name)) : op.Spares := by
    cases writes <;> exact outside
  have uses : (makePidFile config name).Uses Op.Spares (fun _ => True) := makePidFile_uses writes
  have made := @spares_triple origin _ _ before apart _ _ uses
  have cleaned {F : World × LogDisk → Prop} (enduring : Enduring F) (apart : Apart F) :
      (diskRules origin).Triple (Keeping origin F) (unlink (pidPath name)) (fun _ => Keeping origin F)
        (fun _ => Keeping origin Anything) :=
    (spares_triple enduring apart (unlink_uses outside)).weaken (fun _ => id) (fun _ _ here => here.2) (fun _ _ => id)
  refine made.bind (fun _ c here => ?_)
  refine Discipline.Safe.scope ((run c here.2).weaken (fun _ c' done => ?_) (fun _ c' done => ?_))
    (fun _ => after.stable)
    (fun _ => stable_anything)
  · exact cleaned after apart' c' done
  · exact cleaned enduring_anything apart_anything c' done

end Rules

end Osmdbt
