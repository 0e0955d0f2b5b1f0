import Osmdbt.General.Indifference
import Osmdbt.Log.Durable
import Osmdbt.Log.Minutes
import Osmdbt.System.Serial
import Osmdbt.System.Settings

/-! One tree of files: a file is found under its full name, and directories may be the
same or lie in one another, as they do when the config file names none. The programs do
in the tree what they do with a directory of its own for each kind of file. -/

namespace Osmdbt

open General

/-- Names of log files; that of fake-log is empty before its first entry. -/
def LogNamed (name : Text) : Prop := (isLog name = true ∨ name = []) ∧ '/' ∉ name

/-- The files the programs work on. -/
inductive Placed : Path → Prop where
  | log {name : Text} (named : LogNamed name) : Placed ⟨.log, name⟩
  | new {name : Text} (named : LogNamed name) : Placed (newLog name)
  | done {name : Text} (named : LogNamed name) : Placed (doneFile name)
  | pid (name : Text) : Placed (pidPath name)
  | newChange : Placed newChangeFile
  | newState : Placed newStateFile
  | newCopy : Placed newStateCopy
  | lock : Placed lockFile
  | change (state : State) : Placed state.changeFile
  | own (state : State) : Placed state.ownFile
  | state : Placed stateFile

/-- The end of a full name, read backwards, shows what kind of file it is. -/
def dirOf : Text → Dir
  | 'g' :: _ | 'w' :: _ | 'e' :: _ | '/' :: _ => .log
  | 'd' :: _ => .run
  | 'k' :: _ | 'y' :: _ => .tmp
  | 'z' :: name => if name[6]? = some 'e' then .tmp else .changes
  | name => if name[9]? = some '-' then .tmp else .changes

private theorem isLog_last {name : Text} (log : isLog name = true) : ∃ rest, name.reverse = 'g' :: rest := by
  have extended : extension name = ".log".toList := of_decide_eq_true log
  by_cases short : name = "..".toList ∨ name.length ≤ (name.reverse.takeWhile (· ≠ '.')).length + 1
  · rw [extension, if_pos short] at extended
    cases extended
  · rw [extension, if_neg short] at extended
    have suffix : name.reverse.takeWhile (· ≠ '.') = "gol".toList := by
      rw [← List.reverse_reverse (name.reverse.takeWhile (· ≠ '.')), (List.cons.inj extended).2]
      rfl
    have split := List.takeWhile_append_dropWhile (p := (· ≠ '.')) (l := name.reverse)
    rw [suffix] at split
    exact ⟨_, split.symm⟩

/-- The last character of the path is a digit. -/
theorem State.path_last (state : State) : ∃ rest d, state.path.reverse = d :: rest ∧
    d ∈ paddedNumber state.sequenceNumber := by
  have long := length_paddedNumber state.sequenceNumber
  rw [State.path, List.reverse_append, List.reverse_cons, List.append_assoc]
  have last : (paddedNumber state.sequenceNumber).drop 6 ≠ [] := by
    intro none
    have := congrArg List.length none
    rw [List.length_drop, List.length_nil] at this
    omega
  cases reversed : ((paddedNumber state.sequenceNumber).drop 6).reverse with
  | nil => exact absurd (List.reverse_eq_nil_iff.mp reversed) last
  | cons d rest =>
    refine ⟨_, d, rfl, List.mem_of_mem_drop (i := 6) (List.mem_reverse.mp ?_)⟩
    rw [reversed]
    exact List.mem_cons_self

private theorem paddedNumber_digit {n : Nat} {d : Char} (member : d ∈ paddedNumber n) : d ≠ 'e' := by
  have digit : ∃ k < 10, d = decimal.char k := by
    rcases List.mem_append.mp member with zero | printed
    · exact ⟨0, by decide, (List.mem_replicate.mp zero).2⟩
    · exact decimal.print_printed _ d printed
  obtain ⟨k, small, rfl⟩ := digit
  have none : ∀ k < 10, decimal.char k ≠ 'e' := by decide
  exact none k small

section Full

variable {config : Config}

theorem text_reverse (config : Config) (dir : Dir) (name : Text) :
    ((Path.mk dir name).text config).reverse = name.reverse ++ (config.dir dir).reverse := List.reverse_append

theorem Slashed.reverse (slashed : Slashed config) {dir : Dir} (named : dir ≠ .root) :
    ∃ rest, (config.dir dir).reverse = '/' :: rest := by
  have last := slashed dir named
  rw [← List.head?_reverse] at last
  exact List.head?_eq_some_iff.mp last

theorem Placed.dirOf (slashed : Slashed config) {path : Path} (placed : Placed path) :
    dirOf (path.text config).reverse = path.dir := by
  cases placed with
  | log named =>
    rw [text_reverse]
    rcases named.1 with log | rfl
    · obtain ⟨rest, last⟩ := isLog_last log
      rw [last]
      rfl
    · obtain ⟨rest, last⟩ := slashed.reverse (show Dir.log ≠ .root by decide)
      rw [last]
      rfl
  | new named =>
    rw [newLog, text_reverse, List.reverse_append]
    rfl
  | done named =>
    rw [doneFile, text_reverse, List.reverse_append]
    rfl
  | pid name =>
    rw [pidPath, text_reverse, List.reverse_append]
    rfl
  | newChange =>
    rw [newChangeFile, text_reverse]
    rfl
  | newState =>
    rw [newStateFile, text_reverse]
    rfl
  | newCopy =>
    rw [newStateCopy, text_reverse]
    rfl
  | lock =>
    rw [lockFile, text_reverse]
    rfl
  | change state =>
    obtain ⟨rest, d, last, digit⟩ := state.path_last
    rw [State.changeFile, text_reverse, State.oscPath, List.reverse_append, List.reverse_append, last]
    exact if_neg (fun same => paddedNumber_digit digit (Option.some.inj same))
  | own state =>
    rw [State.ownFile, text_reverse, State.statePath, List.reverse_append]
    rfl
  | state =>
    obtain ⟨rest, last⟩ := slashed.reverse (show Dir.changes ≠ .root by decide)
    rw [stateFile, text_reverse, last]
    rfl

/-- Two files with one full name are one file. -/
theorem Placed.text_inj (slashed : Slashed config) {path other : Path} (placed : Placed path) (placed' : Placed other)
    (same : path.text config = other.text config) : path = other := by
  have dirs : path.dir = other.dir := by
    rw [← placed.dirOf slashed, ← placed'.dirOf slashed, same]
  obtain ⟨dir, name⟩ := path
  obtain ⟨dir', name'⟩ := other
  obtain rfl : dir = dir' := dirs
  exact congrArg (Path.mk dir) (List.append_cancel_left same)

end Full

/-- A file in the tree: below the root, under its full name. -/
def Path.full (config : Config) (path : Path) : Path := ⟨.root, path.text config⟩

/-- The effect of an operation in the tree. A directory has other files, too, and other
directories; the entries with the suffix of a log file are files. -/
def DoneInTree (config : Config) (t : World) : (op : Op) → op.Value → World → Prop
  | .openExcl path, _, t' => t.get (path.full config) = none ∧ t' = t.put (path.full config) (.text [])
  | .write path c, _, t' =>
    ∃ data, t.get (path.full config) = some (.text data) ∧ t' = t.put (path.full config) (.text (data ++ [c]))
  | .rename oldName newName, _, t' => ∃ content, t.get (oldName.full config) = some content ∧
      t' = t.rename (oldName.full config) (newName.full config) content
  | .unlink path, _, t' => (t.get (path.full config)).isSome ∧ t' = t.drop (path.full config)
  | .exists path, answer, t' => answer = (t.get (path.full config)).isSome ∧ t' = t
  | .list dir, (names : List Text), t' => names.Nodup ∧ (∀ name ∈ names, '/' ∉ name) ∧
      (∀ name, isLog name = true → '/' ∉ name → (name ∈ names ↔ (t.get ((Path.mk dir name).full config)).isSome)) ∧
        t' = t
  | .readFile path, data, t' => t.get (path.full config) = some (.text data) ∧ t' = t
  | .openWriter path, _, t' => t' = t.put (path.full config) (.osc [] none)
  | .closeWriter path sources objects, _, t' => t' = t.put (path.full config) (.osc sources (some objects))
  | op, value, t' => Done t op value t'

def TreeStep (config : Config) (t : World) (op : Op) : Reply op → World → Prop
  | .ok value, t' => DoneInTree config t op value t'
  | .error code, t' =>
    op.Fallible ∧ t' = t ∧ ∀ path, op = .openExcl path → code = .exist → (t.get (path.full config)).isSome

/-- A rename as the tree records it. -/
def Rename.full (config : Config) (moved : Rename) : Rename :=
  { moved with oldName := moved.oldName.full config, newName := moved.newName.full config }

/-- The tree has the files of the world; whatever else it has, no program knows of. -/
structure Shows (config : Config) (w t : World) : Prop where
  wal : t.wal = w.wal
  slot : t.slot = w.slot
  tables : t.tables = w.tables
  returned : t.returned = w.returned
  renames : t.renames = w.renames.map (Rename.full config)
  get : ∀ path, Placed path → t.get (path.full config) = w.get path
  plain : ∀ name, isLog name = true → '/' ∈ name → w.get ⟨.log, name⟩ = none

theorem Placed.plain {name : Text} (placed : Placed ⟨.log, name⟩) (log : isLog name = true) : '/' ∉ name := by
  generalize same : (⟨.log, name⟩ : Path) = path at placed
  cases placed with
  | log named =>
    obtain rfl := congrArg Path.name same
    exact named.2
  | new named => exact absurd same (newLog_ne log _)
  | done named => exact absurd same (doneFile_ne log _)
  | _ => cases congrArg Path.dir same

section Shows

variable {config : Config} {w t : World}

theorem Placed.full_ne (slashed : Slashed config) {path other : Path} (placed : Placed path) (placed' : Placed other)
    (different : other ≠ path) : other.full config ≠ path.full config :=
  fun same => different (placed'.text_inj slashed placed (congrArg Path.name same))

theorem Shows.put (shows : Shows config w t) (slashed : Slashed config) {path : Path} (placed : Placed path)
    (content : Content) :
    Shows config (w.put path content) (t.put (path.full config) content) := by
  refine ⟨shows.wal, shows.slot, shows.tables, shows.returned, shows.renames, fun other placed' => ?_,
    fun name log slash => ?_⟩
  · by_cases same : other = path
    · rw [same, World.get_put_self, World.get_put_self]
    · rw [World.get_put_ne _ _ _ (placed.full_ne slashed placed' same), World.get_put_ne _ _ _ same,
        shows.get other placed']
  · rw [World.get_put_ne, shows.plain name log slash]
    rintro rfl
    exact placed.plain log slash

theorem Shows.drop (shows : Shows config w t) (slashed : Slashed config) {path : Path} (placed : Placed path) :
    Shows config (w.drop path) (t.drop (path.full config)) := by
  refine ⟨shows.wal, shows.slot, shows.tables, shows.returned, shows.renames, fun other placed' => ?_,
    fun name log slash => ?_⟩
  · by_cases same : other = path
    · rw [same, World.get_drop_self, World.get_drop_self]
    · rw [World.get_drop_ne _ _ (placed.full_ne slashed placed' same), World.get_drop_ne _ _ same,
        shows.get other placed']
  · rw [World.get_drop_ne, shows.plain name log slash]
    rintro rfl
    exact placed.plain log slash

theorem Shows.rename (shows : Shows config w t) (slashed : Slashed config) {oldName newName : Path}
    (placed : Placed oldName)
    (placed' : Placed newName) (content : Content) :
    Shows config (w.rename oldName newName content) (t.rename (oldName.full config) (newName.full config)
        content) := by
  have moved := (shows.drop slashed placed).put slashed placed' content
  refine ⟨moved.wal, moved.slot, moved.tables, moved.returned, ?_, moved.get, moved.plain⟩
  rw [World.rename, World.rename, List.map_append, ← shows.renames, shows.returned]
  rfl

end Shows

/-- Operations on files of the programs, whose replies are the same in the tree. -/
def Op.Fixed : Op → Prop
  | .openExcl path | .write path _ | .unlink path | .exists path | .readFile path | .openWriter path
  | .closeWriter path _ _ => Placed path
  | .rename oldName newName => Placed oldName ∧ Placed newName
  | .list _ => False
  | _ => True

/-- What the programs ask for. -/
def Op.InTree (op : Op) : Prop := op = .list .log ∨ op.Fixed

/-- Two listings of the log directory with the same log files. -/
structure SameListing (names names' : List Text) : Prop where
  logs : names.filter isLog = names'.filter isLog
  plain : ∀ name ∈ names, isLog name = true → '/' ∉ name

def SameReply : (op : Op) → Reply op → Reply op → Prop
  | .list _, .ok (names : List Text), .ok (names' : List Text) => SameListing names names'
  | _, reply, reply' => reply = reply'

theorem SameReply.eq {op : Op} (fixed : op.Fixed) {reply reply' : Reply op} (same : SameReply op reply reply') :
    reply = reply' := by
  cases op with
  | list dir => exact fixed.elim
  | _ => exact same

section Steps

variable {config : Config} {w t t' : World}

/-- The listing of the tree without the other entries. -/
theorem Shows.listing (shows : Shows config w t) {names' : List Text} (distinct : names'.Nodup)
    (plain : ∀ name ∈ names', '/' ∉ name)
    (logs : ∀ name, isLog name = true → '/' ∉ name →
      (name ∈ names' ↔ (t.get ((Path.mk .log name).full config)).isSome)) :
    ∃ names : List Text, SameListing names names' ∧ names.Nodup ∧ ∀ name,
        name ∈ names ↔ (w.get ⟨.log, name⟩).isSome := by
  have listed (name : Text) (log : isLog name = true) : name ∈ names' ↔ (w.get ⟨.log, name⟩).isSome := by
    by_cases slash : '/' ∈ name
    · rw [shows.plain name log slash]
      exact ⟨fun member => absurd slash (plain name member), fun wrong => nomatch wrong⟩
    · rw [logs name log slash, shows.get _ (.log ⟨.inl log, slash⟩)]
  refine ⟨names'.filter isLog ++ (w.names .log).filter (fun name => !isLog name), ⟨?_, ?_⟩, ?_, fun name => ?_⟩
  · have others : ((w.names .log).filter (fun name => !isLog name)).filter isLog = [] := by
      refine List.filter_eq_nil_iff.mpr (fun name member log => ?_)
      simp [log] at member
    rw [List.filter_append, others, List.append_nil, List.filter_filter]
    simp
  · intro name member log
    rcases List.mem_append.mp member with inside | other
    · exact plain name (List.mem_filter.mp inside).1
    · simp [log] at other
  · refine (distinct.filter _).append ((List.nodup_dedup _).filter _) (fun name inside other => ?_)
    have log := (List.mem_filter.mp inside).2
    simp [log] at other
  · rw [List.mem_append, List.mem_filter, List.mem_filter, w.mem_names]
    cases log : isLog name with
    | true => simp [listed name log]
    | false => simp

/-- Every step in the tree is one in the world, with a reply that is as good. -/
theorem Shows.performed (shows : Shows config w t) (slashed : Slashed config) {op : Op} {reply' : Reply op}
    (inTree : op.InTree)
    (done : TreeStep config t op reply' t') : ∃ reply w', SameReply op reply reply' ∧ Step w op reply w' ∧
      Shows config w' t' := by
  cases reply' with
  | error code =>
    obtain ⟨fallible, rfl, exist⟩ := done
    have same : SameReply op (.error code) (.error code) := by cases op <;> rfl
    refine ⟨.error code, w, same, ⟨fallible, rfl, fun path opened there => ?_⟩, shows⟩
    have placed : Placed path := by
      subst opened
      exact inTree.resolve_left (fun wrong => nomatch wrong)
    exact shows.get path placed ▸ exist path opened there
  | ok value =>
    rcases inTree with rfl | fixed
    · obtain ⟨distinct, plain, logs, rfl⟩ := done
      obtain ⟨names, same, listed⟩ := shows.listing distinct plain logs
      exact ⟨.ok names, w, same, ⟨listed.1, listed.2, rfl⟩, shows⟩
    · have server {w' : World} (here : SameReply op (.ok value) (.ok value)) (step : Done w op value w')
        (after : Shows config w' t') :
          ∃ reply w', SameReply op reply (.ok value) ∧ Step w op reply w' ∧ Shows config w' t' :=
            ⟨.ok value, w', here, step, after⟩
      cases op with
      | openExcl path =>
        obtain ⟨free, rfl⟩ := done
        exact server rfl ⟨shows.get path fixed ▸ free, rfl⟩ (shows.put slashed fixed _)
      | write path c =>
        obtain ⟨data, stored, rfl⟩ := done
        exact server rfl ⟨data, shows.get path fixed ▸ stored, rfl⟩ (shows.put slashed fixed _)
      | rename oldName newName =>
        obtain ⟨content, stored, rfl⟩ := done
        exact server rfl ⟨content, shows.get oldName fixed.1 ▸ stored, rfl⟩
          (shows.rename slashed fixed.1 fixed.2 content)
      | unlink path =>
        obtain ⟨there, rfl⟩ := done
        exact server rfl ⟨shows.get path fixed ▸ there, rfl⟩ (shows.drop slashed fixed)
      | «exists» path =>
        obtain ⟨answer, rfl⟩ := done
        exact server rfl ⟨shows.get path fixed ▸ answer, rfl⟩ shows
      | list dir => exact fixed.elim
      | readFile path =>
        obtain ⟨stored, rfl⟩ := done
        exact server rfl ⟨shows.get path fixed ▸ stored, rfl⟩ shows
      | openWriter path =>
        obtain rfl : t' = _ := done
        exact server rfl rfl (shows.put slashed fixed _)
      | closeWriter path sources objects =>
        obtain rfl : t' = _ := done
        exact server rfl rfl (shows.put slashed fixed _)
      | query statement =>
        obtain ⟨answers, rfl⟩ := done
        exact server rfl ⟨shows.tables ▸ answers, rfl⟩ shows
      | peek limit =>
        obtain ⟨sent, taken, rows, rfl⟩ := done
        have pending : t.pending = w.pending := by rw [World.pending, World.pending, shows.wal, shows.slot]
        refine server rfl ⟨sent, pending ▸ taken, rows, rfl⟩ ?_
        exact ⟨shows.wal, shows.slot, shows.tables, rfl, shows.renames, shows.get, shows.plain⟩
      | advance lsn =>
        obtain ⟨number, parsed, rfl⟩ := done
        refine server rfl ⟨number, parsed, rfl⟩ ?_
        exact ⟨shows.wal, congrArg (max · number) shows.slot, shows.tables, shows.returned, shows.renames,
          shows.get, shows.plain⟩
      | _ =>
        obtain rfl : t' = t := done
        exact server rfl rfl shows

end Steps

section Programs

variable {config : Config} {α : Type}

theorem fixed_inTree {program : Prog α} {post : α → Prop} (uses : program.Uses Op.Fixed post) :
    program.Indifferent Op.InTree SameReply post :=
  (uses.weaken (fun _ fixed => ⟨.inr fixed, fun _ _ same => same.eq fixed⟩) (fun _ here => here)).indifferent

theorem then_fixed {β : Type} {program : Prog α} {next : α → Prog β} {post : β → Prop}
    (first : program.Uses Op.Fixed (fun _ => True)) (rest : ∀ value, (next value).Uses Op.Fixed post) :
    (program >>= next).Uses Op.Fixed post :=
  first.bind (fun value _ => rest value)

theorem writeSynced_fixed {path : Path} (placed : Placed path) (data : Text) :
    (writeSynced path data).Uses Op.Fixed (fun _ => True) :=
  (reliableWrite_uses (fun _ => placed) data).bind
    (fun _ _ => (perform_uses (show (Op.fsync path).Fixed from trivial)).bind
    (fun _ _ => perform_uses (show (Op.close path).Fixed from trivial)))

theorem syncDir_fixed (dir : Path) : (syncDir config dir).Uses Op.Fixed (fun _ => True) :=
  (perform_uses (show (Op.openDir dir).Fixed from trivial)).bind (fun _ _ =>
    (perform_uses (show (Op.fsyncDir dir).Fixed from trivial)).bind
      (fun _ _ => perform_uses (show (Op.closeDir dir).Fixed from trivial)))

theorem ask_fixed (statement : Query) : (askDatabase statement).Uses Op.Fixed (fun _ => True) :=
  perform_uses (show (Op.query statement).Fixed from trivial)

theorem connect_fixed : connect.Uses Op.Fixed (fun _ => True) := perform_uses (show Op.connect.Fixed from trivial)

theorem commitTransaction_fixed : commitTransaction.Uses Op.Fixed (fun _ => True) :=
  perform_uses (show Op.commit.Fixed from trivial)

theorem getDbVersion_fixed : getDbVersion.Uses Op.Fixed (fun _ => True) := by
  unfold getDbVersion
  refine Program.Uses.bind (ask_fixed .version) (fun rows _ => ?_)
  split
  · split
    · exact trivial
    · exact Program.Uses.raise
  · exact Program.Uses.raise

private theorem makePidFile_fixed (name : Text) : (makePidFile config name).Uses Op.Fixed (fun _ => True) := by
  refine (Program.Uses.request (show (Op.openExcl (pidPath name)).Fixed from .pid name)).bind (fun reply _ => ?_)
  cases reply with
  | error _ => exact Program.Uses.raise
  | ok _ =>
    refine (perform_uses (show Op.getpid.Fixed from trivial)).bind (fun (pid : Nat) _ => ?_)
    exact (reliableWrite_uses (fun _ => Placed.pid name) _).bind
      (fun _ _ => perform_uses (show (Op.close (pidPath name)).Fixed from trivial))

theorem pidFile_inTree {name : Text} {body : Prog α} (inTree : body.Indifferent Op.InTree SameReply (fun _ => True)) :
    (pidFile config name body).Indifferent Op.InTree SameReply (fun _ => True) := by
  by_cases none : config.runDir = []
  · unfold pidFile
    rwa [if_pos (List.isEmpty_iff.mpr none)]
  · rw [pidFile_eq none]
    exact (fixed_inTree (makePidFile_fixed name)).bind
      (fun _ _ => inTree.scope (fixed_inTree (unlink_uses (Placed.pid name))))

theorem writeDataToFile_fixed {fileName : Text} (named : LogNamed fileName) (data : Text) :
    (writeDataToFile config data fileName).Uses Op.Fixed (fun _ => True) := by
  unfold writeDataToFile
  refine (Program.Uses.request (show (Op.openExcl (newLog fileName)).Fixed from .new named)).bind (fun reply _ => ?_)
  cases reply with
  | error _ => exact Program.Uses.raise
  | ok _ =>
    refine (writeSynced_fixed (.new named) data).bind (fun _ _ => ?_)
    exact (perform_uses (show (Op.rename (newLog fileName) ⟨.log, fileName⟩).Fixed from ⟨.new named, .log named⟩)).bind
      (fun _ _ => syncDir_fixed _)

theorem catchupToLsn_fixed (lsn : Text) : (catchupToLsn lsn).Uses Op.Fixed (fun _ => True) :=
  (perform_uses (show Op.serverVersion.Fixed from trivial)).bind (fun (_ : Nat) _ =>
    Program.Uses.ite (fun _ => perform_uses (show (Op.advance lsn).Fixed from trivial)) (fun _ => Program.Uses.raise))

private theorem getLog_inTree (options : GetLogOptions) :
    (getLog config options).Indifferent Op.InTree SameReply (fun _ => True) := by
  refine pidFile_inTree (fixed_inTree (connect_fixed.bind (fun _ _ => getDbVersion_fixed.bind (fun _ _ => ?_))))
  refine (perform_uses (show (Op.peek _).Fixed from trivial)).bind (fun (rows : List PeekRow) _ => ?_)
  split
  · exact commitTransaction_fixed
  refine (lift_uses _).bind (fun log _ => then_fixed ?_ (fun _ => ?_))
  · unfold writeLog
    split
    · refine (perform_uses (show Op.time.Fixed from trivial)).bind (fun (now : Timestamp) _ => ?_)
      exact writeDataToFile_fixed ⟨.inl (isLog_replicationLogName _ _), replicationLogName_plain _ _⟩ _
    · exact Program.Uses.pure trivial
  · unfold catchUpLog
    split
    · exact (lift_uses _).bind (fun lsn _ => (catchupToLsn_fixed lsn).bind (fun _ _ => commitTransaction_fixed))
    · exact Program.Uses.pure trivial

/-- Only the log files of a listing matter. -/
theorem getLsn_filter (files : List Text) : getLsn (files.filter isLog) = getLsn files := by
  rw [getLsn, getLsn, List.foldlM_filter]
  congr 1
  funext lsn fileName
  split <;> rfl

/-- Whoever only looks at the log files of the listing does not see what else there is. -/
theorem list_inTree {β : Type} {what : Text} {next : List Text → Prog β} {post : β → Prop}
    (same : ∀ names names', names.filter isLog = names'.filter isLog → next names = next names')
    (each : ∀ names : List Text, (∀ name ∈ names, isLog name = true → '/' ∉ name) →
      (next names).Indifferent Op.InTree SameReply post) :
    (perform (.list .log) what >>= next).Indifferent Op.InTree SameReply post := by
  refine ⟨.inl rfl, fun reply reply' alike => ?_⟩
  cases reply with
  | error code =>
    cases reply' with
    | error code' => exact ⟨rfl, trivial⟩
    | ok names' => cases alike
  | ok names =>
    cases reply' with
    | error code' => cases alike
    | ok names' => exact ⟨same names names' alike.logs, each names alike.plain⟩

private theorem catchup_inTree (lsn : Nat) : (catchup config lsn).Indifferent Op.InTree SameReply (fun _ => True) := by
  have target : (catchupTarget lsn).Indifferent Op.InTree SameReply (fun _ => True) := by
    unfold catchupTarget
    split
    · exact trivial
    · refine list_inTree (fun names names' same => ?_) (fun names _ => fixed_inTree (lift_uses _))
      rw [← getLsn_filter names, same, getLsn_filter]
  refine pidFile_inTree (target.bind (fun target _ => fixed_inTree ?_))
  split
  · exact Program.Uses.pure trivial
  · exact connect_fixed.bind (fun _ _ => getDbVersion_fixed.bind (fun _ _ =>
      (catchupToLsn_fixed _).bind (fun _ _ => commitTransaction_fixed)))

namespace FakeLog

theorem readLogFiles_fixed (objectsDone : ObjectsDone) {logNames : List Text}
    (placed : ∀ log ∈ logNames, Placed (logPath log)) :
    (readLogFiles config objectsDone logNames).Uses Op.Fixed (fun _ => True) := by
  induction logNames generalizing objectsDone with
  | nil => exact Program.Uses.pure trivial
  | cons log rest ih =>
    refine (perform_uses (show (Op.readFile (logPath log)).Fixed from placed log List.mem_cons_self)).bind
      (fun (data : Text) _ => ?_)
    exact (lift_uses _).bind (fun _ _ => ih _ (fun other member => placed other (List.mem_cons_of_mem _ member)))

theorem readObjects_fixed (entries : List LogEntry) (timestamp : Timestamp) (type : ItemType)
    (objectsDone : List Key) :
    (readObjects entries timestamp type objectsDone).Uses Op.Fixed (fun _ => True) :=
  Program.Uses.bind (ask_fixed _) (fun _ _ => lift_uses _)

private theorem newFileName_fixed (entry : LogEntry) : (newFileName entry).Uses Op.Fixed LogNamed := by
  refine (perform_uses (show Op.time.Fixed from trivial)).bind (fun (now : Timestamp) _ => Program.Uses.pure ?_)
  refine ⟨.inl (isLog_createReplicationLogName _ _), createReplicationLogName_plain ?_ _⟩
  unfold toIso
  split
  · exact List.not_mem_nil
  · exact toIsoAll_plain _

private theorem writeLogs_fixed (last : Int) {fileName : Text} (named : LogNamed fileName) (data : Text)
    (entries : List LogEntry) :
    (writeLogs config last fileName data entries).Uses Op.Fixed (fun _ => True) := by
  induction entries generalizing last fileName data with
  | nil => exact writeDataToFile_fixed named data
  | cons entry rest ih =>
    unfold writeLogs
    split
    · refine then_fixed ?_ (fun _ => (newFileName_fixed entry).bind (fun name named => ih _ named _))
      unfold flush
      split
      · exact writeDataToFile_fixed named data
      · exact Program.Uses.pure trivial
    · exact ih _ named _

end FakeLog

open FakeLog in
private theorem fakeLog_inTree {options : FakeLogOptions}
    (placed : ∀ log ∈ options.logFileNames, Placed (logPath log)) :
    (fakeLog config options).Indifferent Op.InTree SameReply (fun _ => True) := by
  refine pidFile_inTree (fixed_inTree ((FakeLog.readLogFiles_fixed _ placed).bind (fun _ _ => ?_)))
  refine connect_fixed.bind (fun _ _ => getDbVersion_fixed.bind (fun _ _ => ?_))
  refine (readObjects_fixed _ _ _ _).bind (fun _ _ => (readObjects_fixed _ _ _ _).bind (fun _ _ => ?_))
  refine (readObjects_fixed _ _ _ _).bind (fun entries _ => commitTransaction_fixed.bind (fun _ _ => ?_))
  split
  · exact Program.Uses.pure trivial
  · exact (writeLogs_fixed _ ⟨.inr rfl, List.not_mem_nil⟩ _ _).bind (fun _ _ => Program.Uses.pure trivial)

theorem readLogFiles_fixed {options : CreateDiffOptions} (content : LogContent) (sources : List (Text × Text))
    {logFiles : List Text}
    (named : ∀ name ∈ logFiles, LogNamed name) (before : ∀ source ∈ sources, LogNamed source.1) :
    (readLogFiles config options content sources logFiles).Uses Op.Fixed (fun result => ∀ source ∈ result.2,
        LogNamed source.1) := by
  induction logFiles generalizing content sources with
  | nil => exact Program.Uses.pure before
  | cons logFile rest ih =>
    have own := named logFile List.mem_cons_self
    unfold readLogFiles
    refine (perform_uses (show (Op.readFile ⟨.log, logFile⟩).Fixed from .log own)).bind (fun (data : Text) _ => ?_)
    refine Program.Uses.lift.bind (fun content' _ => ?_)
    have known : ∀ source ∈ sources ++ [(logFile, data)], LogNamed source.1 := by
      intro source member
      rcases List.mem_append.mp member with old | new
      · exact before source old
      · rwa [List.mem_singleton.mp new]
    split
    · exact Program.Uses.pure known
    · exact ih content' _ (fun name member => named name (List.mem_cons_of_mem _ member)) known

private theorem processTypes_fixed (cucache : ChangesetUserLookup) (objects : Osmobjects) :
    (processTypes databaseQueries cucache objects : Prog _).Uses Op.Fixed (fun _ => True) := by
  unfold processTypes
  refine (unlessEmpty_uses _ _ ?_).bind (fun nodes _ => (unlessEmpty_uses _ _ ?_).bind
    (fun ways _ => (unlessEmpty_uses _ _ ?_).bind (fun relations _ => Program.Uses.pure trivial)))
  · exact (ask_fixed _).bind (fun _ _ => (ask_fixed _).bind (fun _ _ => lift_uses _))
  · exact (ask_fixed _).bind (fun _ _ => (ask_fixed _).bind (fun _ _ => (ask_fixed _).bind (fun _ _ => lift_uses _)))
  · exact (ask_fixed _).bind (fun _ _ => (ask_fixed _).bind (fun _ _ => (ask_fixed _).bind (fun _ _ => lift_uses _)))

private theorem getState_fixed (options : CreateDiffOptions) (timestamp : Timestamp) :
    (getState config options timestamp).Uses Op.Fixed (fun _ => True) := by
  unfold getState
  split
  · exact Program.Uses.pure trivial
  refine then_fixed ?_ (fun _ => ?_)
  · refine (perform_uses (show (Op.exists stateFile).Fixed from .state)).bind (fun (present : Bool) _ => ?_)
    cases present with
    | true => exact Program.Uses.pure trivial
    | false => exact Program.Uses.raise
  · refine (perform_uses (show (Op.readFile stateFile).Fixed from .state)).bind (fun (data : Text) _ =>
      (lift_uses _).bind (fun last _ => ?_))
    exact (Program.Uses.assert.weaken (fun _ here => here) (fun _ _ => trivial)).bind
      (fun _ _ => Program.Uses.pure trivial)

theorem stateWrite_fixed {path : Path} (placed : Placed path) (state : State) (now : Timestamp) :
    (state.write config path now).Uses Op.Fixed (fun _ => True) := by
  refine (Program.Uses.request (show (Op.openExcl path).Fixed from placed)).bind (fun reply _ => ?_)
  cases reply with
  | error _ => exact Program.Uses.raise
  | ok _ => exact writeSynced_fixed placed _

private theorem writeFiles_fixed (options : CreateDiffOptions) (content : LogContent) (sources : List (Text × Text)) :
    (writeFiles config options content sources).Uses Op.Fixed (fun _ => True) := by
  refine then_fixed ((ask_fixed _).bind (fun _ _ => lift_uses _)) (fun cucache => ?_)
  refine (perform_uses (show (Op.openWriter newChangeFile).Fixed from .newChange)).bind (fun _ _ => ?_)
  refine (processTypes_fixed cucache _).bind (fun written _ => commitTransaction_fixed.bind (fun _ _ => ?_))
  refine (perform_uses (show (Op.closeWriter newChangeFile sources written.1).Fixed from .newChange)).bind
    (fun _ _ => ?_)
  refine (getState_fixed options written.2).bind (fun state _ => then_fixed ?_ (fun now => ?_))
  · unfold commentTime
    cases options.withComment with
    | true => exact perform_uses (show Op.time.Fixed from trivial)
    | false => exact Program.Uses.pure trivial
  · exact (stateWrite_fixed .newState state now).bind (fun _ _ => (stateWrite_fixed .newCopy state now).bind
      (fun _ _ => Program.Uses.pure trivial))

private theorem writeLockFile_fixed (state : State) (logFiles : List Text) :
    (writeLockFile config state logFiles).Uses Op.Fixed (fun _ => True) := by
  refine (Program.Uses.request (show (Op.openExcl lockFile).Fixed from .lock)).bind (fun reply _ => ?_)
  cases reply with
  | error _ => exact Program.Uses.raise
  | ok _ =>
    refine (perform_uses (show Op.getpid.Fixed from trivial)).bind (fun (pid : Nat) _ => ?_)
    exact (reliableWrite_uses (fun _ => Placed.lock) _).bind
      (fun _ _ => perform_uses (show (Op.close lockFile).Fixed from trivial))

private theorem publish_fixed (state : State) {logFiles : List Text} (named : ∀ name ∈ logFiles, LogNamed name) :
    (publish config state logFiles).Uses Op.Fixed (fun _ => True) := by
  have moved : (moveIntoPlace config state logFiles).Uses Op.Fixed (fun _ => True) := by
    refine (Program.Uses.assert.weaken (fun _ here => here) (fun _ _ => trivial)).bind (fun _ _ => ?_)
    refine (perform_uses (show (Op.createDirectories _).Fixed from trivial)).bind (fun _ _ => ?_)
    refine (perform_uses (show (Op.rename newChangeFile state.changeFile).Fixed from ⟨.newChange,
      .change state⟩)).bind (fun _ _ => ?_)
    refine (perform_uses (show (Op.rename newStateFile state.ownFile).Fixed from ⟨.newState, .own state⟩)).bind
      (fun _ _ => ?_)
    refine (syncDir_fixed _).bind (fun _ _ => (syncDir_fixed _).bind (fun _ _ => ?_))
    refine (perform_uses (show (Op.rename newStateCopy stateFile).Fixed from ⟨.newCopy, .state⟩)).bind (fun _ _ => ?_)
    refine (syncDir_fixed _).bind (fun _ _ => Program.Uses.bind (Program.Uses.forM (fun name member => ?_))
      (fun _ _ => syncDir_fixed _))
    exact perform_uses (show (Op.rename ⟨.log, name⟩ (doneFile name)).Fixed from ⟨.log (named name member),
      .done (named name member)⟩)
  exact (writeLockFile_fixed state logFiles).bind (fun _ _ => (syncDir_fixed _).bind (fun _ _ =>
    moved.bind (fun _ _ => (unlink_uses Placed.lock).bind (fun _ _ => syncDir_fixed _))))

private theorem findLogFiles_inTree {options : CreateDiffOptions}
    (named : ∀ name ∈ options.logFileNames, LogNamed name) :
    (findLogFiles options).Indifferent Op.InTree SameReply (fun names => ∀ name ∈ names, LogNamed name) := by
  unfold findLogFiles
  split
  · refine list_inTree (fun names names' same => ?_) (fun names plain name member => ?_)
    · rw [same]
    · obtain ⟨inside, log⟩ := List.mem_filter.mp member
      exact ⟨.inl log, plain name inside log⟩
  · exact named

private theorem createDiff_inTree {options : CreateDiffOptions}
    (named : ∀ name ∈ options.logFileNames, LogNamed name) :
    (createDiff config options).Indifferent Op.InTree SameReply (fun _ => True) := by
  refine pidFile_inTree ((findLogFiles_inTree named).bind (fun logFiles named => fixed_inTree ?_))
  split
  · exact Program.Uses.pure trivial
  refine connect_fixed.bind (fun _ _ => getDbVersion_fixed.bind (fun _ _ => ?_))
  have sorted : ∀ name ∈ logFiles.insertionSort (· ≤ ·), LogNamed name :=
    fun name member => named name ((List.perm_insertionSort _ _).mem_iff.mp member)
  refine (readLogFiles_fixed {} [] sorted (fun _ none => absurd none List.not_mem_nil)).bind (fun result sources => ?_)
  change (if _ then _ else _ : Prog Unit).Uses _ _
  split
  · exact Program.Uses.pure trivial
  refine (writeFiles_fixed options result.1 result.2).bind (fun state _ => ?_)
  split
  · exact Program.Uses.pure trivial
  · refine publish_fixed state (fun name member => ?_)
    obtain ⟨source, inside, rfl⟩ := List.mem_map.mp member
    exact sources source inside

end Programs

/-- The programs that work on files, with names of log files for names on the command line. -/
inductive Tool (config : Config) : Prog Unit → Prop where
  | getLog (options : GetLogOptions) : Tool config (getLog config options)
  | catchup (lsn : Nat) : Tool config (catchup config lsn)
  | fakeLog {options : FakeLogOptions} (placed : ∀ log ∈ options.logFileNames, Placed (FakeLog.logPath log)) :
    Tool config (fakeLog config options >>= fun _ => pure ())
  | createDiff {options : CreateDiffOptions} (named : ∀ name ∈ options.logFileNames, LogNamed name) :
      Tool config (createDiff config options)

theorem Tool.inTree {config : Config} {program : Prog Unit} (tool : Tool config program) :
    program.Indifferent Op.InTree SameReply (fun _ => True) := by
  cases tool with
  | getLog options => exact getLog_inTree options
  | catchup lsn => exact catchup_inTree lsn
  | fakeLog placed => exact (fakeLog_inTree placed).bind (fun _ _ => trivial)
  | createDiff named => exact createDiff_inTree named

/-- Transactions commit, the slot is moved, rows are changed. -/
def ServerMoves (moves : List Commit × Nat × Tables → List Commit × Nat × Tables → Prop) (w w' : World) : Prop :=
  ∃ wal slot tables, moves (w.wal, w.slot, w.tables) (wal, slot, tables) ∧ w' = { w with wal, slot, tables }

/-- The server moves, or somebody does by hand what the programs could do. -/
def Besides (moves : List Commit × Nat × Tables → List Commit × Nat × Tables → Prop) (byHand : Op → Prop)
    (step : World → (op : Op) → Reply op → World → Prop) (w w' : World) : Prop :=
  ServerMoves moves w w' ∨ ∃ op reply, byHand op ∧ step w op reply w'

/-- Files that belong to nobody here change. -/
def Foreign (config : Config) : World → World → Prop := Untouched (fun path => ∀ other, Placed other →
    path ≠ other.full config)

section Runs

variable {config : Config} {moves : List Commit × Nat × Tables → List Commit × Nat × Tables → Prop}
    {byHand : Op → Prop}

theorem Shows.besides (slashed : Slashed config) (known : ∀ op, byHand op → op.InTree) {w t t' : World}
    (shows : Shows config w t)
    (change : Besides moves byHand (TreeStep config) t t' ∨ Foreign config t t') :
    Shows config w t' ∨ ∃ w', Besides moves byHand Step w w' ∧ Shows config w' t' := by
  rcases change with (⟨wal, slot, tables, moved, rfl⟩ | ⟨op, reply', hand, done⟩) | foreign
  · refine .inr ⟨{ w with wal, slot, tables }, .inl ⟨wal, slot, tables, ?_, rfl⟩, ?_⟩
    · rwa [shows.wal, shows.slot, shows.tables] at moved
    · exact ⟨rfl, rfl, rfl, shows.returned, shows.renames, shows.get, shows.plain⟩
  · obtain ⟨reply, w', _, step, after⟩ := shows.performed slashed (known op hand) done
    exact .inr ⟨w', .inr ⟨op, reply, hand, step⟩, after⟩
  · refine .inl ⟨foreign.wal.trans shows.wal, foreign.slot.trans shows.slot, foreign.tables.trans shows.tables,
      foreign.returned.trans shows.returned, foreign.renames.trans shows.renames, fun path placed => ?_, shows.plain⟩
    rw [foreign.get _ (fun outside => outside path placed rfl), shows.get path placed]

/-- The files of the programs among those of the tree. -/
theorem Slashed.files (slashed : Slashed config) (stored : List (Path × Content)) : ∃ files : List (Path × Content),
    (∀ path, Placed path → files.lookup path = stored.lookup (path.full config)) ∧ ∀ file ∈ files, Placed file.1 := by
  induction stored with
  | nil => exact ⟨[], fun _ _ => rfl, fun _ none => absurd none List.not_mem_nil⟩
  | cons file rest ih =>
    obtain ⟨name, content⟩ := file
    obtain ⟨files, same, placed⟩ := ih
    by_cases own : ∃ path, Placed path ∧ path.full config = name
    · obtain ⟨path, here, rfl⟩ := own
      refine ⟨(path, content) :: files, fun other there => ?_, List.forall_mem_cons.mpr ⟨here, placed⟩⟩
      by_cases equal : other = path
      · subst equal
        rw [List.lookup_cons_self, List.lookup_cons_self]
      · have different := here.full_ne slashed there equal
        rw [List.lookup_cons, List.lookup_cons, beq_false_of_ne equal, beq_false_of_ne different]
        exact same other there
    · refine ⟨files, fun other there => ?_, placed⟩
      have different : other.full config ≠ name := fun equal => own ⟨other, there, equal⟩
      rw [List.lookup_cons, beq_false_of_ne different]
      exact same other there

/-- Every tree shows a world. -/
theorem Slashed.shows (slashed : Slashed config) {t : World} (fresh : t.renames = []) : ∃ w, Shows config w t := by
  obtain ⟨files, same, placed⟩ := slashed.files t.files
  refine ⟨{ t with files }, rfl, rfl, rfl,
    rfl, by simp [fresh], fun path here => (same path here).symm, fun name log slash => ?_⟩
  refine List.lookup_eq_none_iff.mpr (fun file member => bne_iff_ne.mpr ?_)
  intro here
  exact (here ▸ placed file member : Placed ⟨.log, name⟩).plain log slash

/-- Whatever directories the config file names, the same ones for all files or some below
others: what any number of interleaved programs come to in one tree of files, among other
people's files, they come to with a directory of its own for each kind of file. -/
theorem programs_in_tree {library : YamlLibrary} {files : Text → Option Text} {configFile : Text}
    {database : DatabaseConfig}
    (loaded : readConfig library files configFile = .ok (database, config)) (known : ∀ op, byHand op → op.InTree)
    {t : World} (fresh : t.renames = []) {ι : Type} [DecidableEq ι] :
    ∃ w, Shows config w t ∧ ∀ (t' : World) (processes : ι → Option (Prog Unit)),
      Relation.ReflTransGen (Concurrent (TreeStep config)
        (fun t t' => Besides moves byHand (TreeStep config) t t' ∨ Foreign config t t') (Tool config))
          (t, fun _ => none) (t', processes) →
      ∃ w', Relation.ReflTransGen (Concurrent Step (Besides moves byHand Step) (Tool config))
        (w, fun _ => none) (w', processes) ∧
        Shows config w' t' := by
  have slashed := readConfig_slashed loaded
  obtain ⟨w, shows⟩ := slashed.shows fresh
  have simulates : Simulates Op.InTree SameReply (Shows config) Step (Besides moves byHand Step) (TreeStep config)
      (fun t t' => Besides moves byHand (TreeStep config) t t' ∨ Foreign config t t') :=
    ⟨fun _ _ _ _ _ shows inTree done => shows.performed slashed inTree done, fun _ _ _ shows change =>
      shows.besides slashed known change⟩
  exact ⟨w, shows, fun t' processes reached => Concurrent.simulated simulates (fun _ tool => tool.inTree)
    shows reached⟩

/-- create-diff and get-log as they run without a config file entry, in one directory beside somebody's
notes, while catchup is refused. -/
theorem programs_in_tree_defaults : ∃ (w w' : World) (processes : Nat → Option (Prog Unit)),
    Relation.ReflTransGen (Concurrent Step (Besides (fun _ _ => False)
      (fun op => ∃ path, Placed path ∧ op = .unlink path) Step) (Tool {}))
      (w, fun _ => none) (w', processes) ∧ w.get (pidPath diffPidName) = none ∧ w.get logPidFile = none ∧
      w'.get (pidPath diffPidName) = some (.text []) ∧ w'.get logPidFile = some (.text []) := by
  let t : World := { files := [(⟨.root, "/tmp/notes".toList⟩, .text [])] }
  let t₁ : World := t.put ((pidPath diffPidName).full {}) (.text [])
  let t₂ : World := t₁.put (logPidFile.full {}) (.text [])
  obtain ⟨_, diff⟩ : ∃ next, createDiff {} {} = .perform (Op.openExcl (pidPath diffPidName)) next :=
    pidFile_first (by decide) _
  obtain ⟨_, logs⟩ : ∃ next, getLog {} {} = .perform (Op.openExcl logPidFile) next := pidFile_first (by decide) _
  obtain ⟨_, catches⟩ : ∃ next, catchup {} 0 = .perform (Op.openExcl logPidFile) next := pidFile_first (by decide) _
  have made : TreeStep {} t (.openExcl (pidPath diffPidName)) (.ok ()) t₁ := ⟨rfl, rfl⟩
  have madeAgain : TreeStep {} t₁ (.openExcl logPidFile) (.ok ()) t₂ := ⟨rfl, rfl⟩
  have refused : TreeStep {} t₂ (.openExcl logPidFile) (.error .exist) t₂ :=
    ⟨trivial, rfl, fun path same _ => Op.openExcl.inj same ▸ by decide⟩
  have alone : ∀ op : Op, (∃ path, Placed path ∧ op = .unlink path) → op.InTree := by
    rintro op ⟨path, placed, rfl⟩
    exact .inr placed
  have loaded : readConfig ⟨fun _ => .ok .null, .error .yaml⟩ (fun _ => some []) [] = .ok ({}, {}) := rfl
  have named : ∀ name ∈ ({} : CreateDiffOptions).logFileNames, LogNamed name := fun _ none =>
    absurd none List.not_mem_nil
  have reached : Relation.ReflTransGen (Concurrent (TreeStep {}) (fun t t' => Besides (fun _ _ => False)
      (fun op => ∃ path, Placed path ∧ op = .unlink path) (TreeStep {}) t t' ∨ Foreign {} t t') (Tool {}))
      (t, fun _ : Nat => none) (t₂, _) :=
    .head (.start 0 rfl (.createDiff named))
      (.head (.start 1 rfl (.getLog {}))
      (.head (.perform 0 ((Function.update_of_ne (by decide) ..).trans
        ((Function.update_self ..).trans (congrArg some diff))) made)
      (.head (.perform 1 ((Function.update_of_ne (by decide) ..).trans
        ((Function.update_self ..).trans (congrArg some logs))) madeAgain)
      (.head (.start 2 rfl (.catchup 0))
      (.single (.perform 2 ((Function.update_self ..).trans (congrArg some catches)) refused))))))
  obtain ⟨w, before, runs⟩ := programs_in_tree loaded alone (t := t) (ι := Nat) rfl
  obtain ⟨w', run, after⟩ := runs t₂ _ reached
  have logPid : Placed logPidFile := .pid _
  refine ⟨w, w', _, run, ?_, ?_, ?_, ?_⟩
  · rw [← before.get _ (.pid _)]
    rfl
  · rw [← before.get _ logPid]
    rfl
  · rw [← after.get _ (.pid _)]
    rfl
  · rw [← after.get _ logPid]
    rfl

end Runs

end Osmdbt
