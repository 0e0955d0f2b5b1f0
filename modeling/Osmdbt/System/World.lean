import Osmdbt.General.System
import Osmdbt.Log.Sent
import Osmdbt.Diff.ChangesetCache
import Osmdbt.Timestamp

/-! What the programs run on: the files, the replication slot and the tables, and
the effect of every operation a program can ask for. -/

namespace Osmdbt

open General

/-- The configured directories, and the root for absolute names. -/
inductive Dir where
  | log
  | changes
  | tmp
  | run
  | root
  deriving DecidableEq, Repr

structure Config where
  replicationSlot : Text := "osm_repl".toList
  publication : Text := "osm_publication".toList
  logDir : Text := "/tmp/".toList
  changesDir : Text := "/tmp/".toList
  tmpDir : Text := "/tmp/".toList
  runDir : Text := "/tmp/".toList

def Config.dir (config : Config) : Dir → Text
  | .log => config.logDir
  | .changes => config.changesDir
  | .tmp => config.tmpDir
  | .run => config.runDir
  | .root => []

/-- A file or directory below one of the configured directories. -/
structure Path where
  dir : Dir
  name : Text
  deriving DecidableEq, Repr

def Path.text (config : Config) (path : Path) : Text := config.dir path.dir ++ path.name

/-- What is stored in a file. A change file shows the log files it was made from,
name and data; it has no objects until the writer is closed. -/
inductive Content where
  | text (data : Text)
  | osc (sources : List (Text × Text)) (objects : Option DiffObjects)
  deriving DecidableEq, Repr

inductive Errno where
  | exist
  | other
  deriving DecidableEq, Repr

/-- The statements create-diff, catchup and fake-log send. -/
inductive Query where
  | version
  | changesetUsers (cids : List UInt32)
  | tags (type : ItemType) (wanted : List Key)
  | wayNodes (wanted : List Key)
  | members (wanted : List Key)
  | nodes (wanted : List Key)
  | ways (wanted : List Key)
  | relations (wanted : List Key)
  | changes (type : ItemType) (start : Text)

def Query.Rows : Query → Type
  | .version => List Text
  | .changesetUsers _ => List ChangesetUser
  | .tags _ _ => List TagRow
  | .wayNodes _ => List WayNodeRow
  | .members _ => List MemberRow
  | .nodes _ => List NodeRow
  | .ways _ => List ObjectRow
  | .relations _ => List ObjectRow
  | .changes _ _ => List ChangeRow

inductive Op where
  | getpid
  | time
  | openExcl (path : Path)
  /-- one of the pieces `reliable_write` hands to the system -/
  | write (path : Path) (c : Char)
  | fsync (path : Path)
  | close (path : Path)
  | rename (oldName newName : Path)
  | unlink (path : Path)
  | openDir (dir : Path)
  | fsyncDir (dir : Path)
  | closeDir (dir : Path)
  | createDirectories (dir : Path)
  | exists (path : Path)
  | list (dir : Dir)
  | readFile (path : Path)
  | openWriter (path : Path)
  | closeWriter (path : Path) (sources : List (Text × Text)) (objects : DiffObjects)
  | connect
  | serverVersion
  | query (statement : Query)
  | peek (limit : Option Nat)
  | advance (lsn : Text)
  | commit

def Op.Value : Op → Type
  | .getpid => Nat
  | .time => Timestamp
  | .exists _ => Bool
  | .list _ => List Text
  | .readFile _ => Text
  | .serverVersion => Nat
  | .query statement => statement.Rows
  | .peek _ => List PeekRow
  | _ => Unit

def Reply (op : Op) : Type := Except Errno op.Value

abbrev Prog (α : Type) := Program Op Reply Fault α

/-- A rename that happened, with the inserts the last peek had returned by then. -/
structure Rename where
  oldName : Path
  newName : Path
  content : Content
  returned : List Osmobj

structure Tables extends Database where
  keys : SchemaKeys toDatabase

def Tables.empty : Tables where
  keys := by constructor <;> simp [ObjectKeys, References]

/-- `returned` and `renames` only record what happened; no operation reads them. -/
structure World where
  files : List (Path × Content) := []
  wal : List Commit := []
  slot : Nat := 0
  tables : Tables := .empty
  returned : List Osmobj := []
  renames : List Rename := []

namespace World

def get (w : World) (path : Path) : Option Content := w.files.lookup path
def put (w : World) (path : Path) (content : Content) : World := { w with files := assocSet w.files path content }
def drop (w : World) (path : Path) : World := { w with files := assocErase w.files path }

/-- `rename` replaces what was stored under the new name. -/
def rename (w : World) (oldName newName : Path) (content : Content) : World :=
  { (w.drop oldName).put newName content with
    renames := w.renames ++ [⟨oldName, newName, content, w.returned⟩] }

/-- The transactions behind the position of the slot. -/
def pending (w : World) : List Commit := w.wal.filter (fun commit => w.slot < commit.lsn)

section Files

variable (w : World) (path : Path) (content : Content)

@[simp] theorem get_put_self : (w.put path content).get path = some content :=
  lookup_assocSet_self w.files path content

theorem get_put_ne {other : Path} (different : other ≠ path) : (w.put path content).get other = w.get other :=
  lookup_assocSet_ne different w.files content

@[simp] theorem get_drop_self : (w.drop path).get path = none := lookup_assocErase_self w.files path

theorem get_drop_ne {other : Path} (different : other ≠ path) : (w.drop path).get other = w.get other :=
  lookup_assocErase_ne different w.files

@[simp] theorem get_rename_new (oldName : Path) : (w.rename oldName path content).get path = some content :=
  get_put_self _ _ _

theorem get_rename_old {newName : Path} (different : path ≠ newName) :
    (w.rename path newName content).get path = none := by
  change ((w.drop path).put newName content).get path = none
  rw [get_put_ne _ _ _ different, get_drop_self]

theorem get_rename_ne {oldName newName : Path} (notOld : path ≠ oldName) (notNew : path ≠ newName) :
    (w.rename oldName newName content).get path = w.get path := by
  change ((w.drop oldName).put newName content).get path = w.get path
  rw [get_put_ne _ _ _ notNew, get_drop_ne _ _ notOld]

end Files

end World

/-- What the server may answer to a statement. -/
def Answers (db : Database) : (statement : Query) → statement.Rows → Prop
  | .version, _ => True
  | .changesetUsers cids, result => result.Perm ((changesetUsers db).filter (fun row => askedFor cids row))
  | .tags type asked, result => Answer tagOrder (innerJoin asked TagRow.key (db.tags type)) result
  | .wayNodes asked, result => Answer wayNodeOrder (innerJoin asked WayNodeRow.key db.wayNodes) result
  | .members asked, result => Answer memberOrder (innerJoin asked MemberRow.key db.relationMembers) result
  | .nodes asked, result => Answer (fun a b => objectOrder a.toObjectRow b.toObjectRow)
      (innerJoin asked (fun row => row.toObjectRow.key) db.nodes) result
  | .ways asked, result => Answer objectOrder (innerJoin asked ObjectRow.key db.ways) result
  | .relations asked, result => Answer objectOrder (innerJoin asked ObjectRow.key db.relations) result
  -- the text has to be a timestamp, and the seconds have to fit the type `int`
  | .changes type start, result => ∃ timestamp rows, start = toIsoAll timestamp ∧
      (∀ row ∈ changesSince db type timestamp, row.timestamp.toNat < 2 ^ 31) ∧
      Answer changeOrder (changesSince db type timestamp) rows ∧ result = rows.map ObjectRow.change

/-- What a slot sends for its pending transactions: all of them, or with a limit
a first part that is cut at the end of a transaction. -/
def Taken (limit : Option Nat) (pending sent : List Commit) : Prop :=
  match limit with
  | none => sent = pending
  | some _ => sent <+: pending ∧ (pending ≠ [] → sent ≠ [])

/-- The effect of an operation that succeeds. -/
def Done (w : World) : (op : Op) → op.Value → World → Prop
  | .openExcl path, _, w' => w.get path = none ∧ w' = w.put path (.text [])
  | .write path c, _, w' => ∃ data, w.get path = some (.text data) ∧ w' = w.put path (.text (data ++ [c]))
  | .rename oldName newName, _, w' => ∃ content, w.get oldName = some content ∧ w' = w.rename oldName newName content
  | .unlink path, _, w' => (w.get path).isSome ∧ w' = w.drop path
  | .exists path, answer, w' => answer = (w.get path).isSome ∧ w' = w
  | .list dir, (names : List Text), w' =>
    names.Nodup ∧ (∀ name, name ∈ names ↔ (w.get ⟨dir, name⟩).isSome) ∧ w' = w
  | .readFile path, data, w' => w.get path = some (.text data) ∧ w' = w
  | .openWriter path, _, w' => w' = w.put path (.osc [] none)
  | .closeWriter path sources objects, _, w' => w' = w.put path (.osc sources (some objects))
  | .query statement, rows, w' => Answers w.tables.toDatabase statement rows ∧ w' = w
  | .peek limit, rows, w' =>
    ∃ sent, Taken limit w.pending sent ∧ Sent sent rows ∧ w' = { w with returned := Commit.objects sent }
  | .advance lsn, _, w' => ∃ value, parseLsn lsn = .ok value ∧ w' = { w with slot := max w.slot value }
  | _, _, w' => w' = w

/-- The two calls that always succeed. -/
def Op.Fallible : Op → Prop
  | .getpid => False
  | .time => False
  | _ => True

/-- Every other operation can fail and then has no effect. `EEXIST` is reported
only for a file that is there. -/
def Step (w : World) (op : Op) : Reply op → World → Prop
  | .ok value, w' => Done w op value w'
  | .error code, w' => op.Fallible ∧ w' = w ∧ ∀ path, op = .openExcl path → code = .exist → (w.get path).isSome

end Osmdbt
