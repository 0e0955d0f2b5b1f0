import Osmdbt.Log.GetLog

/-! The program fake-log: it writes the rows changed since a timestamp into log
files, one for each minute, without those that given log files already have. -/

namespace Osmdbt

open General

structure FakeLogOptions where
  logFileNames : List Text := []
  timestamp : Timestamp

structure LogEntry where
  time : Int
  type : ItemType
  id : Int64
  version : UInt32
  cid : UInt32
  deriving DecidableEq, Repr

namespace LogEntry

def obj (entry : LogEntry) : Osmobj := ⟨entry.type, entry.id, entry.version, entry.cid⟩

/-- `log_entry::timestamp` -/
def timestamp (entry : LogEntry) : Timestamp := UInt32.ofInt entry.time

def appendTo (entry : LogEntry) (data : Text) : Text :=
  data ++ "0/0 0 N ".toList ++ entry.type.toChar :: intText entry.id.toInt ++ " v".toList ++
    natText entry.version.toNat ++ " c".toList ++ natText entry.cid.toNat ++ ['\n']

/-- The values of `osmium::item_type` -/
def typeNumber : ItemType → Nat
  | .node => 1
  | .way => 2
  | .relation => 3

/-- `entry_tuple`, compared component by component -/
def tuple (entry : LogEntry) : Lex (Int × Lex (Nat × Key)) :=
  toLex (entry.time, toLex (typeNumber entry.type, key entry.id entry.version))

end LogEntry

/-- `Timestamp::to_iso`: the invalid timestamp has no text. -/
def toIso (timestamp : Timestamp) : Text := if timestamp = 0 then [] else toIsoAll timestamp

/-- `osmium::nwr_array<std::set<id_version_type>>` -/
abbrev ObjectsDone := ItemType → List Key

namespace FakeLog

/-- The loop of `read_objects`. -/
def addEntries (type : ItemType) (objectsDone : List Key) (entries : List LogEntry) (result : List ChangeRow) :
    Except Fault (List LogEntry) :=
  result.foldlM (fun entries row =>
    if key row.id row.version ∈ objectsDone then .ok entries
    else do
      let cid ← asChangesetId row.changesetId
      return entries ++ [⟨row.ts, type, row.id, row.version, cid⟩]) entries

def readObjects (entries : List LogEntry) (timestamp : Timestamp) (type : ItemType) (objectsDone : List Key) :
    Prog (List LogEntry) := do
  let result : List ChangeRow ← askDatabase (.changes type (toIso timestamp))
  Program.lift (addEntries type objectsDone entries result)

/-- A given log file: an absolute name is used as it is. -/
def logPath (log : Text) : Path := if log.head? = some '/' then ⟨.root, log⟩ else ⟨.log, log⟩

def ObjectsDone.emplaceAll (objectsDone : ObjectsDone) (objects : Osmobjects) : ObjectsDone :=
  fun type => objectsDone type ++ (objects.ofType type).map Osmobj.key

/-- `read_log_files`; the changesets are not needed. -/
def readLogFiles (config : Config) : ObjectsDone → List Text → Prog ObjectsDone
  | objectsDone, [] => return objectsDone
  | objectsDone, log :: logNames => do
    let data : Text ← perform (.readFile (logPath log))
      ("Could not open log file '".toList ++ (logPath log).text config ++ "'".toList)
    let content ← Program.lift (readLog {} data)
    readLogFiles config (ObjectsDone.emplaceAll objectsDone content.objects) logNames

/-- The file name for the entries of one minute. -/
def newFileName (entry : LogEntry) : Prog Text := do
  let now : Timestamp ← perform .time []
  return createReplicationLogName (toIso entry.timestamp) now

/-- Writes what was collected, unless there was nothing before. -/
def flush (config : Config) (last : Int) (fileName data : Text) : Prog Unit :=
  if last ≠ 0 then writeDataToFile config data fileName else pure ()

/-- The loop over the sorted entries and the write behind it. -/
def writeLogs (config : Config) : (last : Int) → (fileName data : Text) → List LogEntry → Prog Unit
  | _, fileName, data, [] => writeDataToFile config data fileName
  | last, fileName, data, entry :: entries =>
    if last ≠ entry.time then do
      flush config last fileName data
      let data := if last ≠ 0 then [] else data
      let fileName ← newFileName entry
      writeLogs config entry.time fileName (entry.appendTo data) entries
    else writeLogs config last fileName (entry.appendTo data) entries

/-- `std::sort` -/
def sortEntries (entries : List LogEntry) : List LogEntry := entries.insertionSort (fun a b => a.tuple ≤ b.tuple)

end FakeLog

open FakeLog in
/-- `app` of osmdbt-fake-log: whether there were changes. -/
def fakeLog (config : Config) (options : FakeLogOptions) : Prog Bool :=
  pidFile config logPidName do
    let objectsDone ← FakeLog.readLogFiles config (fun _ => []) options.logFileNames
    connect
    let _ ← getDbVersion
    let entries ← readObjects [] options.timestamp .node (objectsDone .node)
    let entries ← readObjects entries options.timestamp .way (objectsDone .way)
    let entries ← readObjects entries options.timestamp .relation (objectsDone .relation)
    commitTransaction
    if entries.isEmpty then return false
    else do
      writeLogs config 0 [] [] (sortEntries entries)
      return true

end Osmdbt
