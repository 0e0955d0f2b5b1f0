import Osmdbt.System.World

/-! File helpers shared by the programs. A failing operation is raised as an
exception unless the source looks at the result itself. -/

namespace Osmdbt

open General

/-- An operation whose failure is raised as `std::system_error`. -/
def perform (op : Op) (what : Text) : Prog op.Value := do
  match ← Program.request op with
  | .ok value => return value
  | .error _ => Program.raise (.systemError what)

def exclWriteOpen (path : Path) : Prog (Reply (Op.openExcl path)) := Program.request (Op.openExcl path)

/-- `reliable_write`: the system takes the data piece by piece. -/
def reliableWrite (path : Path) (data : Text) : Prog Unit :=
  data.forM (fun c => perform (.write path c) "Write failed".toList)

def reliableFsync (path : Path) : Prog Unit := perform (.fsync path) "Fsync failed".toList
def reliableClose (path : Path) : Prog Unit := perform (.close path) "Close failed".toList

def renameFile (config : Config) (oldName newName : Path) : Prog Unit :=
  perform (.rename oldName newName)
    ("Renaming '".toList ++ oldName.text config ++ "' to '".toList ++ newName.text config ++ "' failed.".toList)

def syncDir (config : Config) (dir : Path) : Prog Unit := do
  perform (.openDir dir) ("Opening output directory failed for '".toList ++ dir.text config ++ "'".toList)
  perform (.fsyncDir dir) ("Syncing output directory failed for '".toList ++ dir.text config ++ "'".toList)
  perform (.closeDir dir) ("Closing output directory failed for '".toList ++ dir.text config ++ "'".toList)

/-- Writes an already opened file to the disk. -/
def writeSynced (path : Path) (data : Text) : Prog Unit := do
  reliableWrite path data
  reliableFsync path
  reliableClose path

/-- `unlink`; the result is not looked at. -/
def unlink (path : Path) : Prog Unit := do
  let _ ← Program.request (.unlink path)

def pidPath (name : Text) : Path := ⟨.run, name ++ ".pid".toList⟩

def pidFileFault (config : Config) (name : Text) : Errno → Fault
  | .exist => .runtimeError ("pid file '".toList ++ (pidPath name).text config ++ "' exists. Is another ".toList ++
      name ++ " process running?".toList)
  | .other => .runtimeError ("Can not create pid file '".toList ++ (pidPath name).text config ++ "'.".toList)

/-- A `PIDFile` that lives as long as `body`. When the file cannot be written after
it was created, nobody removes it. -/
def pidFile {α : Type} (config : Config) (name : Text) (body : Prog α) : Prog α :=
  if config.runDir.isEmpty then body
  else do
    match ← exclWriteOpen (pidPath name) with
    | .error code => Program.raise (pidFileFault config name code)
    | .ok _ =>
      let pid : Nat ← perform .getpid []
      reliableWrite (pidPath name) (natText pid ++ ['\n'])
      reliableClose (pidPath name)
      body.scope (unlink (pidPath name))

def writeDataToFile (config : Config) (data fileName : Text) : Prog Unit := do
  let fileNameFinal : Path := ⟨.log, fileName⟩
  let fileNameTmp : Path := ⟨.log, fileName ++ ".new".toList⟩
  match ← exclWriteOpen fileNameTmp with
  -- the descriptor is not checked, writing to it fails
  | .error _ => Program.raise (.systemError "Write failed".toList)
  | .ok _ =>
    writeSynced fileNameTmp data
    renameFile config fileNameTmp fileNameFinal
    syncDir config ⟨.log, []⟩

def databaseError (what : String) : Fault := .runtimeError what.toList

def connect : Prog Unit := perform .connect "connection failed".toList

def askDatabase (statement : Query) : Prog statement.Rows := perform (.query statement) "query failed".toList

def getDbVersion : Prog Text := do
  let result : List Text ← askDatabase .version
  match result with
  | [row] =>
    if row.take 10 = "PostgreSQL".toList then return row
    else Program.raise (databaseError "Expected version string.")
  | _ => Program.raise (databaseError "Expected exactly one result (version).")

/-- `catchup_to_lsn`; the number of result rows only leads to a warning. -/
def catchupToLsn (lsn : Text) : Prog Unit := do
  let version : Nat ← perform .serverVersion "connection failed".toList
  if version ≥ 110000 then perform (.advance lsn) "query failed".toList
  else Program.raise (databaseError "Unsupported database version, PostgreSQL 11 or newer required")

def commitTransaction : Prog Unit := perform .commit "commit failed".toList

end Osmdbt
