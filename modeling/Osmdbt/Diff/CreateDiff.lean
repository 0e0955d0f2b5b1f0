import Osmdbt.System.Io
import Osmdbt.Log.LogName
import Osmdbt.Diff.State

/-! The program create-diff. -/

namespace Osmdbt

open General

structure CreateDiffOptions where
  logFileNames : List Text := []
  initState : Nat := 0
  maxChanges : UInt32 := 4294967295
  withComment : Bool := false
  dryRun : Bool := false

def newChangeFile : Path := ⟨.tmp, "new-change.osc.gz".toList⟩
def newStateFile : Path := ⟨.tmp, "new-state.txt".toList⟩
def newStateCopy : Path := ⟨.tmp, "new-state.txt.copy".toList⟩
def lockFile : Path := ⟨.tmp, "osmdbt-create-diff.lock".toList⟩
def stateFile : Path := ⟨.changes, "state.txt".toList⟩

def State.changeFile (state : State) : Path := ⟨.changes, state.oscPath ++ ".gz".toList⟩
def State.ownFile (state : State) : Path := ⟨.changes, state.statePath⟩

/-- The queries as the program sends them. -/
def databaseQueries : Queries Prog where
  changesetUsers cids := askDatabase (.changesetUsers cids)
  tags type wanted := askDatabase (.tags type wanted)
  wayNodes wanted := askDatabase (.wayNodes wanted)
  members wanted := askDatabase (.members wanted)
  nodes wanted := askDatabase (.nodes wanted)
  ways wanted := askDatabase (.ways wanted)
  relations wanted := askDatabase (.relations wanted)

instance : MonadLiftT (Except Fault) Prog := ⟨Program.lift⟩

/-- The loop over the log files: `readLogFiles` holds name and data of the files
read so far, and the limit ends it early. -/
def readLogFiles (config : Config) (options : CreateDiffOptions) :
    LogContent → List (Text × Text) → List Text → Prog (LogContent × List (Text × Text))
  | objectsTodo, readFiles, [] => return (objectsTodo, readFiles)
  | objectsTodo, readFiles, logFile :: rest => do
    let data : Text ← perform (.readFile ⟨.log, logFile⟩)
      ("Could not open log file '".toList ++ (Path.mk .log logFile).text config ++ "'".toList)
    let objectsTodo ← Program.lift (readLog objectsTodo data)
    let readFiles := readFiles ++ [(logFile, data)]
    if objectsTodo.objects.size > options.maxChanges.toNat then return (objectsTodo, readFiles)
    else readLogFiles config options objectsTodo readFiles rest

/-- `next` of a state, with the assertion inside. -/
def nextState (state : State) (timestamp : Timestamp) : Prog State := do
  Program.assert (state.sequenceNumber < 999999999)
  return { sequenceNumber := state.sequenceNumber + 1, timestamp }

def missingStateFile (config : Config) : Fault :=
  .runtimeError ("Missing state file: '".toList ++ stateFile.text config ++ "'".toList)

def requireStateFile (config : Config) : Prog Unit := do
  let present : Bool ← perform (.exists stateFile) "filesystem error".toList
  if present then pure () else Program.raise (missingStateFile config)

def getState (config : Config) (options : CreateDiffOptions) (timestamp : Timestamp) : Prog State :=
  if options.initState ≠ 0 then pure { sequenceNumber := options.initState, timestamp }
  else do
    requireStateFile config
    let data : Text ← perform (.readFile stateFile)
      ("Could not open state file '".toList ++ stateFile.text config ++ "'".toList)
    let state ← Program.lift (State.parse (stateFile.text config) data)
    nextState state timestamp

/-- `State::write` -/
def State.write (config : Config) (state : State) (path : Path) (commentTimestamp : Timestamp) : Prog Unit := do
  match ← exclWriteOpen path with
  | .error _ =>
    Program.raise (.systemError ("Can not create state file '".toList ++ path.text config ++ "'.".toList))
  | .ok _ => writeSynced path (state.toText commentTimestamp)

def lockFileText (pid : Nat) (state : State) (logFiles : List Text) : Text :=
  "# If this file is left around osmdbt-create-diff crashed in a criticial section.\n".toList ++
    "# Check log, diff, and state files and clean up.\n".toList ++
    "osmdbt-create-diff-pid=".toList ++ natText pid ++
    "\nnew-state=".toList ++ natText state.sequenceNumber ++
    "\nlog-files:\n".toList ++ logFiles.flatMap (· ++ ['\n'])

def lockFileFault (config : Config) : Errno → Fault
  | .exist => .runtimeError ("Lock file '".toList ++ lockFile.text config ++ "' exists. Need sysadmin cleanup.".toList)
  | .other => .runtimeError ("Can not create lock file '".toList ++ lockFile.text config ++ "'.".toList)

def writeLockFile (config : Config) (state : State) (logFiles : List Text) : Prog Unit := do
  match ← exclWriteOpen lockFile with
  | .error code => Program.raise (lockFileFault config code)
  | .ok _ =>
    let pid : Nat ← perform .getpid []
    reliableWrite lockFile (lockFileText pid state logFiles)
    reliableClose lockFile

/-- The assertion in `State::path`, which every use of a path goes through. -/
def assertPath (state : State) : Prog Unit := Program.assert ((paddedNumber state.sequenceNumber).length = 9)

/-- The moves into `changes_dir` and of the log files, between creating and
removing the lock file. -/
def moveIntoPlace (config : Config) (state : State) (logFiles : List Text) : Prog Unit := do
  assertPath state
  perform (.createDirectories ⟨.changes, state.dir2Path⟩) "cannot create directories".toList
  perform (.rename newChangeFile state.changeFile) "cannot rename".toList
  perform (.rename newStateFile state.ownFile) "cannot rename".toList
  syncDir config ⟨.changes, state.dir2Path⟩
  syncDir config ⟨.changes, state.dir1Path⟩
  perform (.rename newStateCopy stateFile) "cannot rename".toList
  syncDir config ⟨.changes, []⟩
  logFiles.forM (fun logFile => renameFile config ⟨.log, logFile⟩ ⟨.log, logFile ++ ".done".toList⟩)
  syncDir config ⟨.log, []⟩

def publish (config : Config) (state : State) (logFiles : List Text) : Prog Unit := do
  writeLockFile config state logFiles
  syncDir config ⟨.tmp, []⟩
  moveIntoPlace config state logFiles
  unlink lockFile
  syncDir config ⟨.tmp, []⟩

def commentTime (options : CreateDiffOptions) : Prog Timestamp :=
  if options.withComment then perform .time [] else pure 0

/-- From the objects to be written to the two copies of the new state file. -/
def writeFiles (config : Config) (options : CreateDiffOptions) (objectsTodo : LogContent)
    (readFiles : List (Text × Text)) : Prog State := do
  let cucache ← populateChangesetCache databaseQueries objectsTodo.cucache
  perform (.openWriter newChangeFile) "Open failed".toList
  let (objects, maxTimestamp) ← processTypes databaseQueries cucache objectsTodo.objects.sort
  commitTransaction
  perform (.closeWriter newChangeFile readFiles objects) "Close failed".toList
  let state ← getState config options maxTimestamp
  let now ← commentTime options
  state.write config newStateFile now
  state.write config newStateCopy now
  return state

/-- The names of the log files to read, in order. -/
def findLogFiles (options : CreateDiffOptions) : Prog (List Text) := do
  if options.logFileNames.isEmpty then
    let names : List Text ← perform (.list .log) "directory iterator cannot open directory".toList
    return names.filter isLog
  else return options.logFileNames

/-- `app` of osmdbt-create-diff -/
def createDiff (config : Config) (options : CreateDiffOptions) : Prog Unit :=
  pidFile config "osmdbt-create-diff".toList do
    let logFiles ← findLogFiles options
    if logFiles.isEmpty then pure ()
    else
      connect
      let _ ← getDbVersion
      let (objectsTodo, readFiles) ← readLogFiles config options {} [] (logFiles.insertionSort (· ≤ ·))
      if objectsTodo.objects.isEmpty then pure ()
      else
        let state ← writeFiles config options objectsTodo readFiles
        if options.dryRun then pure ()
        else publish config state (readFiles.map Prod.fst)

end Osmdbt
