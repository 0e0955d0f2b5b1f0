import Osmdbt.System.Io
import Osmdbt.Log.LogName

/-! The programs that work on the replication slot: get-log and catchup. Both use
the same pid file. -/

namespace Osmdbt

open General

structure GetLogOptions where
  maxChanges : UInt32 := 0
  catchup : Bool := false

def logPidName : Text := "osmdbt-log".toList

/-- The `peek` statement: no limit is the limit `NULL`. -/
def peekLimit (options : GetLogOptions) : Option Nat :=
  if options.maxChanges > 0 then some options.maxChanges.toNat else none

/-- `lsn_type{lsn}.str()` -/
def canonicalLsn (lsn : Text) : Except Fault Text := lsnStr <$> parseLsn lsn

/-- Writes the log file, unless there are only empty transactions and redactions. -/
def writeLog (config : Config) (log : LogState) : Prog Unit :=
  if log.hasActualData then do
    let now : Timestamp ← perform .time []
    writeDataToFile config log.data (replicationLogName log.lsn now)
  else pure ()

/-- What `--catchup` adds. -/
def catchUpLog (options : GetLogOptions) (log : LogState) : Prog Unit :=
  if options.catchup then do
    let lsn ← Program.lift (canonicalLsn log.lsn)
    catchupToLsn lsn
    commitTransaction
  else pure ()

/-- `app` of osmdbt-get-log -/
def getLog (config : Config) (options : GetLogOptions) : Prog Unit :=
  pidFile config logPidName do
    connect
    let _ ← getDbVersion
    let result : List PeekRow ← perform (.peek (peekLimit options)) "query failed".toList
    if result.isEmpty then
      commitTransaction
    else
      let log ← Program.lift (decodeRows result)
      writeLog config log
      catchUpLog options log

/-- The LSN to catch up to: the one given, or the largest in the names of the log files. -/
def catchupTarget (lsn : Nat) : Prog Nat :=
  if lsn ≠ 0 then pure lsn
  else do
    let files : List Text ← perform (.list .log) "directory iterator cannot open directory".toList
    Program.lift (getLsn files)

/-- `app` of osmdbt-catchup; `lsn` is the option `--lsn`, or zero. -/
def catchup (config : Config) (lsn : Nat) : Prog Unit :=
  pidFile config logPidName do
    let lsn ← catchupTarget lsn
    if lsn = 0 then pure ()
    else do
      connect
      let _ ← getDbVersion
      catchupToLsn (lsnStr lsn)
      commitTransaction

end Osmdbt
