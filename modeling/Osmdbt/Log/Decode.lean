import Osmdbt.Pgoutput.Parser

/-! The part of get-log between the answer of the replication slot and the log
file: rows are decoded from hex, parsed, and turned into log lines. -/

namespace Osmdbt

open General Pgoutput

/-- One row of `pg_logical_slot_peek_binary_changes`, the data as hex text. -/
structure PeekRow where
  lsn : Text
  xid : Text
  data : Text
  deriving DecidableEq, Repr

/-- Hex values of ASCII characters. -/
def hashmap : List UInt8 :=
  [0x00, 0x01, 0x02, 0x03, 0x04, 0x05, 0x06, 0x07, -- 01234567
    0x08, 0x09, 0x00, 0x00, 0x00, 0x00, 0x00, 0x00, -- 89:;<=>?
    0x00, 0x0a, 0x0b, 0x0c, 0x0d, 0x0e, 0x0f, 0x00, -- @ABCDEFG
    0x00, 0x00, 0x00, 0x00, 0x00, 0x00, 0x00, 0x00] -- HIJKLMNO

def hashIndex (c : Char) : UInt8 := (UInt8.ofNat c.toNat &&& 0x1F) ^^^ 0x10

/-- An index outside the table would be undefined. -/
def hashValue (c : Char) : Except Fault UInt8 :=
  match hashmap[(hashIndex c).toNat]? with
  | some value => .ok value
  | none => .error .undefined

/-- `hex2bytes`; the second character of a pair is read without looking at the size. -/
def hex2bytes : Text → Except Fault Bytes
  | [] => .ok []
  | [_] => .error .undefined
  | high :: low :: rest => do
    let upper ← hashValue high
    let lower ← hashValue low
    let bytes ← hex2bytes rest
    return (upper <<< 4 ||| lower) :: bytes

/-- The variables of the decode loop. -/
structure LogState where
  data : Text := []
  lsn : Text := []
  dataInCurrentTransaction : Bool := false
  hasActualData : Bool := false
  columns : RelIdRelevantColumns := []
  deriving DecidableEq, Repr

/-- The code behind the `switch`, reached by commit, insert and update. -/
def LogState.addMessage (log : LogState) (row : PeekRow) (message : Text) : LogState :=
  let data :=
    if log.dataInCurrentTransaction then log.data ++ (row.lsn ++ ' ' :: row.xid ++ ' ' :: message ++ ['\n'])
    else log.data
  if message.head? = some 'C' then { log with data, lsn := row.lsn, dataInCurrentTransaction := false }
  else if message.head? = some 'N' then { log with data, hasActualData := true }
  else { log with data }

/-- The body of the decode loop. -/
def decodeRow (log : LogState) (row : PeekRow) : Except Fault LogState := do
  let bytes ← hex2bytes row.data
  let (op, msg) ← parseOp.run ⟨bytes, 0⟩
  if op = 'B'.toNat then
    return { log with dataInCurrentTransaction := false }
  else if op = 'C'.toNat then
    return log.addMessage row "C".toList
  else if op = 'R'.toNat then do
    let (columns, _) ← (parseOpRelation log.columns).run msg
    return { log with columns }
  else if op = 'I'.toNat then do
    let (message, _) ← (parseOpInsert log.columns).run msg
    return { log with dataInCurrentTransaction := true }.addMessage row message
  else if op = 'U'.toNat then do
    let (message, _) ← (parseOpUpdate log.columns).run msg
    return { log with dataInCurrentTransaction := true }.addMessage row message
  else
    return log

/-- The decode loop with a fresh parser. -/
def decodeRows (rows : List PeekRow) : Except Fault LogState := rows.foldlM decodeRow {}

end Osmdbt
