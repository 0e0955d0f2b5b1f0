import Osmdbt.Base
import Osmdbt.General.Cursor
import Osmdbt.General.CText
import Osmdbt.General.Assoc

/-! The parser for rows of the pgoutput plugin. Nothing in it checks an offset,
so a read behind the end of the row is undefined. -/

namespace Osmdbt

open General

abbrev Bytes := List UInt8

/-- The characters a byte string holds. -/
def bytesText (bytes : Bytes) : Text := bytes.map (fun byte => Char.ofNat byte.toNat)

namespace Pgoutput

/-- The next `size` bytes; the offset is a `uint32_t`. -/
def take (size : Nat) : Reader Fault Bytes := fun row =>
  if row.offset + size ≤ row.bytes.length then
    .ok ((row.bytes.drop row.offset).take size, { row with offset := (row.offset + size) % 2 ^ 32 })
  else .error .undefined

/-- `read<T>` for an unsigned type of `size` bytes. -/
def readUnsigned (size : Nat) : Reader Fault Nat := bigEndian <$> take size

/-- `read<T>` for a signed type of `size` bytes. -/
def readSigned (size : Nat) : Reader Fault Int := (fun bytes => asSigned size (bigEndian bytes)) <$> take size

/-- `read_string()`: the bytes in front of the next NUL. -/
def readString : Reader Fault Text := fun row =>
  let string := (row.bytes.drop row.offset).takeWhile (· ≠ 0)
  if row.offset + string.length < row.bytes.length then
    .ok (bytesText string, { row with offset := (row.offset + (string.length + 1)) % 2 ^ 32 })
  else .error .undefined

/-- `read_string(len)`: a negative length is converted to `uint32_t`. -/
def readStringOf (len : Int) : Reader Fault Text := bytesText <$> take (fromSigned 4 len)

/-- The `switch` over the category of a column: null, unchanged, binary and
unknown columns have no text. -/
def readColumn (category : Int) : Reader Fault (Option Text) :=
  if category = 't'.toNat then do
    let colLength ← readSigned 4
    some <$> readStringOf colLength
  else pure none

def readColumns : Nat → Reader Fault (List (Option Text))
  | 0 => return []
  | n + 1 => do
    let category ← readSigned 1
    let column ← readColumn category
    let rest ← readColumns n
    return column :: rest

def readTupleData : Reader Fault (List (Option Text)) := do
  let nColumns ← readSigned 2
  readColumns nColumns.toNat

structure RelevantTableColumns where
  relationName : Text := []
  objectType : Char := '\x00'
  osmObjectColumn : Nat := 0
  changesetColumn : Nat := 0
  versionColumn : Nat := 0
  redactionColumn : Nat := 0
  deriving DecidableEq, Repr

/-- `std::map<int32_t, relevant_table_columns>` -/
abbrev RelIdRelevantColumns := List (Int × RelevantTableColumns)

def RelIdRelevantColumns.set (columns : RelIdRelevantColumns) (id : Int) (cols : RelevantTableColumns) :
    RelIdRelevantColumns :=
  assocSet columns id cols

def parseOp : Reader Fault Nat := readUnsigned 1

/-- The columns found so far and how many of them there are. -/
abbrev FoundColumns := RelevantTableColumns × Nat

def noteColumn (objectIdField : Text) (col : Nat) (found : FoundColumns) (columnName : Text) : FoundColumns :=
  if columnName = objectIdField then ({ found.1 with osmObjectColumn := col }, found.2 + 1)
  else if columnName = "changeset_id".toList then ({ found.1 with changesetColumn := col }, found.2 + 1)
  else if columnName = "version".toList then ({ found.1 with versionColumn := col }, found.2 + 1)
  else if columnName = "redaction_id".toList then ({ found.1 with redactionColumn := col }, found.2 + 1)
  else found

/-- The loop of `parse_op_relation` over the columns from `col` on. -/
def scanColumns (objectIdField : Text) : Nat → Nat → FoundColumns → Reader Fault FoundColumns
  | 0, _, found => return found
  | left + 1, col, found => do
    let _flags ← readSigned 1
    let columnName ← readString
    let _columnType ← readSigned 4
    let _typeModifier ← readSigned 4
    scanColumns objectIdField left (col + 1) (noteColumn objectIdField col found columnName)

/-- The type letter and the id column of a table. -/
def tableOf (relationName : Text) : Option (Char × Text) :=
  if relationName = "nodes".toList then some ('n', "node_id".toList)
  else if relationName = "ways".toList then some ('w', "way_id".toList)
  else if relationName = "relations".toList then some ('r', "relation_id".toList)
  else none

def unexpectedRelation (relationName : Text) (relationId : Int) : Fault :=
  .runtimeError ("pgoutput provided unexpected relation metadata for ".toList ++ relationName ++
    " (relation_id: ".toList ++ intText relationId ++ ")".toList)

def missingColumn (relationName : Text) : Fault :=
  .runtimeError ("Missing column in relation ".toList ++ relationName)

def missingMetadata (relationId : Int) : Fault :=
  .runtimeError ("Missing metadata for relation id ".toList ++ intText relationId)

def parseOpRelation (columns : RelIdRelevantColumns) : Reader Fault RelIdRelevantColumns := do
  let relationId ← readSigned 4
  let _ns ← readString
  let relationName ← readString
  let _replicaIdentity ← readSigned 1
  let numberOfColumns ← readUnsigned 2
  match tableOf relationName with
  | none => throw (unexpectedRelation relationName relationId)
  | some (objectType, objectIdField) =>
    let (cols, foundColumns) ← scanColumns objectIdField numberOfColumns 0 ({ relationName, objectType }, 0)
    if foundColumns ≠ 4 then throw (missingColumn relationName)
    else return columns.set relationId cols

/-- `*new_tuple[column]`: undefined outside the tuple and on an absent text. -/
def field (newTuple : List (Option Text)) (column : Nat) : Except Fault Text :=
  match newTuple[column]? with
  | some (some text) => .ok text
  | _ => .error .undefined

/-- `new_tuple[column].value_or("NULL")` -/
def fieldOrNull (newTuple : List (Option Text)) (column : Nat) : Except Fault Text :=
  match newTuple[column]? with
  | some text => .ok (text.getD "NULL".toList)
  | none => .error .undefined

def findColumns (columns : RelIdRelevantColumns) (relationId : Int) : Except Fault RelevantTableColumns :=
  match columns.lookup relationId with
  | some cols => .ok cols
  | none => .error (missingMetadata relationId)

def parseOpInsert (columns : RelIdRelevantColumns) : Reader Fault Text := do
  let relationId ← readSigned 4
  let _newTupleByte ← readUnsigned 1
  let newTuple ← readTupleData
  let cols ← findColumns columns relationId
  let id ← field newTuple cols.osmObjectColumn
  let version ← field newTuple cols.versionColumn
  let changeset ← field newTuple cols.changesetColumn
  return "N ".toList ++ cols.objectType :: id ++ " v".toList ++ version ++ " c".toList ++ changeset

/-- Skips key field and old tuple; the result is the byte in front of the new tuple. -/
def skipOldTuple (tupleByte : Nat) : Reader Fault Nat :=
  if tupleByte = 'K'.toNat ∨ tupleByte = 'O'.toNat then do
    let _ ← readTupleData
    readUnsigned 1
  else pure tupleByte

def expectNewTuple (tupleByte : Nat) : Reader Fault (List (Option Text)) :=
  if tupleByte ≠ 'N'.toNat then throw (.runtimeError "Update: expected N tuple byte".toList)
  else readTupleData

/-- `parse_op_update` from the new tuple on. -/
def parseUpdated (columns : RelIdRelevantColumns) (relationId : Int) (tupleByte : Nat) : Reader Fault Text := do
  let newTuple ← expectNewTuple tupleByte
  let cols ← findColumns columns relationId
  let id ← field newTuple cols.osmObjectColumn
  let version ← field newTuple cols.versionColumn
  let changeset ← field newTuple cols.changesetColumn
  let redaction ← fieldOrNull newTuple cols.redactionColumn
  return "R ".toList ++ cols.objectType :: id ++ " v".toList ++ version ++ " c".toList ++ changeset ++
    " ".toList ++ redaction

def parseOpUpdate (columns : RelIdRelevantColumns) : Reader Fault Text := do
  let relationId ← readSigned 4
  let tupleByte ← readUnsigned 1
  let tupleByte ← skipOldTuple tupleByte
  parseUpdated columns relationId tupleByte

end Pgoutput

end Osmdbt
