import Osmdbt.Pgoutput.Parser

/-! Protocol version 1 messages as pgoutput sends them, with their encoding, and
the log lines a transaction stands for. -/

namespace Osmdbt.Pgoutput

open General

inductive ColumnData where
  | null
  | unchanged
  | text (bytes : Bytes)
  deriving DecidableEq, Repr

abbrev TupleData := List ColumnData

structure RelationColumn where
  flags : Int8
  name : Bytes
  columnType : Int32
  typeModifier : Int32
  deriving DecidableEq, Repr

structure Relation where
  id : Int32
  ns : Bytes
  name : Bytes
  replicaIdentity : Int8
  columns : List RelationColumn
  deriving DecidableEq, Repr

/-- The byte in front of an old tuple. -/
inductive OldKind where
  | key
  | old
  deriving DecidableEq, Repr

/-- A message inside a transaction. -/
inductive Message where
  | relation (table : Relation)
  | insert (relationId : Int32) (newTuple : TupleData)
  | update (relationId : Int32) (oldTuple : Option (OldKind × TupleData)) (newTuple : TupleData)
  | other (op : UInt8) (payload : Bytes)
  deriving DecidableEq, Repr

def charByte (c : Char) : UInt8 := UInt8.ofNat c.toNat
def textBytes (text : Text) : Bytes := text.map charByte
def int32Bytes (value : Int32) : Bytes := toBigEndian 4 (fromSigned 4 value.toInt)
def int8Bytes (value : Int8) : Bytes := toBigEndian 1 (fromSigned 1 value.toInt)

def ColumnData.encode : ColumnData → Bytes
  | .null => [charByte 'n']
  | .unchanged => [charByte 'u']
  | .text bytes => charByte 't' :: toBigEndian 4 bytes.length ++ bytes

def encodeTuple (tuple : TupleData) : Bytes :=
  toBigEndian 2 tuple.length ++ tuple.flatMap ColumnData.encode

def RelationColumn.encode (column : RelationColumn) : Bytes :=
  int8Bytes column.flags ++ (column.name ++ [0]) ++ int32Bytes column.columnType ++ int32Bytes column.typeModifier

def OldKind.byte : OldKind → UInt8
  | .key => charByte 'K'
  | .old => charByte 'O'

def encodeOld : Option (OldKind × TupleData) → Bytes
  | none => []
  | some (kind, tuple) => kind.byte :: encodeTuple tuple

def Message.encode : Message → Bytes
  | .relation table =>
    charByte 'R' :: (int32Bytes table.id ++ (table.ns ++ [0]) ++ (table.name ++ [0]) ++
      int8Bytes table.replicaIdentity ++ toBigEndian 2 table.columns.length ++
      table.columns.flatMap RelationColumn.encode)
  | .insert relationId newTuple =>
    charByte 'I' :: (int32Bytes relationId ++ charByte 'N' :: encodeTuple newTuple)
  | .update relationId oldTuple newTuple =>
    charByte 'U' :: (int32Bytes relationId ++ encodeOld oldTuple ++ charByte 'N' :: encodeTuple newTuple)
  | .other op payload => op :: payload

def encodeBegin (payload : Bytes) : Bytes := charByte 'B' :: payload
def encodeCommit (payload : Bytes) : Bytes := charByte 'C' :: payload

def ColumnData.Fits : ColumnData → Prop
  | .text bytes => bytes.length < 2 ^ 31
  | _ => True

instance : DecidablePred ColumnData.Fits
  | .null => .isTrue trivial
  | .unchanged => .isTrue trivial
  | .text bytes => inferInstanceAs (Decidable (bytes.length < 2 ^ 31))

def TupleFits (tuple : TupleData) : Prop := tuple.length < 2 ^ 15 ∧ ∀ column ∈ tuple, column.Fits

instance (tuple : TupleData) : Decidable (TupleFits tuple) :=
  inferInstanceAs (Decidable (tuple.length < 2 ^ 15 ∧ ∀ column ∈ tuple, column.Fits))

structure Relation.Fits (relation : Relation) : Prop where
  ns : 0 ∉ relation.ns
  name : 0 ∉ relation.name
  columnNames : ∀ column ∈ relation.columns, 0 ∉ column.name
  columns : relation.columns.length < 2 ^ 16

def Message.Fits : Message → Prop
  | .relation table => table.Fits
  | .insert _ newTuple => TupleFits newTuple
  | .update _ oldTuple newTuple => (∀ old ∈ oldTuple, TupleFits old.2) ∧ TupleFits newTuple
  | .other op _ => op ∉ "BCRIU".toList.map charByte

/-- Type and column names of the tables announced so far. -/
abbrev Announced := Int32 → Option (ItemType × List Text)

def tableName : ItemType → Text
  | .node => "nodes".toList
  | .way => "ways".toList
  | .relation => "relations".toList

def idColumn : ItemType → Text
  | .node => "node_id".toList
  | .way => "way_id".toList
  | .relation => "relation_id".toList

/-- The columns a table must have. -/
def neededColumns (type : ItemType) : List Text :=
  [idColumn type, "changeset_id".toList, "version".toList, "redaction_id".toList]

def Relation.columnNames (relation : Relation) : List Text :=
  relation.columns.map (fun column => bytesText column.name)

/-- A relation message for one of the three tables with all needed columns. -/
structure Relation.Describes (relation : Relation) (type : ItemType) : Prop where
  table : bytesText relation.name = tableName type
  needed : ∀ name ∈ neededColumns type, name ∈ relation.columnNames

instance (relation : Relation) (type : ItemType) : Decidable (relation.Describes type) :=
  decidable_of_iff (bytesText relation.name = tableName type ∧ ∀ name ∈ neededColumns type,
    name ∈ relation.columnNames)
    ⟨fun both => ⟨both.1, both.2⟩, fun describes => ⟨describes.table, describes.needed⟩⟩

def Relation.type (relation : Relation) : Option ItemType :=
  [ItemType.node, ItemType.way, ItemType.relation].find? (fun type => relation.Describes type)

def announce (announced : Announced) : Message → Announced
  | .relation table => Function.update announced table.id (table.type.map (fun type => (type, table.columnNames)))
  | _ => announced

def ColumnData.value : ColumnData → Option Text
  | .text bytes => some (bytesText bytes)
  | _ => none

/-- The value of a column, by name. -/
def columnNamed (names : List Text) (tuple : TupleData) (name : Text) : Option Text :=
  ((names.zip tuple).lookup name).bind ColumnData.value

/-- `<t><id> v<version> c<changeset>` -/
def entryText (type : ItemType) (names : List Text) (tuple : TupleData) : Option Text := do
  let id ← columnNamed names tuple (idColumn type)
  let version ← columnNamed names tuple "version".toList
  let changeset ← columnNamed names tuple "changeset_id".toList
  return type.toChar :: id ++ " v".toList ++ version ++ " c".toList ++ changeset

def entryOf (announced : Announced) (relationId : Int32) (tuple : TupleData) : Option Text := do
  let (type, names) ← announced relationId
  entryText type names tuple

/-- The text of the redaction column, or `NULL`. -/
def redactionOf (announced : Announced) (relationId : Int32) (tuple : TupleData) : Text :=
  ((announced relationId).bind (fun table => columnNamed table.2 tuple "redaction_id".toList)).getD "NULL".toList

/-- What a message contributes to the log, without LSN and xid. -/
def Message.entry (announced : Announced) : Message → Option Text
  | .insert relationId newTuple => (entryOf announced relationId newTuple).map ("N ".toList ++ ·)
  | .update relationId _ newTuple => (entryOf announced relationId newTuple).map
      (fun entry => "R ".toList ++ entry ++ " ".toList ++ redactionOf announced relationId newTuple)
  | _ => none

/-- One entry per announced column, with text in the id, version and changeset columns. -/
def RowFits (announced : Announced) (relationId : Int32) (tuple : TupleData) : Prop :=
  ∃ type names, announced relationId = some (type, names) ∧ tuple.length = names.length ∧
    (entryText type names tuple).isSome

/-- A message that may follow the announcements made so far. -/
def Message.Usable (announced : Announced) : Message → Prop
  | .relation table => table.columnNames.Nodup
  | .insert relationId newTuple => RowFits announced relationId newTuple
  | .update relationId _ newTuple => RowFits announced relationId newTuple
  | .other _ _ => True

/-- A relation message, if it is one, describes one of the three tables. -/
def Message.Described : Message → Prop
  | .relation table => ∃ type, table.Describes type
  | _ => True

def Message.isInsert : Message → Bool
  | .insert _ _ => true
  | _ => false

def Message.isChange : Message → Bool
  | .insert _ _ => true
  | .update _ _ _ => true
  | _ => false

end Osmdbt.Pgoutput
