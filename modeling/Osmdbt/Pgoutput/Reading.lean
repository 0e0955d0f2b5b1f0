import Osmdbt.Pgoutput.Message

/-! The parser reads back what the encoding of a message puts into a row. -/

namespace Osmdbt.Pgoutput

open General

theorem take_reads (bytes : Bytes) : Reads (2 ^ 32) (take bytes.length) bytes bytes := by
  intro row offset rest short inside split
  have lengths := congrArg List.length split
  simp only [List.length_drop, List.length_append] at lengths
  have bound : offset + bytes.length ≤ row.length := by omega
  have wrap : (offset + bytes.length) % 2 ^ 32 = offset + bytes.length := Nat.mod_eq_of_lt (by omega)
  simp only [StateT.run, take, bound, ↓reduceIte, wrap, split, List.take_left]

theorem readUnsigned_reads {size n : Nat} (small : n < 256 ^ size) :
    Reads (2 ^ 32) (readUnsigned size) (toBigEndian size n) n := by
  have taken : Reads (2 ^ 32) (take size) (toBigEndian size n) (toBigEndian size n) := by
    simpa using take_reads (toBigEndian size n)
  have read := taken.map bigEndian
  rwa [bigEndian_toBigEndian, Nat.mod_eq_of_lt small] at read

theorem readSigned_reads {size : Nat} (positive : 0 < size) {z : Int}
    (range : -(256 ^ size / 2 : Nat) ≤ z ∧ z < (256 ^ size / 2 : Nat)) :
    Reads (2 ^ 32) (readSigned size) (toBigEndian size (fromSigned size z)) z := by
  have taken : Reads (2 ^ 32) (take size) (toBigEndian size (fromSigned size z))
      (toBigEndian size (fromSigned size z)) := by
    simpa using take_reads (toBigEndian size (fromSigned size z))
  have read := taken.map (fun bytes => asSigned size (bigEndian bytes))
  have small : fromSigned size z < 256 ^ size := by
    have below := Int.emod_lt_of_pos z (Int.natCast_pos.mpr (Nat.pow_pos (n := size) (show 0 < 256 by decide)))
    have above := Int.emod_nonneg z (Int.natCast_ne_zero.mpr (Nat.pow_pos (n := size) (show 0 < 256 by decide)).ne')
    unfold fromSigned
    omega
  rwa [bigEndian_toBigEndian, Nat.mod_eq_of_lt small, asSigned_fromSigned positive range] at read

theorem readInt32_reads (value : Int32) : Reads (2 ^ 32) (readSigned 4) (int32Bytes value) value.toInt :=
  readSigned_reads (by decide) ⟨by have := value.le_toInt; omega, by have := value.toInt_lt; omega⟩

theorem readInt8_reads (value : Int8) : Reads (2 ^ 32) (readSigned 1) (int8Bytes value) value.toInt :=
  readSigned_reads (by decide) ⟨by have := value.le_toInt; omega, by have := value.toInt_lt; omega⟩

theorem readByte_reads (byte : UInt8) : Reads (2 ^ 32) (readUnsigned 1) [byte] byte.toNat := by
  have read := readUnsigned_reads (show byte.toNat < 256 ^ 1 from byte.toNat_lt)
  simpa [toBigEndian] using read

/-- A number below half the range of its type reads the same with a sign. -/
theorem readSigned_nat_reads {size n : Nat} (positive : 0 < size) (small : n < 256 ^ size / 2) :
    Reads (2 ^ 32) (readSigned size) (toBigEndian size n) n := by
  have read := readSigned_reads positive (z := n) ⟨by omega, by omega⟩
  have same : fromSigned size n = n := by
    unfold fromSigned
    rw [← Int.natCast_emod, Int.toNat_natCast, Nat.mod_eq_of_lt (by omega)]
  rwa [same] at read

theorem readString_reads {bytes : Bytes} (noNul : 0 ∉ bytes) :
    Reads (2 ^ 32) readString (bytes ++ [0]) (bytesText bytes) := by
  intro row offset rest short inside split
  have lengths := congrArg List.length split
  simp only [List.length_drop, List.length_append, List.length_cons, List.length_nil] at lengths
  have string : (bytes ++ [0] ++ rest).takeWhile (· ≠ 0) = bytes := by
    rw [List.append_assoc, List.takeWhile_append_of_pos
      (fun byte member => by simpa using fun zero : byte = 0 => noNul (zero ▸ member))]
    simp
  have bound : offset + bytes.length < row.length := by omega
  have wrap : (offset + (bytes.length + 1)) % 2 ^ 32 = offset + (bytes.length + 1) :=
    Nat.mod_eq_of_lt (by omega)
  simp only [StateT.run, readString, split, string, bound, ↓reduceIte, wrap, List.length_append,
    List.length_cons, List.length_nil, Nat.zero_add]

private theorem readStringOf_reads {bytes : Bytes} (small : bytes.length < 2 ^ 31) :
    Reads (2 ^ 32) (readStringOf bytes.length) bytes (bytesText bytes) := by
  have same : fromSigned 4 bytes.length = bytes.length := by
    unfold fromSigned
    rw [← Int.natCast_emod, Int.toNat_natCast, Nat.mod_eq_of_lt (by omega)]
  rw [readStringOf, same]
  exact (take_reads bytes).map bytesText

private theorem readColumn_reads (column : ColumnData) (fits : column.Fits) :
    Reads (2 ^ 32) (readSigned 1 >>= readColumn) column.encode column.value := by
  have category (c : Char) (ascii : c.toNat < 128) : Reads (2 ^ 32) (readSigned 1) [charByte c] c.toNat := by
    have read := readSigned_nat_reads (show 0 < 1 by decide) (show c.toNat < 256 ^ 1 / 2 from ascii)
    simpa [toBigEndian, charByte] using read
  cases column with
  | null => exact (category 'n' (by decide)).bind (Reads.pure none)
  | unchanged => exact (category 'u' (by decide)).bind (Reads.pure none)
  | text bytes =>
    have length := readSigned_nat_reads (show 0 < 4 by decide) (show bytes.length < 256 ^ 4 / 2 from fits)
    exact (category 't' (by decide)).bind (length.bind ((readStringOf_reads fits).map some))

private theorem readColumns_reads (tuple : TupleData) (fits : ∀ column ∈ tuple, column.Fits) :
    Reads (2 ^ 32) (readColumns tuple.length) (tuple.flatMap ColumnData.encode) (tuple.map ColumnData.value) := by
  induction tuple with
  | nil => exact Reads.pure []
  | cons column rest ih =>
    have first := readColumn_reads column (fits column (by simp))
    have later := ih (fun other member => fits other (by simp [member]))
    have both : Reads (2 ^ 32)
        ((readSigned 1 >>= readColumn) >>= fun value => readColumns rest.length >>= fun values =>
          return value :: values)
        (column.encode ++ (rest.flatMap ColumnData.encode ++ []))
        (column.value :: rest.map ColumnData.value) :=
      first.bind (later.bind (Reads.pure _))
    rw [bind_assoc, List.append_nil] at both
    exact both

theorem readTupleData_reads {tuple : TupleData} (fits : TupleFits tuple) :
    Reads (2 ^ 32) readTupleData (encodeTuple tuple) (tuple.map ColumnData.value) := by
  have length := readSigned_nat_reads (show 0 < 2 by decide) (show tuple.length < 256 ^ 2 / 2 from fits.1)
  refine length.bind ?_
  simpa using readColumns_reads tuple fits.2

/-- The columns noted while a list of names is scanned. -/
def noteNames (objectIdField : Text) : Nat → FoundColumns → List Text → FoundColumns
  | _, found, [] => found
  | col, found, name :: rest => noteNames objectIdField (col + 1) (noteColumn objectIdField col found name) rest

theorem scanColumns_reads (objectIdField : Text) (columns : List RelationColumn)
    (noNul : ∀ column ∈ columns, 0 ∉ column.name) (col : Nat) (found : FoundColumns) :
    Reads (2 ^ 32) (scanColumns objectIdField columns.length col found)
      (columns.flatMap RelationColumn.encode)
      (noteNames objectIdField col found (columns.map (fun column => bytesText column.name))) := by
  induction columns generalizing col found with
  | nil => exact Reads.pure found
  | cons column rest ih =>
    have later := ih (fun other member => noNul other (by simp [member])) (col + 1)
      (noteColumn objectIdField col found (bytesText column.name))
    have bytes : (column :: rest).flatMap RelationColumn.encode = int8Bytes column.flags ++ ((column.name ++ [0]) ++
        (int32Bytes column.columnType ++ (int32Bytes column.typeModifier ++ rest.flatMap RelationColumn.encode))) := by
      simp [RelationColumn.encode]
    rw [bytes]
    refine (readInt8_reads column.flags).bind ?_
    refine (readString_reads (noNul column (by simp))).bind ?_
    exact (readInt32_reads column.columnType).bind ((readInt32_reads column.typeModifier).bind later)

section Columns

variable {objectIdField name : Text} {get : RelevantTableColumns → Nat}

private theorem noteNames_absent
    (notes : ∀ col found other, get (noteColumn objectIdField col found other).1 =
      if other = name then col else get found.1)
    {names : List Text} (absent : name ∉ names) (col : Nat) (found : FoundColumns) :
    get (noteNames objectIdField col found names).1 = get found.1 := by
  induction names generalizing col found with
  | nil => rfl
  | cons other rest ih =>
    obtain ⟨different, later⟩ := not_or.mp (fun member => absent (List.mem_cons.mpr member))
    rw [noteNames, ih later, notes, if_neg (Ne.symm different)]

/-- The column noted for a name is one that carries it. -/
private theorem noteNames_present
    (notes : ∀ col found other, get (noteColumn objectIdField col found other).1 =
      if other = name then col else get found.1)
    {names : List Text} (present : name ∈ names) (col : Nat) (found : FoundColumns) :
    ∃ i, names[i]? = some name ∧ get (noteNames objectIdField col found names).1 = col + i := by
  induction names generalizing col found with
  | nil => cases present
  | cons other rest ih =>
    by_cases later : name ∈ rest
    · obtain ⟨i, here, value⟩ := ih later (col + 1) (noteColumn objectIdField col found other)
      exact ⟨i + 1, by simpa using here, by rw [noteNames, value]; omega⟩
    · obtain rfl : name = other := by simpa [later] using present
      refine ⟨0, rfl, ?_⟩
      rw [noteNames, noteNames_absent notes later, notes, if_pos rfl, Nat.add_zero]

theorem noteNames_found (names : List Text) (col : Nat) (found : FoundColumns) :
    (noteNames objectIdField col found names).2 = found.2 + names.countP (fun name =>
      name ∈ [objectIdField, "changeset_id".toList, "version".toList, "redaction_id".toList]) := by
  induction names generalizing col found with
  | nil => rfl
  | cons name rest ih =>
    rw [noteNames, ih, List.countP_cons]
    unfold noteColumn
    generalize "changeset_id".toList = changeset, "version".toList = version, "redaction_id".toList = redaction
    split_ifs <;> simp_all <;> omega

private theorem noteNames_table (names : List Text) (col : Nat) (found : FoundColumns) :
    (noteNames objectIdField col found names).1.objectType = found.1.objectType := by
  induction names generalizing col found with
  | nil => rfl
  | cons name rest ih =>
    rw [noteNames, ih]
    unfold noteColumn
    split_ifs <;> rfl

end Columns

/-- What the parser knows about a table: its letter and where the needed columns are. -/
structure Located (cols : RelevantTableColumns) (type : ItemType) (names : List Text) : Prop where
  letter : cols.objectType = type.toChar
  id : names[cols.osmObjectColumn]? = some (idColumn type)
  changeset : names[cols.changesetColumn]? = some "changeset_id".toList
  version : names[cols.versionColumn]? = some "version".toList
  redaction : names[cols.redactionColumn]? = some "redaction_id".toList

private theorem tableOf_tableName (type : ItemType) :
    tableOf (tableName type) = some (type.toChar, idColumn type) := by
  cases type <;> decide

private theorem tableOf_some {name : Text} {letter : Char} {idField : Text}
    (found : tableOf name = some (letter, idField)) :
    ∃ type, name = tableName type ∧ idField = idColumn type := by
  unfold tableOf at found
  split_ifs at found with nodes ways relations
  · exact ⟨.node, nodes, (congrArg Prod.snd (Option.some.inj found)).symm⟩
  · exact ⟨.way, ways, (congrArg Prod.snd (Option.some.inj found)).symm⟩
  · exact ⟨.relation, relations, (congrArg Prod.snd (Option.some.inj found)).symm⟩

private theorem idColumn_fresh (type : ItemType) :
    idColumn type ≠ "changeset_id".toList ∧ idColumn type ≠ "version".toList ∧
      idColumn type ≠ "redaction_id".toList := by
  cases type <;> decide

private theorem neededColumns_nodup (type : ItemType) : (neededColumns type).Nodup := by
  cases type <;> decide

private theorem noteNames_located (type : ItemType) {names : List Text}
    (needed : ∀ name ∈ neededColumns type, name ∈ names)
    (relationName : Text) :
    Located (noteNames (idColumn type) 0 ({ relationName, objectType := type.toChar }, 0) names).1 type names := by
  obtain ⟨notChangeset, notVersion, notRedaction⟩ := idColumn_fresh type
  have present (get : RelevantTableColumns → Nat) (name : Text) (member : name ∈ neededColumns type)
      (notes : ∀ col found other, get (noteColumn (idColumn type) col found other).1 =
        if other = name then col else get found.1) :
      names[get (noteNames (idColumn type) 0 ({ relationName, objectType := type.toChar }, 0) names).1]? =
          some name := by
    obtain ⟨i, here, value⟩ := noteNames_present notes (needed name member) 0
      ({ relationName, objectType := type.toChar }, 0)
    rw [value, Nat.zero_add, here]
  refine ⟨noteNames_table _ _ _, ?_, ?_, ?_, ?_⟩
  · refine present RelevantTableColumns.osmObjectColumn _ (by simp [neededColumns]) (fun col found other => ?_)
    unfold noteColumn
    split_ifs <;> rfl
  · refine present RelevantTableColumns.changesetColumn _ (by simp [neededColumns]) (fun col found other => ?_)
    unfold noteColumn
    split_ifs with isId isChangeset
    · exact absurd (isId.symm.trans isChangeset) notChangeset
    all_goals rfl
  · refine present RelevantTableColumns.versionColumn _ (by simp [neededColumns]) (fun col found other => ?_)
    unfold noteColumn
    split_ifs with isId isVersion isChangeset isVersion
    · exact absurd (isId.symm.trans isVersion) notVersion
    · rfl
    · exact absurd (isChangeset.symm.trans isVersion) (by decide)
    all_goals rfl
  · refine present RelevantTableColumns.redactionColumn _ (by simp [neededColumns]) (fun col found other => ?_)
    unfold noteColumn
    split_ifs with isId isRedaction isChangeset isRedaction isVersion isRedaction
    · exact absurd (isId.symm.trans isRedaction) notRedaction
    · rfl
    · exact absurd (isChangeset.symm.trans isRedaction) (by decide)
    · rfl
    · exact absurd (isVersion.symm.trans isRedaction) (by decide)
    all_goals rfl

def Relation.payload (table : Relation) : Bytes :=
  int32Bytes table.id ++ (table.ns ++ [0]) ++ (table.name ++ [0]) ++ int8Bytes table.replicaIdentity ++
    toBigEndian 2 table.columns.length ++ table.columns.flatMap RelationColumn.encode

/-- A relation message with all needed columns is registered under its id. -/
theorem parseOpRelation_reads {table : Relation} {type : ItemType} (fits : table.Fits)
    (distinct : table.columnNames.Nodup) (describes : table.Describes type) (columns : RelIdRelevantColumns) :
    ∃ cols, Located cols type table.columnNames ∧
      Reads (2 ^ 32) (parseOpRelation columns) table.payload (columns.set table.id.toInt cols) := by
  refine ⟨_, noteNames_located type describes.needed (tableName type), ?_⟩
  have scanned := scanColumns_reads (idColumn type) table.columns fits.columnNames 0
    ({ relationName := tableName type, objectType := type.toChar }, 0)
  have four : (noteNames (idColumn type) 0 ({ relationName := tableName type, objectType := type.toChar }, 0)
      table.columnNames).2 = 4 := by
    rw [noteNames_found, Nat.zero_add, List.countP_eq_length_filter]
    have complete : (table.columnNames.filter (fun name => name ∈ neededColumns type)).Perm (neededColumns type) := by
      apply (List.perm_ext_iff_of_nodup (distinct.filter _) (neededColumns_nodup type)).mpr
      intro name
      simp only [List.mem_filter, decide_eq_true_eq]
      exact ⟨fun both => both.2, fun member => ⟨describes.needed name member, member⟩⟩
    exact complete.length_eq
  unfold Relation.payload
  simp only [List.append_assoc]
  refine (readInt32_reads table.id).bind ?_
  rw [← List.append_assoc table.ns]
  refine (readString_reads fits.ns).bind ?_
  rw [← List.append_assoc table.name]
  refine (readString_reads fits.name).bind ?_
  refine (readInt8_reads table.replicaIdentity).bind ?_
  refine (readUnsigned_reads fits.columns).bind ?_
  rw [describes.table]
  simp only [tableOf_tableName]
  have finish : Reads (2 ^ 32) (if (noteNames (idColumn type) 0
        ({ relationName := tableName type, objectType := type.toChar }, 0) table.columnNames).2 ≠ 4 then
        throw (missingColumn (tableName type))
      else return columns.set table.id.toInt (noteNames (idColumn type) 0
        ({ relationName := tableName type, objectType := type.toChar }, 0) table.columnNames).1 : Reader Fault _) []
      (columns.set table.id.toInt (noteNames (idColumn type) 0
        ({ relationName := tableName type, objectType := type.toChar }, 0) table.columnNames).1) := by
    rw [if_neg (not_not.mpr four)]
    exact Reads.pure _
  have both : Reads (2 ^ 32) (scanColumns (idColumn type) table.columns.length 0
        ({ relationName := tableName type, objectType := type.toChar }, 0) >>= fun found =>
      if found.2 ≠ 4 then throw (missingColumn (tableName type))
      else return columns.set table.id.toInt found.1)
      (table.columns.flatMap RelationColumn.encode ++ []) _ := scanned.bind finish
  rw [List.append_nil] at both
  exact both

/-- The end of `parse_op_relation`, with the table that was looked up. -/
def readRelevant (columns : RelIdRelevantColumns) (relationName : Text) (relationId : Int) (numberOfColumns : Nat) :
    Option (Char × Text) → Reader Fault RelIdRelevantColumns
  | none => throw (unexpectedRelation relationName relationId)
  | some (objectType, objectIdField) => do
    let (cols, foundColumns) ← scanColumns objectIdField numberOfColumns 0 ({ relationName, objectType }, 0)
    if foundColumns ≠ 4 then throw (missingColumn relationName)
    else return columns.set relationId cols

/-- A relation message that lacks a needed column, or is for another table, raises. -/
theorem parseOpRelation_rejects {table : Relation} (fits : table.Fits) (distinct : table.columnNames.Nodup)
    (other : ∀ type, ¬ table.Describes type) (columns : RelIdRelevantColumns) :
    ∃ what, Rejects (2 ^ 32) (parseOpRelation columns) table.payload (.runtimeError what) := by
  have header {fault : Fault} (body : Rejects (2 ^ 32) (readRelevant columns (bytesText table.name) table.id.toInt
      table.columns.length (tableOf (bytesText table.name))) (table.columns.flatMap RelationColumn.encode) fault) :
      Rejects (2 ^ 32) (parseOpRelation columns) table.payload fault := by
    unfold Relation.payload
    simp only [List.append_assoc]
    refine (readInt32_reads table.id).rejects ?_
    rw [← List.append_assoc table.ns]
    refine (readString_reads fits.ns).rejects ?_
    rw [← List.append_assoc table.name]
    refine (readString_reads fits.name).rejects ?_
    refine (readInt8_reads table.replicaIdentity).rejects ?_
    exact (readUnsigned_reads fits.columns).rejects body
  cases known : tableOf (bytesText table.name) with
  | none =>
    refine ⟨_, @header (unexpectedRelation (bytesText table.name) table.id.toInt) ?_⟩
    rw [known]
    intro row offset rest _ _ _
    rfl
  | some found =>
    obtain ⟨objectType, objectIdField⟩ := found
    refine ⟨_, @header (missingColumn (bytesText table.name)) ?_⟩
    rw [known]
    have scanned := scanColumns_reads objectIdField table.columns fits.columnNames 0
      ({ relationName := bytesText table.name, objectType }, 0)
    have missing : (noteNames objectIdField 0 ({ relationName := bytesText table.name, objectType }, 0)
        table.columnNames).2 ≠ 4 := by
      obtain ⟨type, name, rfl⟩ := tableOf_some known
      intro four
      rw [noteNames_found, Nat.zero_add, List.countP_eq_length_filter] at four
      have part : (table.columnNames.filter (fun name => name ∈ neededColumns type)).Subperm (neededColumns type) :=
        List.subperm_of_subset (distinct.filter _) (fun name member => by simpa using (List.mem_filter.mp member).2)
      have whole := part.perm_of_length_le (show (neededColumns type).length ≤ _ from four.ge)
      refine other type ⟨name, fun name member => ?_⟩
      exact (List.mem_filter.mp (whole.mem_iff.mpr member)).1
    have finish : Rejects (2 ^ 32) (if (noteNames objectIdField 0
          ({ relationName := bytesText table.name, objectType }, 0) table.columnNames).2 ≠ 4 then
          throw (missingColumn (bytesText table.name))
        else return columns.set table.id.toInt (noteNames objectIdField 0
          ({ relationName := bytesText table.name, objectType }, 0) table.columnNames).1 : Reader Fault _) []
        (missingColumn (bytesText table.name)) := by
      rw [if_pos missing]
      exact Rejects.throw _
    have both : Rejects (2 ^ 32) (scanColumns objectIdField table.columns.length 0
          ({ relationName := bytesText table.name, objectType }, 0) >>= fun found =>
        if found.2 ≠ 4 then throw (missingColumn (bytesText table.name))
        else return columns.set table.id.toInt found.1)
        (table.columns.flatMap RelationColumn.encode ++ []) (missingColumn (bytesText table.name)) :=
      scanned.rejects finish
    rw [List.append_nil] at both
    exact both

/-- The parser has located the columns of every announced table. -/
def Knows (announced : Announced) (columns : RelIdRelevantColumns) : Prop :=
  ∀ id type names, announced id = some (type, names) →
    names.Nodup ∧ ∃ cols, columns.lookup id.toInt = some cols ∧ Located cols type names

private theorem tableName_inj {type other : ItemType} (same : tableName type = tableName other) : type = other := by
  cases type <;> cases other <;> first | rfl | exact absurd same (by decide)

theorem Relation.type_eq {table : Relation} {type : ItemType} (describes : table.Describes type) :
    table.type = some type := by
  cases found : table.type with
  | none =>
    have absent := List.find?_eq_none.mp found type (by cases type <;> simp)
    simp [describes] at absent
  | some other =>
    have also : table.Describes other := by simpa using List.find?_some found
    rw [tableName_inj (also.table.symm.trans describes.table)]

theorem Knows.announce {announced : Announced} {columns : RelIdRelevantColumns} (knows : Knows announced columns)
    {table : Relation} {type : ItemType} (distinct : table.columnNames.Nodup) (describes : table.Describes type)
    {cols : RelevantTableColumns} (located : Located cols type table.columnNames) :
    Knows (announce announced (.relation table)) (columns.set table.id.toInt cols) := by
  intro id other names found
  by_cases same : id = table.id
  · subst same
    simp only [Pgoutput.announce, Relation.type_eq describes, Option.map_some, Function.update_self,
      Option.some.injEq, Prod.mk.injEq] at found
    obtain ⟨rfl, rfl⟩ := found
    exact ⟨distinct, cols, lookup_assocSet_self _ _ _, located⟩
  · simp only [Pgoutput.announce, ne_eq, same, not_false_eq_true, Function.update_of_ne] at found
    obtain ⟨distinct, known, stored, located⟩ := knows id other names found
    refine ⟨distinct, known, ?_, located⟩
    rw [RelIdRelevantColumns.set, lookup_assocSet_ne (fun equal => same (Int32.toInt_inj.mp equal))]
    exact stored

theorem columnNamed_eq {names : List Text} {tuple : TupleData} {name : Text} {i : Nat} (distinct : names.Nodup)
    (here : names[i]? = some name) (same : tuple.length = names.length) :
    columnNamed names tuple name = tuple[i]?.bind ColumnData.value := by
  unfold columnNamed
  induction names generalizing tuple i with
  | nil => simp at here
  | cons other rest ih =>
    obtain ⟨column, columns, rfl⟩ := List.exists_cons_of_length_eq_add_one same
    obtain ⟨fresh, later⟩ := List.nodup_cons.mp distinct
    cases i with
    | zero =>
      obtain rfl : other = name := by simpa using here
      simp
    | succ i =>
      have inside : name ∈ rest := List.mem_of_getElem? (by simpa using here)
      have test : (name == other) = false :=
        beq_eq_false_iff_ne.mpr (fun equal => fresh (equal ▸ inside))
      simpa [List.lookup_cons, test] using ih later (by simpa using here) (by simpa using same)

theorem field_of_columnNamed {names : List Text} {tuple : TupleData} {name : Text} {i : Nat} {text : Text}
    (distinct : names.Nodup) (here : names[i]? = some name) (same : tuple.length = names.length)
    (value : columnNamed names tuple name = some text) : field (tuple.map ColumnData.value) i = .ok text := by
  rw [columnNamed_eq distinct here same] at value
  cases column : tuple[i]? with
  | none => simp [column] at value
  | some data =>
    have found : data.value = some text := by simpa [column] using value
    simp [field, column, found]

private theorem fieldOrNull_eq {names : List Text} {tuple : TupleData} {name : Text} {i : Nat}
    (distinct : names.Nodup) (here : names[i]? = some name) (same : tuple.length = names.length) :
    fieldOrNull (tuple.map ColumnData.value) i = .ok ((columnNamed names tuple name).getD "NULL".toList) := by
  rw [columnNamed_eq distinct here same]
  have inside : i < tuple.length := same ▸ (List.getElem?_eq_some_iff.mp here).1
  simp [fieldOrNull, List.getElem?_eq_getElem inside]

/-- The three fields of an entry, as the parser picks them out of the tuple. -/
theorem entry_fields {type : ItemType} {names : List Text} {tuple : TupleData} {cols : RelevantTableColumns}
    {entry : Text} (distinct : names.Nodup) (located : Located cols type names)
    (same : tuple.length = names.length) (found : entryText type names tuple = some entry) :
    ∃ id version changeset, field (tuple.map ColumnData.value) cols.osmObjectColumn = .ok id ∧
      field (tuple.map ColumnData.value) cols.versionColumn = .ok version ∧
      field (tuple.map ColumnData.value) cols.changesetColumn = .ok changeset ∧
      entry = cols.objectType :: id ++ " v".toList ++ version ++ " c".toList ++ changeset := by
  unfold entryText at found
  cases idValue : columnNamed names tuple (idColumn type) with
  | none => simp [idValue] at found
  | some id =>
    cases versionValue : columnNamed names tuple "version".toList with
    | none => simp only [idValue, versionValue, bind, Option.bind, reduceCtorEq] at found
    | some version =>
      cases changesetValue : columnNamed names tuple "changeset_id".toList with
      | none => simp only [idValue, versionValue, changesetValue, bind, Option.bind, reduceCtorEq] at found
      | some changeset =>
        simp only [idValue, versionValue, changesetValue, bind, Option.bind, pure, Option.some.injEq] at found
        refine ⟨id, version, changeset, field_of_columnNamed distinct located.id same idValue,
          field_of_columnNamed distinct located.version same versionValue,
          field_of_columnNamed distinct located.changeset same changesetValue, ?_⟩
        rw [← found, located.letter]

theorem parseOpInsert_reads {announced : Announced} {columns : RelIdRelevantColumns} (knows : Knows announced columns)
    {relationId : Int32} {tuple : TupleData} (fits : TupleFits tuple) (row : RowFits announced relationId tuple) :
    ∃ entry, entryOf announced relationId tuple = some entry ∧
      Reads (2 ^ 32) (parseOpInsert columns) (int32Bytes relationId ++ charByte 'N' :: encodeTuple tuple)
        ("N ".toList ++ entry) := by
  obtain ⟨type, names, found, same, some'⟩ := row
  obtain ⟨entry, entryEq⟩ := Option.isSome_iff_exists.mp some'
  obtain ⟨distinct, cols, stored, located⟩ := knows relationId type names found
  have entered : entryOf announced relationId tuple = some entry := by
    rw [entryOf, found]
    exact entryEq
  obtain ⟨id, version, changeset, idEq, versionEq, changesetEq, rfl⟩ := entry_fields distinct located same entryEq
  have looked : findColumns columns relationId.toInt = .ok cols := by simp [findColumns, stored]
  refine ⟨_, entered, ?_⟩
  rw [← List.append_nil (encodeTuple tuple)]
  refine (readInt32_reads relationId).bind ?_
  refine (readByte_reads (charByte 'N')).bind ?_
  refine (readTupleData_reads fits).bind ?_
  exact (Reads.lift looked).bind ((Reads.lift idEq).bind ((Reads.lift versionEq).bind
    ((Reads.lift changesetEq).bind (Reads.pure _))))

private theorem skipOldTuple_reads {oldTuple : Option (OldKind × TupleData)}
    (fits : ∀ old ∈ oldTuple, TupleFits old.2) :
    Reads (2 ^ 32) (readUnsigned 1 >>= skipOldTuple) (encodeOld oldTuple ++ [charByte 'N']) 'N'.toNat := by
  have last := readByte_reads (charByte 'N')
  cases oldTuple with
  | none => exact last.bind (Reads.pure _)
  | some old =>
    obtain ⟨kind, tuple⟩ := old
    have first := readByte_reads kind.byte
    have skipped : Reads (2 ^ 32) (skipOldTuple kind.byte.toNat) (encodeTuple tuple ++ [charByte 'N']) 'N'.toNat := by
      have marked : kind.byte.toNat = 'K'.toNat ∨ kind.byte.toNat = 'O'.toNat := by
        cases kind <;> decide
      rw [skipOldTuple, if_pos marked]
      exact (readTupleData_reads (fits (kind, tuple) rfl)).bind last
    exact first.bind skipped

theorem parseOpUpdate_reads {announced : Announced} {columns : RelIdRelevantColumns} (knows : Knows announced columns)
    {relationId : Int32} {oldTuple : Option (OldKind × TupleData)} {tuple : TupleData}
    (oldFits : ∀ old ∈ oldTuple, TupleFits old.2) (fits : TupleFits tuple)
    (row : RowFits announced relationId tuple) :
    ∃ entry, entryOf announced relationId tuple = some entry ∧
      Reads (2 ^ 32) (parseOpUpdate columns)
        (int32Bytes relationId ++ encodeOld oldTuple ++ charByte 'N' :: encodeTuple tuple)
        ("R ".toList ++ entry ++ " ".toList ++ redactionOf announced relationId tuple) := by
  obtain ⟨type, names, found, same, some'⟩ := row
  obtain ⟨entry, entryEq⟩ := Option.isSome_iff_exists.mp some'
  obtain ⟨distinct, cols, stored, located⟩ := knows relationId type names found
  have entered : entryOf announced relationId tuple = some entry := by
    rw [entryOf, found]
    exact entryEq
  have redacted : redactionOf announced relationId tuple =
      (columnNamed names tuple "redaction_id".toList).getD "NULL".toList := by
    rw [redactionOf, found]
    rfl
  obtain ⟨id, version, changeset, idEq, versionEq, changesetEq, rfl⟩ := entry_fields distinct located same entryEq
  have looked : findColumns columns relationId.toInt = .ok cols := by simp [findColumns, stored]
  refine ⟨_, entered, ?_⟩
  have bytes : int32Bytes relationId ++ encodeOld oldTuple ++ charByte 'N' :: encodeTuple tuple =
      int32Bytes relationId ++ ((encodeOld oldTuple ++ [charByte 'N']) ++ (encodeTuple tuple ++ [])) := by simp
  rw [bytes, redacted]
  refine (readInt32_reads relationId).bind ?_
  have updated : Reads (2 ^ 32) (parseUpdated columns relationId.toInt 'N'.toNat) (encodeTuple tuple ++ []) _ :=
    (readTupleData_reads fits).bind ((Reads.lift looked).bind ((Reads.lift idEq).bind ((Reads.lift versionEq).bind
      ((Reads.lift changesetEq).bind ((Reads.lift (fieldOrNull_eq distinct located.redaction same)).bind
        (Reads.pure _))))))
  have both : Reads (2 ^ 32) ((readUnsigned 1 >>= skipOldTuple) >>= parseUpdated columns relationId.toInt)
      ((encodeOld oldTuple ++ [charByte 'N']) ++ (encodeTuple tuple ++ [])) _ :=
    (skipOldTuple_reads oldFits).bind updated
  rwa [bind_assoc] at both

end Osmdbt.Pgoutput
