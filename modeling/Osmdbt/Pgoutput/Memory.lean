import Osmdbt.Pgoutput.Reading

/-! Where the parser stays inside its row: exactly on the rows that hold everything their
own counts and lengths announce, with text in the columns that are used. -/

namespace Osmdbt.Pgoutput

open General

/-- The number in `size` bytes of the row. -/
def number (row : Bytes) (offset size : Nat) : Nat := bigEndian ((row.drop offset).take size)

/-- The offset behind so many bytes; it has 32 bits. -/
def behind (offset size : Nat) : Nat := (offset + size) % 2 ^ 32

def NumberAt {α : Type} (size : Nat) (meaning : Nat → α) : Layout α := fun row offset value last =>
  offset + size ≤ row.length ∧ value = meaning (number row offset size) ∧ last = behind offset size

/-- A string with its NUL inside the row. -/
inductive StringAt (row : Bytes) (offset : Nat) : Text → Nat → Prop
  | nul {bytes rest : Bytes} : row.drop offset = bytes ++ 0 :: rest → 0 ∉ bytes →
      StringAt row offset (bytesText bytes) (behind offset (bytes.length + 1))

/-- A text with its length in front of it. -/
inductive TextAt (row : Bytes) (offset : Nat) : Text → Nat → Prop
  | length {length : Nat} : offset + 4 ≤ row.length → length = number row offset 4 →
      behind offset 4 + length ≤ row.length →
      TextAt row offset (bytesText ((row.drop (behind offset 4)).take length)) (behind (behind offset 4) length)

/-- A column of a tuple: only the category `t` has a text. -/
inductive ColumnAt (row : Bytes) (offset : Nat) : Option Text → Nat → Prop
  | absent : offset + 1 ≤ row.length → number row offset 1 ≠ 't'.toNat → ColumnAt row offset none (behind offset 1)
  | text {text : Text} {last : Nat} : offset + 1 ≤ row.length → number row offset 1 = 't'.toNat →
      TextAt row (behind offset 1) text last → ColumnAt row offset (some text) last

inductive ColumnsAt (row : Bytes) : Nat → Nat → List (Option Text) → Nat → Prop
  | none (offset : Nat) : ColumnsAt row 0 offset [] offset
  | column {n offset middle last : Nat} {column : Option Text} {columns : List (Option Text)} :
      ColumnAt row offset column middle → ColumnsAt row n middle columns last →
      ColumnsAt row (n + 1) offset (column :: columns) last

/-- A tuple: a number of columns, none for a negative one, and then the columns. -/
def TupleAt (row : Bytes) (offset : Nat) (columns : List (Option Text)) (last : Nat) : Prop :=
  offset + 2 ≤ row.length ∧ ColumnsAt row (asSigned 2 (number row offset 2)).toNat (behind offset 2) columns last

/-- The columns of a relation message, each with flags, name, type and type modifier. -/
inductive RelationColumnsAt (row : Bytes) : Nat → Nat → Prop
  | none (offset : Nat) : RelationColumnsAt row 0 offset
  | column {n offset last : Nat} {name : Text} : offset + 1 ≤ row.length → StringAt row (behind offset 1) name last →
      last + 4 ≤ row.length → behind last 4 + 4 ≤ row.length → RelationColumnsAt row n (behind (behind last 4) 4) →
      RelationColumnsAt row (n + 1) offset

theorem take_layout (size : Nat) : ReadsLayout Fault.undefined (take size) (fun row offset value last =>
    offset + size ≤ row.length ∧ value = (row.drop offset).take size ∧ last = behind offset size) where
  sound := by
    rintro row offset _ _ ⟨inside, rfl, rfl⟩
    exact if_pos inside
  complete row offset safe := by
    by_cases inside : offset + size ≤ row.length
    · exact ⟨_, _, inside, rfl, rfl⟩
    · exact absurd (if_neg inside) safe

theorem map_layout {α β : Type} {ε : Type} {bad : ε} {reader : Reader ε α} {layout : Layout α}
    (reads : ReadsLayout bad reader layout)
    (meaning : α → β) : ReadsLayout bad (meaning <$> reader)
      (fun row offset result last => ∃ value, layout row offset value last ∧ result = meaning value) := by
  rw [map_eq_pure_bind]
  refine (reads.bind (fun value => .pure (meaning value))).congr (fun row offset result last => ?_)
  constructor
  · rintro ⟨value, here, rfl⟩
    exact ⟨value, last, here, rfl, rfl⟩
  · rintro ⟨value, middle, here, rfl, rfl⟩
    exact ⟨value, here, rfl⟩

private theorem readUnsigned_layout (size : Nat) :
    ReadsLayout Fault.undefined (readUnsigned size) (NumberAt size id) := by
  refine (map_layout (take_layout size) bigEndian).congr (fun row offset value last => ?_)
  constructor
  · rintro ⟨inside, rfl, rfl⟩
    exact ⟨_, ⟨inside, rfl, rfl⟩, rfl⟩
  · rintro ⟨_, ⟨inside, rfl, rfl⟩, rfl⟩
    exact ⟨inside, rfl, rfl⟩

theorem readSigned_layout (size : Nat) : ReadsLayout Fault.undefined (readSigned size)
    (NumberAt size (asSigned size)) := by
  refine (map_layout (take_layout size) (fun bytes => asSigned size (bigEndian bytes))).congr
    (fun row offset value last => ?_)
  constructor
  · rintro ⟨inside, rfl, rfl⟩
    exact ⟨_, ⟨inside, rfl, rfl⟩, rfl⟩
  · rintro ⟨_, ⟨inside, rfl, rfl⟩, rfl⟩
    exact ⟨inside, rfl, rfl⟩

theorem readString_layout : ReadsLayout Fault.undefined readString StringAt where
  sound := by
    rintro row offset _ _ ⟨split, noNul⟩
    rename_i bytes rest
    have lengths := congrArg List.length split
    simp only [List.length_drop, List.length_append, List.length_cons] at lengths
    have string : (bytes ++ 0 :: rest).takeWhile (· ≠ 0) = bytes := by
      rw [List.takeWhile_append_of_pos
        (fun byte member => by simpa using fun zero : byte = 0 => noNul (zero ▸ member))]
      simp
    have inside : offset + bytes.length < row.length := by omega
    simp only [StateT.run, readString, split, string, inside, ↓reduceIte, behind]
  complete row offset safe := by
    by_cases inside : offset + ((row.drop offset).takeWhile (· ≠ 0)).length < row.length
    · obtain ⟨c, rest, left⟩ := List.exists_cons_of_ne_nil (show (row.drop offset).dropWhile (· ≠ 0) ≠ [] by
        intro none
        have whole := congrArg List.length (List.takeWhile_append_dropWhile (p := (· ≠ 0)) (l := row.drop offset))
        rw [none, List.append_nil, List.length_drop] at whole
        omega)
      have zero : c = 0 := by
        have stop := List.head?_dropWhile_not (· ≠ 0) (row.drop offset)
        rw [left] at stop
        simpa using stop
      subst zero
      have split : row.drop offset = (row.drop offset).takeWhile (· ≠ 0) ++ 0 :: rest := by
        rw [← left, List.takeWhile_append_dropWhile]
      have noNul : 0 ∉ (row.drop offset).takeWhile (· ≠ 0) :=
        fun member => by simpa using List.mem_takeWhile_imp member
      exact ⟨_, _, .nul split noNul⟩
    · exact absurd (if_neg inside) safe

theorem number_lt (row : Bytes) (offset size : Nat) : number row offset size < 256 ^ size := by
  have bound (bytes : Bytes) : bigEndian bytes < 256 ^ bytes.length := by
    induction bytes using List.reverseRecOn with
    | nil => exact Nat.one_pos
    | append_singleton bytes byte ih =>
      have here := byte.toNat_lt
      have step : bigEndian (bytes ++ [byte]) = bigEndian bytes * 256 + byte.toNat := List.foldl_append
      rw [step, List.length_append, List.length_singleton, Nat.pow_succ]
      omega
  refine lt_of_lt_of_le (bound _) (Nat.pow_le_pow_right (by decide) ?_)
  rw [List.length_take]
  exact Nat.min_le_left _ _

/-- A length is read with a sign and used without one. -/
private theorem fromSigned_asSigned {n : Nat} (small : n < 256 ^ 4) : fromSigned 4 (asSigned 4 n) = n := by
  unfold fromSigned asSigned
  split <;> omega

/-- The category is a signed byte, which does not matter for a letter. -/
theorem category_iff {row : Bytes} {offset : Nat} :
    asSigned 1 (number row offset 1) = 't'.toNat ↔ number row offset 1 = 't'.toNat := by
  have small := number_lt row offset 1
  have letter : 't'.toNat = 116 := by decide
  unfold asSigned
  rw [letter]
  split <;> omega

private theorem readText_layout :
    ReadsLayout Fault.undefined (readSigned 4 >>= fun colLength => some <$> readStringOf colLength)
    (fun row offset value last => ∃ text, value = some text ∧ TextAt row offset text last) := by
  have string (colLength : Int) := map_layout (map_layout (take_layout (fromSigned 4 colLength)) bytesText) some
  refine ((readSigned_layout 4).bind string).congr (fun row offset value last => ?_)
  have same := fromSigned_asSigned (number_lt row offset 4)
  constructor
  · rintro ⟨_, rfl, inside, rfl, inside'⟩
    exact ⟨_, _, ⟨inside, rfl, rfl⟩, _, ⟨_, ⟨by rwa [same], rfl, by rw [same]⟩, rfl⟩, by rw [same]⟩
  · rintro ⟨_, _, ⟨inside, rfl, rfl⟩, _, ⟨_, ⟨inside', rfl, rfl⟩, rfl⟩, rfl⟩
    rw [same] at inside' ⊢
    exact ⟨_, rfl, .length inside rfl inside'⟩

private theorem readColumn_layout : ReadsLayout Fault.undefined (readSigned 1 >>= readColumn) ColumnAt := by
  have column (category : Int) : ReadsLayout Fault.undefined (readColumn category) (fun row offset value last =>
      if category = 't'.toNat then ∃ text, value = some text ∧
          TextAt row offset text last else value = none ∧ last = offset) := by
    unfold readColumn
    split
    · exact readText_layout
    · exact .pure none
  refine ((readSigned_layout 1).bind column).congr (fun row offset value last => ?_)
  constructor
  · intro here
    cases here with
    | absent inside other =>
      exact ⟨_, _, ⟨inside, rfl, rfl⟩, by rw [if_neg (mt category_iff.mp other)]; exact ⟨rfl, rfl⟩⟩
    | text inside letter there =>
      exact ⟨_, _, ⟨inside, rfl, rfl⟩, by rw [if_pos (category_iff.mpr letter)]; exact ⟨_, rfl, there⟩⟩
  · rintro ⟨_, _, ⟨inside, rfl, rfl⟩, there⟩
    split at there
    · rename_i letter
      obtain ⟨_, rfl, there⟩ := there
      exact .text inside (category_iff.mp letter) there
    · rename_i other
      obtain ⟨rfl, rfl⟩ := there
      exact .absent inside (mt category_iff.mpr other)

private theorem readColumns_layout (n : Nat) :
    ReadsLayout Fault.undefined (readColumns n) (fun row offset => ColumnsAt row n offset) := by
  induction n with
  | zero =>
    refine (ReadsLayout.pure []).congr (fun row offset columns last => ⟨fun here => ?_, ?_⟩)
    · cases here
      exact ⟨rfl, rfl⟩
    · rintro ⟨rfl, rfl⟩
      exact .none _
  | succ n ih =>
    have split : readColumns (n + 1) = (readSigned 1 >>= readColumn) >>= fun column =>
        readColumns n >>= fun rest => pure (column :: rest) := by
      rw [bind_assoc]
      rfl
    rw [split]
    refine (readColumn_layout.bind (fun column => ih.bind (fun rest => .pure (column :: rest)))).congr
      (fun row offset columns last => ⟨fun here => ?_, ?_⟩)
    · cases here with
      | column first rest => exact ⟨_, _, first, _, _, rest, rfl, rfl⟩
    · rintro ⟨_, _, first, _, _, rest, rfl, rfl⟩
      exact .column first rest

theorem readTupleData_layout : ReadsLayout Fault.undefined readTupleData TupleAt := by
  refine ((readSigned_layout 2).bind (fun nColumns => readColumns_layout nColumns.toNat)).congr
    (fun row offset columns last => ?_)
  constructor
  · rintro ⟨inside, rest⟩
    exact ⟨_, _, ⟨inside, rfl, rfl⟩, rest⟩
  · rintro ⟨_, _, ⟨inside, rfl, rfl⟩, rest⟩
    exact ⟨inside, rest⟩

/-- `parse_op` and then the parser for the message. -/
def afterOp {α : Type} (parse : Reader Fault α) : Reader Fault α := parseOp >>= fun _ => parse

/-- No read outside the row, no column outside the tuple, no use of a text that is not there. -/
def MemoryCorrect {α : Type} (parse : Reader Fault α) (row : Bytes) : Prop :=
  (afterOp parse).run ⟨row, 0⟩ ≠ .error .undefined

instance {α : Type} [DecidableEq α] (parse : Reader Fault α) (row : Bytes) : Decidable (MemoryCorrect parse row) :=
  inferInstanceAs (Decidable ((afterOp parse).run ⟨row, 0⟩ ≠ .error .undefined))

/-- A relation message that is complete, as far as it is read. -/
def CompleteRelation (row : Bytes) : Prop :=
  5 ≤ row.length ∧ ∃ ns first name last, StringAt row 5 ns first ∧ StringAt row first name last ∧
    last + 1 ≤ row.length ∧
    behind last 1 + 2 ≤ row.length ∧
    (tableOf name ≠ none → RelationColumnsAt row (number row (behind last 1) 2) (behind (behind last 1) 2))

def HasText (tuple : List (Option Text)) (column : Nat) : Prop := ∃ text, tuple[column]? = some (some text)

/-- The columns that are used without asking are there and have a text. -/
def Usable (columns : RelIdRelevantColumns) (row : Bytes) (tuple : List (Option Text)) : Prop :=
  ∀ cols, columns.lookup (asSigned 4 (number row 1 4)) = some cols →
    HasText tuple cols.osmObjectColumn ∧ HasText tuple cols.versionColumn ∧ HasText tuple cols.changesetColumn

/-- An insert message with a complete tuple. -/
def CompleteInsert (columns : RelIdRelevantColumns) (row : Bytes) : Prop :=
  6 ≤ row.length ∧ ∃ tuple last, TupleAt row 6 tuple last ∧ Usable columns row tuple

/-- The byte in front of the new tuple, behind the old one if there is one. -/
inductive NewTupleByte (row : Bytes) : Nat → Nat → Prop
  | new : number row 5 1 ≠ 'K'.toNat → number row 5 1 ≠ 'O'.toNat → NewTupleByte row (number row 5 1) 6
  | old {tuple : List (Option Text)} {last : Nat} : number row 5 1 = 'K'.toNat ∨ number row 5 1 = 'O'.toNat →
      TupleAt row 6 tuple last → last + 1 ≤ row.length → NewTupleByte row (number row last 1) (behind last 1)

/-- An update message with complete tuples; the redaction column only has to be there. -/
def CompleteUpdate (columns : RelIdRelevantColumns) (row : Bytes) : Prop :=
  6 ≤ row.length ∧ ∃ byte offset, NewTupleByte row byte offset ∧
    (byte = 'N'.toNat → ∃ tuple last, TupleAt row offset tuple last ∧ Usable columns row tuple ∧
      ∀ cols, columns.lookup (asSigned 4 (number row 1 4)) = some cols → cols.redactionColumn < tuple.length)

section Safe

variable {α β : Type} {row : Bytes} {offset : Nat}

theorem safe_unsigned {size : Nat} {next : Nat → Reader Fault α} :
    (readUnsigned size >>= next).run ⟨row, offset⟩ ≠ .error .undefined ↔ offset + size ≤ row.length ∧
      (next (number row offset size)).run ⟨row, behind offset size⟩ ≠ .error .undefined := by
  rw [(readUnsigned_layout size).safe_bind]
  constructor
  · rintro ⟨_, _, ⟨inside, rfl, rfl⟩, safe⟩
    exact ⟨inside, safe⟩
  · rintro ⟨inside, safe⟩
    exact ⟨_, _, ⟨inside, rfl, rfl⟩, safe⟩

theorem safe_signed {size : Nat} {next : Int → Reader Fault α} :
    (readSigned size >>= next).run ⟨row, offset⟩ ≠ .error .undefined ↔ offset + size ≤ row.length ∧
      (next (asSigned size (number row offset size))).run ⟨row, behind offset size⟩ ≠ .error .undefined := by
  rw [(readSigned_layout size).safe_bind]
  constructor
  · rintro ⟨_, _, ⟨inside, rfl, rfl⟩, safe⟩
    exact ⟨inside, safe⟩
  · rintro ⟨inside, safe⟩
    exact ⟨_, _, ⟨inside, rfl, rfl⟩, safe⟩

theorem safe_lift {result : Except Fault α} {next : α → Reader Fault β} {c : Cursor} :
    ((liftM result : Reader Fault α) >>= next).run c ≠ .error .undefined ↔
      result ≠ .error .undefined ∧ ∀ value, result = .ok value → (next value).run c ≠ .error .undefined := by
  cases result with
  | error fault =>
    have run : ((liftM (Except.error fault : Except Fault α) : Reader Fault α) >>= next).run c = .error fault := rfl
    rw [run]
    simp
  | ok value =>
    have run : ((liftM (Except.ok value : Except Fault α) : Reader Fault α) >>= next).run c = (next value).run c := rfl
    rw [run]
    simp

private theorem safe_field {tuple : List (Option Text)} {column : Nat} {next : Text → Reader Fault α} {c : Cursor} :
    ((liftM (field tuple column) : Reader Fault Text) >>= next).run c ≠ .error .undefined ↔
      ∃ text, tuple[column]? = some (some text) ∧ (next text).run c ≠ .error .undefined := by
  rw [safe_lift, field]
  split
  · rename_i text here
    simp [here]
  · rename_i other
    refine iff_of_false (fun both => both.1 rfl) ?_
    rintro ⟨text, here, _⟩
    exact other text here

private theorem findColumns_ok {columns : RelIdRelevantColumns} {relationId : Int} {cols : RelevantTableColumns} :
    findColumns columns relationId = .ok cols ↔ columns.lookup relationId = some cols := by
  unfold findColumns
  cases columns.lookup relationId with
  | none => simp
  | some other => simp

private theorem findColumns_defined (columns : RelIdRelevantColumns) (relationId : Int) :
    findColumns columns relationId ≠ .error .undefined := by
  unfold findColumns
  cases columns.lookup relationId with
  | none => rintro ⟨⟩
  | some other => rintro ⟨⟩

private theorem scanColumns_safe {objectIdField : Text} {n col : Nat} {found : FoundColumns} :
    (scanColumns objectIdField n col found).run ⟨row, offset⟩ ≠ .error .undefined ↔
      RelationColumnsAt row n offset := by
  induction n generalizing col found offset with
  | zero => exact iff_of_true (by rintro ⟨⟩) (.none offset)
  | succ n ih =>
    rw [scanColumns, safe_signed, readString_layout.safe_bind]
    constructor
    · rintro ⟨inside, _, _, name, safe⟩
      rw [safe_signed, safe_signed, ih] at safe
      exact .column inside name safe.1 safe.2.1 safe.2.2
    · intro here
      cases here with
      | column inside name typed modified rest =>
        refine ⟨inside, _, _, name, ?_⟩
        rw [safe_signed, safe_signed, ih]
        exact ⟨typed, modified, rest⟩

theorem readRelevant_safe {columns : RelIdRelevantColumns} {name : Text} {id : Int} {n : Nat}
    {table : Option (Char × Text)} :
    (readRelevant columns name id n table).run ⟨row, offset⟩ ≠ .error .undefined ↔
      (table ≠ none → RelationColumnsAt row n offset) := by
  cases table with
  | none => exact iff_of_true (by rintro ⟨⟩) (fun wrong => absurd rfl wrong)
  | some table =>
    rw [readRelevant, safe_bind_of_safe, scanColumns_safe]
    · exact ⟨fun here _ => here, fun here => here (by simp)⟩
    · rintro ⟨cols, foundColumns⟩ c
      change (if foundColumns ≠ 4 then throw (missingColumn name) else pure (columns.set id cols) :
        Reader Fault _).run c ≠ _
      split <;> rintro ⟨⟩

private theorem parseOpRelation_eq (columns : RelIdRelevantColumns) : parseOpRelation columns = (do
    let relationId ← readSigned 4
    let _ns ← readString
    let relationName ← readString
    let _replicaIdentity ← readSigned 1
    let numberOfColumns ← readUnsigned 2
    readRelevant columns relationName relationId numberOfColumns (tableOf relationName)) := rfl

private theorem parseOpRelation_safe (columns : RelIdRelevantColumns) :
    MemoryCorrect (parseOpRelation columns) row ↔ CompleteRelation row := by
  unfold MemoryCorrect afterOp parseOp
  rw [parseOpRelation_eq, safe_unsigned, safe_signed, readString_layout.safe_bind]
  constructor
  · rintro ⟨_, inside, ns, first, nsAt, safe⟩
    obtain ⟨name, last, nameAt, safe'⟩ := readString_layout.safe_bind.mp safe
    rw [safe_signed, safe_unsigned, readRelevant_safe] at safe'
    exact ⟨inside, ns, first, name, last, nsAt, nameAt, safe'⟩
  · rintro ⟨inside, ns, first, name, last, nsAt, nameAt, rest⟩
    refine ⟨by omega, inside, ns, first, nsAt, readString_layout.safe_bind.mpr ⟨name, last, nameAt, ?_⟩⟩
    rw [safe_signed, safe_unsigned, readRelevant_safe]
    exact rest

theorem usable_iff {columns : RelIdRelevantColumns} {tuple : List (Option Text)} {id : Int} {c : Cursor} 
    {next : RelevantTableColumns → Text → Text → Text → Reader Fault Text} {good : RelevantTableColumns → Prop}
    (last : ∀ cols a b d, (next cols a b d).run c ≠ .error .undefined ↔ good cols) :
    ((liftM (findColumns columns id) : Reader Fault RelevantTableColumns) >>= fun cols => do
      let id ← (liftM (field tuple cols.osmObjectColumn) : Reader Fault Text)
      let version ← (liftM (field tuple cols.versionColumn) : Reader Fault Text)
      let changeset ← (liftM (field tuple cols.changesetColumn) : Reader Fault Text)
      next cols id version changeset).run c ≠ .error .undefined ↔
    ∀ cols, columns.lookup id = some cols → (HasText tuple cols.osmObjectColumn ∧ HasText tuple cols.versionColumn ∧
      HasText tuple cols.changesetColumn) ∧ good cols := by
  rw [safe_lift]
  simp only [findColumns_ok, safe_field, last]
  constructor
  · rintro ⟨_, each⟩ cols found
    obtain ⟨a, hasA, b, hasB, d, hasD, rest⟩ := each cols found
    exact ⟨⟨⟨a, hasA⟩, ⟨b, hasB⟩, ⟨d, hasD⟩⟩, rest⟩
  · intro each
    refine ⟨findColumns_defined _ _, fun cols found => ?_⟩
    obtain ⟨⟨⟨a, hasA⟩, ⟨b, hasB⟩, ⟨d, hasD⟩⟩, rest⟩ := each cols found
    exact ⟨a, hasA, b, hasB, d, hasD, rest⟩

private theorem parseOpInsert_safe (columns : RelIdRelevantColumns) :
    MemoryCorrect (parseOpInsert columns) row ↔ CompleteInsert columns row := by
  unfold MemoryCorrect afterOp parseOp parseOpInsert
  rw [safe_unsigned, safe_signed, safe_unsigned, readTupleData_layout.safe_bind]
  have returned (cols : RelevantTableColumns) (id version changeset : Text) (c : Cursor) :
      (pure ("N ".toList ++ cols.objectType :: id ++ " v".toList ++ version ++ " c".toList ++ changeset) :
        Reader Fault Text).run c ≠ .error .undefined ↔ True := iff_true_intro (by rintro ⟨⟩)
  constructor
  · rintro ⟨_, _, inside, tuple, last, tupleAt, safe⟩
    refine ⟨inside, tuple, last, tupleAt, fun cols found => ?_⟩
    exact ((usable_iff (fun cols a b d => returned cols a b d _)).mp safe cols found).1
  · rintro ⟨inside, tuple, last, tupleAt, usable⟩
    refine ⟨by omega, by change 1 + 4 ≤ _; omega, inside, tuple, last, tupleAt, ?_⟩
    exact (usable_iff (fun cols a b d => returned cols a b d _)).mpr (fun cols found => ⟨usable cols found, trivial⟩)

private theorem skipOldTuple_safe {next : Nat → Reader Fault α} :
    (readUnsigned 1 >>= fun byte => skipOldTuple byte >>= next).run ⟨row, 5⟩ ≠
    .error .undefined ↔ 6 ≤ row.length ∧ ∃ byte offset, NewTupleByte row byte offset ∧
      (next byte).run ⟨row, offset⟩ ≠ .error .undefined := by
  rw [safe_unsigned, skipOldTuple]
  refine and_congr_right (fun inside => ?_)
  split
  · rename_i old
    rw [bind_assoc, readTupleData_layout.safe_bind]
    constructor
    · rintro ⟨tuple, last, tupleAt, safe⟩
      obtain ⟨inside', safe'⟩ := safe_unsigned.mp safe
      exact ⟨_, _, .old old tupleAt inside', safe'⟩
    · rintro ⟨byte, offset, newByte, safe⟩
      cases newByte with
      | new notKey notOld => exact absurd old (not_or.mpr ⟨notKey, notOld⟩)
      | old _ tupleAt inside' => exact ⟨_, _, tupleAt, safe_unsigned.mpr ⟨inside', safe⟩⟩
  · rename_i new
    obtain ⟨notKey, notOld⟩ := not_or.mp new
    rw [pure_bind]
    constructor
    · intro safe
      exact ⟨_, _, .new notKey notOld, safe⟩
    · rintro ⟨byte, offset, newByte, safe⟩
      cases newByte with
      | new _ _ => exact safe
      | old old _ _ => exact absurd old new

private theorem parseOpUpdate_safe (columns : RelIdRelevantColumns) :
    MemoryCorrect (parseOpUpdate columns) row ↔ CompleteUpdate columns row := by
  have redaction (tuple : List (Option Text)) (cols : RelevantTableColumns) (id version changeset : Text)
    (c : Cursor) :
      (do
        let redaction ← (liftM (fieldOrNull tuple cols.redactionColumn) : Reader Fault Text)
        return "R ".toList ++ cols.objectType :: id ++ " v".toList ++ version ++ " c".toList ++ changeset ++
          " ".toList ++ redaction : Reader Fault Text).run c ≠ .error .undefined ↔ cols.redactionColumn <
            tuple.length := by
    rw [safe_lift, fieldOrNull]
    split
    · rename_i text here
      exact iff_of_true ⟨by rintro ⟨⟩, fun _ _ => by rintro ⟨⟩⟩ (List.getElem?_eq_some_iff.mp here).1
    · rename_i outside
      exact iff_of_false (fun both => both.1 rfl) (not_lt.mpr (List.getElem?_eq_none_iff.mp outside))
  unfold MemoryCorrect afterOp parseOp parseOpUpdate
  rw [safe_unsigned, safe_signed]
  change _ ∧ _ ∧ (readUnsigned 1 >>= fun byte => skipOldTuple byte >>= parseUpdated columns
    (asSigned 4 (number row 1 4))).run ⟨row, 5⟩ ≠ _ ↔ _
  rw [skipOldTuple_safe]
  have updated (byte offset : Nat) : (parseUpdated columns (asSigned 4 (number row 1 4)) byte).run ⟨row, offset⟩ ≠
    .error .undefined ↔
      (byte = 'N'.toNat → ∃ tuple last, TupleAt row offset tuple last ∧ Usable columns row tuple ∧
        ∀ cols, columns.lookup (asSigned 4 (number row 1 4)) = some cols → cols.redactionColumn < tuple.length) := by
    unfold parseUpdated expectNewTuple
    split
    · rename_i other
      exact iff_of_true (by rintro ⟨⟩) (fun new => absurd new other)
    · rename_i new
      rw [readTupleData_layout.safe_bind]
      constructor
      · rintro ⟨tuple, last, tupleAt, safe⟩ _
        have each := (usable_iff (fun cols a b d => redaction tuple cols a b d _)).mp safe
        exact ⟨tuple, last, tupleAt, fun cols found => (each cols found).1, fun cols found => (each cols found).2⟩
      · intro here
        obtain ⟨tuple, last, tupleAt, usable, small⟩ := here (not_not.mp new)
        refine ⟨tuple, last, tupleAt, ?_⟩
        exact (usable_iff (fun cols a b d => redaction tuple cols a b d _)).mpr
          (fun cols found => ⟨usable cols found, small cols found⟩)
  simp only [updated]
  constructor
  · rintro ⟨_, _, complete⟩
    exact complete
  · rintro ⟨inside, rest⟩
    exact ⟨by omega, by change 1 + 4 ≤ _; omega, inside, rest⟩

/-- The three parsers stay inside the row exactly when it is complete. -/
theorem parser_memoryCorrect (columns : RelIdRelevantColumns) (row : Bytes) :
    (MemoryCorrect (parseOpRelation columns) row ↔ CompleteRelation row) ∧
      (MemoryCorrect (parseOpInsert columns) row ↔ CompleteInsert columns row) ∧
      (MemoryCorrect (parseOpUpdate columns) row ↔ CompleteUpdate columns row) :=
  ⟨parseOpRelation_safe columns, parseOpInsert_safe columns, parseOpUpdate_safe columns⟩

end Safe

/-- One column for everything. -/
def oneColumn : RelIdRelevantColumns := [(1, { objectType := 'n' })]

/-- An insert of a tuple with this one column. -/
def insertOf (column : Bytes) : Bytes := [73, 0, 0, 0, 1, 78, 0, 1] ++ column

/-- An empty row, a length that is not true, a name without its NUL, a null column, and a
tuple that is too short. -/
theorem parser_memoryCorrect_fails :
    ¬ MemoryCorrect (parseOpRelation []) [] ∧
      ¬ MemoryCorrect (parseOpRelation []) [82, 0, 0, 0, 1, 112] ∧
      ¬ MemoryCorrect (parseOpInsert oneColumn) (insertOf [116, 0, 0, 0, 9, 49]) ∧
      ¬ MemoryCorrect (parseOpInsert oneColumn) (insertOf [110]) ∧
      ¬ MemoryCorrect (parseOpUpdate oneColumn) [85, 0, 0, 0, 1, 78, 0, 0] := by
  decide +kernel

end Osmdbt.Pgoutput
