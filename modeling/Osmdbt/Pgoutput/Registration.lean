import Osmdbt.Pgoutput.Reading

/-! The parser as it keeps its state when an error is raised: a relation message is
registered completely, or the table of relations stays as it was. -/

namespace Osmdbt.Pgoutput

open General

/-- `parser`: the row and the offset in it, and what is known about the tables. -/
structure Parser where
  msg : Cursor := ⟨[], 0⟩
  relevantColumns : RelIdRelevantColumns := []

/-- A member function: an error that is raised leaves the state as it is at that point. -/
abbrev ParserM := EStateM Fault Parser

namespace Parser

def reading {α : Type} (reader : Reader Fault α) : ParserM α := fun parser =>
  match reader.run parser.msg with
  | .ok (value, msg) => .ok value { parser with msg }
  | .error fault => .error fault parser

def setRow (row : Bytes) : ParserM Unit := modify (fun parser => { parser with msg := ⟨row, 0⟩ })

def parseOp : ParserM Nat := reading (readUnsigned 1)

def parseOpRelation : ParserM Unit := do
  let relationId ← reading (readSigned 4)
  let _ns ← reading readString
  let relationName ← reading readString
  let _replicaIdentity ← reading (readSigned 1)
  let numberOfColumns ← reading (readUnsigned 2)
  match tableOf relationName with
  | none => throw (unexpectedRelation relationName relationId)
  | some (objectType, objectIdField) =>
    let (cols, foundColumns) ← reading (scanColumns objectIdField numberOfColumns 0 ({ relationName, objectType }, 0))
    if foundColumns ≠ 4 then throw (missingColumn relationName)
    else modify (fun parser => { parser with relevantColumns := parser.relevantColumns.set relationId cols })

end Parser

/-- The member function does what the reader of a new table says. -/
structure Stores (program : ParserM Unit) (reader : Reader Fault RelIdRelevantColumns) (parser : Parser) : Prop where
  ok : ∀ columns msg, reader.run parser.msg = .ok (columns, msg) → program.run parser = .ok () ⟨msg, columns⟩
  error : ∀ fault, reader.run parser.msg = .error fault →
    ∃ msg, program.run parser = .error fault ⟨msg, parser.relevantColumns⟩

theorem reading_ok {α : Type} {first : Reader Fault α} {program : α → ParserM Unit} {parser : Parser}
    {value : α} {msg : Cursor}
    (read : first.run parser.msg = .ok (value, msg)) :
    (Parser.reading first >>= program).run parser = (program value).run ⟨msg, parser.relevantColumns⟩ := by
  have here : Parser.reading first parser = .ok value ⟨msg, parser.relevantColumns⟩ := by
    rw [Parser.reading, read]
  simp only [EStateM.run, bind, EStateM.bind, here]

private theorem reading_error {α : Type} {first : Reader Fault α} {program : α → ParserM Unit}
    {parser : Parser} {fault : Fault}
    (failed : first.run parser.msg = .error fault) : (Parser.reading first >>= program).run parser =
      .error fault parser := by
  have here : Parser.reading first parser = .error fault parser := by
    rw [Parser.reading, failed]
  simp only [EStateM.run, bind, EStateM.bind, here]

theorem Stores.reading {α : Type} {first : Reader Fault α} {program : α → ParserM Unit}
    {reader : α → Reader Fault RelIdRelevantColumns} {parser : Parser}
    (rest : ∀ value msg, Stores (program value) (reader value) ⟨msg, parser.relevantColumns⟩) :
    Stores (Parser.reading first >>= program) (first >>= reader) parser := by
  cases result : first.run parser.msg with
  | error fault =>
    have raised : (first >>= reader).run parser.msg = .error fault := by
      rw [StateT.run_bind, result]
      rfl
    refine ⟨fun columns msg success => ?_, fun other failed => ?_⟩
    · rw [raised] at success
      cases success
    · rw [raised] at failed
      exact ⟨parser.msg, Except.error.inj failed ▸ reading_error result⟩
  | ok pair =>
    obtain ⟨value, msg⟩ := pair
    have read : (first >>= reader).run parser.msg = (reader value).run msg := by
      rw [StateT.run_bind, result]
      rfl
    refine ⟨fun columns last success => ?_, fun fault failed => ?_⟩
    · rw [reading_ok result]
      exact (rest value msg).ok columns last (read ▸ success)
    · rw [reading_ok result]
      exact (rest value msg).error fault (read ▸ failed)

/-- The member function and the reader of a new table are the same parser. -/
theorem parseOpRelation_stores (parser : Parser) :
    Stores Parser.parseOpRelation (parseOpRelation parser.relevantColumns) parser := by
  refine .reading (fun relationId _ => .reading (fun _ _ => .reading (fun relationName _ => .reading (fun _ _ =>
    .reading (fun numberOfColumns _ => ?_)))))
  cases tableOf relationName with
  | none => exact ⟨by rintro _ _ ⟨⟩, by rintro _ ⟨⟩; exact ⟨_, rfl⟩⟩
  | some table =>
    refine .reading (fun found _ => ?_)
    obtain ⟨cols, foundColumns⟩ := found
    by_cases four : foundColumns = 4
    · subst four
      exact ⟨by rintro _ _ ⟨⟩; rfl, by rintro _ ⟨⟩⟩
    · simp only [ne_eq, four, not_false_eq_true, ↓reduceIte]
      exact ⟨by rintro _ _ ⟨⟩, by rintro _ ⟨⟩; exact ⟨_, rfl⟩⟩

/-- A row is set and its operation read, and then the relation message behind it. -/
def Parser.receiveRelation (row : Bytes) : ParserM Unit := do
  Parser.setRow row
  let _ ← Parser.parseOp
  Parser.parseOpRelation

private theorem receiveRelation_run {row : Bytes} {op : Nat}
    (read : (readUnsigned 1).run ⟨row, 0⟩ = .ok (op, ⟨row, 1⟩)) (parser : Parser) :
    (Parser.receiveRelation row).run parser = Parser.parseOpRelation.run ⟨⟨row, 1⟩, parser.relevantColumns⟩ :=
  @reading_ok _ _ (fun _ => Parser.parseOpRelation) ⟨⟨row, 0⟩, parser.relevantColumns⟩ _ _ read

section Registering

variable {table : Relation} (fits : table.Fits) (distinct : table.columnNames.Nodup)
  (short : (Message.relation table).encode.length < 2 ^ 32) (parser : Parser)

include short in
theorem receiveRelation_payload : (Parser.receiveRelation (Message.relation table).encode).run parser =
    Parser.parseOpRelation.run ⟨⟨(Message.relation table).encode, 1⟩, parser.relevantColumns⟩ :=
  receiveRelation_run ((readByte_reads (charByte 'R')).run table.payload short) parser

include fits distinct short

private theorem receiveRelation_ok {type : ItemType} (describes : table.Describes type) :
    ∃ cols msg, Located cols type table.columnNames ∧
    (Parser.receiveRelation (Message.relation table).encode).run parser =
      .ok () ⟨msg, parser.relevantColumns.set table.id.toInt cols⟩ := by
  obtain ⟨cols, located, reads⟩ := parseOpRelation_reads fits distinct describes parser.relevantColumns
  have read := reads (Message.relation table).encode 1 [] short (by simp [Message.encode])
    (by rw [List.append_nil]; rfl)
  have stored := (parseOpRelation_stores ⟨⟨(Message.relation table).encode, 1⟩, parser.relevantColumns⟩).ok _ _ read
  exact ⟨cols, _, located, (receiveRelation_payload short parser).trans stored⟩

private theorem receiveRelation_error (other : ∀ type, ¬ table.Describes type) : ∃ what msg,
    (Parser.receiveRelation (Message.relation table).encode).run parser =
      .error (.runtimeError what) ⟨msg, parser.relevantColumns⟩ := by
  obtain ⟨what, rejects⟩ := parseOpRelation_rejects fits distinct other parser.relevantColumns
  have failed := rejects (Message.relation table).encode 1 [] short (by simp [Message.encode])
    (by rw [List.append_nil]; rfl)
  obtain ⟨msg, raised⟩ := (parseOpRelation_stores ⟨⟨(Message.relation table).encode, 1⟩,
    parser.relevantColumns⟩).error _ failed
  exact ⟨what, msg, (receiveRelation_payload short parser).trans raised⟩

/-- The table is registered exactly when it is one of the three and has the four columns,
under its own id and with their places; otherwise an error leaves all relations alone. -/
theorem receiveRelation_registers :
    ((∃ last, (Parser.receiveRelation (Message.relation table).encode).run parser = .ok () last) ↔
      ∃ type, table.Describes type) ∧
      (∀ last, (Parser.receiveRelation (Message.relation table).encode).run parser = .ok () last →
        ∃ type cols, table.Describes type ∧ Located cols type table.columnNames ∧
          last.relevantColumns.lookup table.id.toInt = some cols ∧
          ∀ id, id ≠ table.id.toInt → last.relevantColumns.lookup id = parser.relevantColumns.lookup id) ∧
      ∀ fault last, (Parser.receiveRelation (Message.relation table).encode).run parser = .error fault last →
        (∃ what, fault = .runtimeError what) ∧ last.relevantColumns = parser.relevantColumns := by
  by_cases described : ∃ type, table.Describes type
  · obtain ⟨type, describes⟩ := described
    obtain ⟨cols, msg, located, run⟩ := receiveRelation_ok fits distinct short parser describes
    rw [run]
    refine ⟨iff_of_true ⟨_, rfl⟩ ⟨type, describes⟩, ?_, by rintro _ _ ⟨⟩⟩
    rintro _ ⟨⟩
    exact ⟨type, cols, describes, located, lookup_assocSet_self _ _ _, fun id different =>
      lookup_assocSet_ne different _ _⟩
  · obtain ⟨what, msg, run⟩ := receiveRelation_error fits distinct short parser (fun type is => described ⟨type, is⟩)
    rw [run]
    refine ⟨iff_of_false (by rintro ⟨_, ⟨⟩⟩) described, by rintro _ ⟨⟩, ?_⟩
    rintro _ _ ⟨⟩
    exact ⟨⟨what, rfl⟩, rfl⟩

end Registering

/-- A message for the table of nodes, its columns in another order and with one more. -/
def nodesMessage : Relation where
  id := 16384
  ns := textBytes "public".toList
  name := textBytes "nodes".toList
  replicaIdentity := 100
  columns := ["redaction_id", "version", "visible", "node_id", "changeset_id"].map
    (fun name => ⟨0, textBytes name.toList, 20, -1⟩)

theorem receiveRelation_registers_nodes : ∃ last cols,
    (Parser.receiveRelation (Message.relation nodesMessage).encode).run {} = .ok () last ∧
      last.relevantColumns.lookup 16384 = some cols ∧ Located cols .node nodesMessage.columnNames := by
  have fits : nodesMessage.Fits := ⟨by decide, by decide, by decide, by decide⟩
  obtain ⟨succeeds, registered, _⟩ := receiveRelation_registers fits (by decide) (by decide +kernel) {}
  obtain ⟨last, run⟩ := succeeds.mpr ⟨.node, by decide⟩
  obtain ⟨type, cols, describes, located, stored, _⟩ := registered last run
  have node : type = .node := by
    cases type with
    | node => rfl
    | way => exact absurd describes (by decide)
    | relation => exact absurd describes (by decide)
  exact ⟨last, cols, run, stored, node ▸ located⟩

end Osmdbt.Pgoutput
