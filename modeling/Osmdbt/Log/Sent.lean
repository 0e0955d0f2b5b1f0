import Osmdbt.Log.Batch
import Osmdbt.Log.Osmobj
import Osmdbt.Log.Lsn

/-! The rows a replication slot sends for committed transactions, and what
get-log makes of them. -/

namespace Osmdbt

open General Pgoutput

/-- A committed transaction: the LSN of its commit and the object versions it
inserted into the three tables. -/
structure Commit where
  lsn : Nat
  inserts : List Osmobj
  deriving DecidableEq, Repr

/-- The inserts a transaction body stands for. No text of an update has a line break. -/
def Inserts : Announced → List (Stamp × Message) → List Osmobj → Prop
  | _, [], objs => objs = []
  | announced, (_, .insert relationId newTuple) :: rest, objs =>
    ∃ obj others, objs = obj :: others ∧ entryOf announced relationId newTuple = some obj.fields ∧
      Inserts announced rest others
  | announced, (_, message) :: rest, objs =>
    '\n' ∉ (message.entry announced).getD [] ∧ Inserts (announce announced message) rest objs

structure Stamp.Plain (stamp : Stamp) : Prop where
  lsn : ' ' ∉ stamp.lsn ∧ '\n' ∉ stamp.lsn
  xid : ' ' ∉ stamp.xid ∧ '\n' ∉ stamp.xid

structure SentAs (announced : Announced) (commit : Commit) (transaction : WireTransaction) : Prop where
  lsn : transaction.commitStamp.lsn = lsnStr commit.lsn
  plainCommit : transaction.commitStamp.Plain
  plainBody : ∀ row ∈ transaction.body, row.1.Plain
  inserts : Inserts announced transaction.body commit.inserts

def SentBatch : Announced → List Commit → List WireTransaction → Prop
  | _, [], [] => True
  | announced, commit :: commits, transaction :: transactions =>
    SentAs announced commit transaction ∧ SentBatch (announceAll announced transaction.body) commits transactions
  | _, _, _ => False

/-- Rows that carry the given transactions; metadata is sent again in every batch. -/
def Sent (commits : List Commit) (rows : List PeekRow) : Prop :=
  ∃ transactions, Carries transactions rows ∧ UsableBatch (fun _ => none) transactions ∧
    AllDescribed transactions ∧ SentBatch (fun _ => none) commits transactions

def Commit.objects (commits : List Commit) : List Osmobj := commits.flatMap Commit.inserts

theorem logEntries_logLine {stamp : Stamp} (plain : stamp.Plain) {message : Text} (single : '\n' ∉ message)
    (rest : Text) : logEntries (logLine stamp message ++ rest) = (do
      let entry ← readLine (stamp.lsn ++ ' ' :: stamp.xid ++ ' ' :: message)
      let entries ← logEntries rest
      return entry.toList ++ entries) := by
  have line : '\n' ∉ stamp.lsn ++ ' ' :: stamp.xid ++ ' ' :: message := by
    simp [plain.lsn.2, plain.xid.2, single]
  rw [← logEntries_line line]
  simp [logLine]

theorem readLine_commit {stamp : Stamp} (plain : stamp.Plain) :
    readLine (stamp.lsn ++ ' ' :: stamp.xid ++ ' ' :: "C".toList) = .ok none := by
  have nonempty : stamp.lsn ++ ' ' :: stamp.xid ++ ' ' :: "C".toList ≠ [] := by simp
  have split : splitString (stamp.lsn ++ ' ' :: stamp.xid ++ ' ' :: "C".toList) ' ' =
      [stamp.lsn, stamp.xid, "C".toList] := by
    rw [splitString, if_neg nonempty]
    simp only [List.append_assoc, List.cons_append]
    rw [List.splitOn_append_cons_self_of_not_mem plain.lsn.1, List.splitOn_append_cons_self_of_not_mem plain.xid.1,
      List.splitOn_eq_singleton (by decide)]
  rw [readLine, split]
  rfl

theorem readLine_update {stamp : Stamp} (plain : stamp.Plain) (entry : Text) :
    readLine (stamp.lsn ++ ' ' :: stamp.xid ++ ' ' :: ("R ".toList ++ entry)) = .ok none := by
  have split := readLine_of_action plain.lsn.1 plain.xid.1 (show ' ' ∉ "R".toList by decide) entry
  have line : stamp.lsn ++ ' ' :: stamp.xid ++ ' ' :: ("R ".toList ++ entry) =
      stamp.lsn ++ ' ' :: stamp.xid ++ ' ' :: "R".toList ++ ' ' :: entry := by simp
  rw [readLine, line, split]
  rfl

theorem Osmobj.fields_single (obj : Osmobj) : '\n' ∉ obj.fields := by
  have digit : decimal.isDigit '\n' = false := by decide
  have id := not_mem_intText digit (by decide) obj.id.toInt
  have version := not_mem_natText digit (by decide) obj.version.toNat
  have cid := not_mem_natText digit (by decide) obj.cid.toNat
  unfold Osmobj.fields
  cases obj.type <;> simp [ItemType.toChar, id, version, cid]

theorem logEntries_body {announced : Announced} {body : List (Stamp × Message)} {objs : List Osmobj}
    (inserts : Inserts announced body objs) (plain : ∀ row ∈ body, row.1.Plain) (rest : Text) :
    logEntries (bodyText announced body ++ rest) = (objs ++ ·) <$> logEntries rest := by
  induction body generalizing announced objs with
  | nil =>
    obtain rfl : objs = [] := inserts
    rw [bodyText, List.nil_append]
    cases logEntries rest <;> rfl
  | cons row body ih =>
    obtain ⟨stamp, message⟩ := row
    have here := plain (stamp, message) (by simp)
    have later : ∀ row ∈ body, row.1.Plain := fun row member => plain row (by simp [member])
    rw [bodyText, List.append_assoc]
    cases message with
    | insert relationId newTuple =>
      obtain ⟨obj, others, rfl, entry, tail⟩ := inserts
      have line : (Message.insert relationId newTuple).entry announced = some ("N ".toList ++ obj.fields) := by
        simp [Message.entry, entry]
      have single : '\n' ∉ "N ".toList ++ obj.fields := by
        simp [Osmobj.fields_single]
      have read := readLine_entry here.lsn.1 here.xid.1 obj
      have same : stamp.lsn ++ ' ' :: stamp.xid ++ ' ' :: ("N ".toList ++ obj.fields) =
          stamp.lsn ++ ' ' :: stamp.xid ++ " N ".toList ++ obj.fields := by simp
      have continued : logEntries (bodyText (announce announced (.insert relationId newTuple)) body ++ rest) =
          (others ++ ·) <$> logEntries rest := ih tail later
      rw [line, Option.map_some, Option.getD_some, logEntries_logLine here single, same, read, continued]
      cases logEntries rest <;> rfl
    | update relationId oldTuple newTuple =>
      obtain ⟨single, tail⟩ := inserts
      have continued := ih tail later
      cases entry : (Message.update relationId oldTuple newTuple).entry announced with
      | none =>
        rw [Option.map_none, Option.getD_none, List.nil_append, continued]
      | some text =>
        rw [entry, Option.getD_some] at single
        obtain ⟨shown, rfl⟩ : ∃ shown, text = "R ".toList ++ shown := by
          simp only [Message.entry, Option.map_eq_some_iff] at entry
          obtain ⟨fields, _, rfl⟩ := entry
          exact ⟨fields ++ " ".toList ++ redactionOf announced relationId newTuple, by simp⟩
        rw [Option.map_some, Option.getD_some, logEntries_logLine here single, readLine_update here, continued]
        cases logEntries rest <;> rfl
    | relation table => exact ih inserts.2 later
    | other op payload => exact ih inserts.2 later

private theorem logEntries_batch {announced : Announced} {commits : List Commit} {transactions : List WireTransaction}
    (sent : SentBatch announced commits transactions) :
    logEntries (batchText announced transactions) = .ok (Commit.objects commits) := by
  induction transactions generalizing announced commits with
  | nil =>
    cases commits with
    | nil => rfl
    | cons commit commits => exact absurd sent id
  | cons transaction transactions ih =>
    cases commits with
    | nil => exact absurd sent id
    | cons commit commits =>
      obtain ⟨here, later⟩ := sent
      rw [batchText, WireTransaction.text, List.append_assoc, logEntries_body here.inserts here.plainBody]
      split
      · rw [logEntries_logLine here.plainCommit (by decide), readLine_commit here.plainCommit, ih later]
        rfl
      · rw [List.nil_append, ih later]
        rfl

private theorem inserts_isInsert {announced : Announced} {body : List (Stamp × Message)} {objs : List Osmobj}
    (inserts : Inserts announced body objs) : body.any (fun row => row.2.isInsert) = !objs.isEmpty := by
  induction body generalizing announced objs with
  | nil =>
    obtain rfl : objs = [] := inserts
    rfl
  | cons row body ih =>
    obtain ⟨stamp, message⟩ := row
    cases message with
    | insert relationId newTuple =>
      obtain ⟨obj, others, rfl, _⟩ := inserts
      simp [Message.isInsert]
    | relation table => simpa [Message.isInsert] using ih inserts.2
    | update relationId oldTuple newTuple => simpa [Message.isInsert] using ih inserts.2
    | other op payload => simpa [Message.isInsert] using ih inserts.2

private theorem any_hasInsert {announced : Announced} {commits : List Commit} {transactions : List WireTransaction}
    (sent : SentBatch announced commits transactions) :
    transactions.any WireTransaction.hasInsert = !(Commit.objects commits).isEmpty := by
  induction transactions generalizing announced commits with
  | nil =>
    cases commits with
    | nil => rfl
    | cons commit commits => exact absurd sent id
  | cons transaction transactions ih =>
    cases commits with
    | nil => exact absurd sent id
    | cons commit commits =>
      obtain ⟨here, later⟩ := sent
      rw [List.any_cons, WireTransaction.hasInsert, inserts_isInsert here.inserts, ih later]
      cases empty : commit.inserts <;> simp [Commit.objects, empty]

private theorem batchLsn_sent {announced : Announced} {commits : List Commit} {transactions : List WireTransaction}
    (sent : SentBatch announced commits transactions) :
    batchLsn transactions = (commits.getLast?.map (fun commit => lsnStr commit.lsn)).getD [] := by
  unfold batchLsn
  induction transactions generalizing announced commits with
  | nil =>
    cases commits with
    | nil => rfl
    | cons commit commits => exact absurd sent id
  | cons transaction transactions ih =>
    cases commits with
    | nil => exact absurd sent id
    | cons commit commits =>
      obtain ⟨here, later⟩ := sent
      have tail := ih later
      cases transactions with
      | nil =>
        cases commits with
        | nil => simp [here.lsn]
        | cons other commits => exact absurd later id
      | cons next transactions =>
        cases commits with
        | nil => exact absurd later id
        | cons other commits => simpa using tail

/-- get-log reads back exactly the inserts that were sent, and the LSN of the
last transaction. -/
theorem decodeRows_sent {commits : List Commit} {rows : List PeekRow} (sent : Sent commits rows) :
    ∃ log, decodeRows rows = .ok log ∧ logEntries log.data = .ok (Commit.objects commits) ∧
      log.lsn = (commits.getLast?.map (fun commit => lsnStr commit.lsn)).getD [] ∧
      log.hasActualData = !(Commit.objects commits).isEmpty := by
  obtain ⟨transactions, carried, usable, described, batch⟩ := sent
  obtain ⟨log, decoded, data, lsn, actual⟩ := decodeRows_batch carried usable described
  exact ⟨log, decoded, data ▸ logEntries_batch batch, lsn.trans (batchLsn_sent batch),
    actual.trans (any_hasInsert batch)⟩

theorem sent_nil_iff {commits : List Commit} {rows : List PeekRow} (sent : Sent commits rows) :
    rows = [] ↔ commits = [] := by
  obtain ⟨transactions, carried, _, _, batch⟩ := sent
  cases transactions with
  | nil =>
    cases carried
    cases commits with
    | nil => simp
    | cons commit commits => exact absurd batch id
  | cons transaction transactions =>
    cases commits with
    | nil => exact absurd batch id
    | cons commit commits =>
      cases carried with
      | cons => simp

section Nodes

theorem bytesText_textBytes {text : Text} (small : ∀ c ∈ text, c.toNat < 256) : bytesText (textBytes text) = text := by
  rw [bytesText, textBytes, List.map_map]
  refine (List.map_congr_left (fun c member => ?_)).trans (List.map_id text)
  have same : c.toNat % 2 ^ 8 = c.toNat := Nat.mod_eq_of_lt (small c member)
  rw [Function.comp_apply, charByte, UInt8.toNat_ofNat', same, Char.ofNat_toNat, id_eq]

theorem decimal_small {c : Char} (digit : decimal.isDigit c = true) : c.toNat < 256 := by
  by_contra large
  have none : decimal.isDigit c = false := by
    have above : ¬ c ≤ '9' := by
      rw [Char.le_def, UInt32.le_iff_toNat_le]
      have code : c.val.toNat = c.toNat := rfl
      have nine : ('9' : Char).val.toNat = 57 := rfl
      omega
    simp [Digits.isDigit, decimal, above]
  rw [none] at digit
  cases digit

theorem intText_small (z : Int) : ∀ c ∈ intText z, c.toNat < 256 := by
  intro c member
  unfold intText at member
  split at member
  · rcases List.mem_cons.mp member with rfl | digit
    · decide
    · exact decimal_small (decimal.print_isDigit _ c digit)
  · exact decimal_small (decimal.print_isDigit _ c member)

private theorem length_intText {z : Int} (bound : z.natAbs < 10 ^ 20) : (intText z).length ≤ 21 := by
  have magnitude : (natText z.natAbs).length ≤ 20 := decimal.length_print_le bound (by decide)
  unfold intText
  split
  · rw [List.length_cons]
    omega
  · omega

theorem lsnStr_plain {c : Char} (other : hexadecimal.isDigit c = false) (slash : c ≠ '/') (lsn : Nat) :
    c ∉ lsnStr lsn := by
  have absent (n : Nat) : c ∉ hexadecimal.print n := by
    intro member
    rw [hexadecimal.print_isDigit n c member] at other
    cases other
  simp [lsnStr, lsnText, absent, slash]

/-- A node as a row of its table. -/
def nodeRow (obj : Osmobj) : TupleData :=
  [.text (textBytes (intText obj.id.toInt)), .text (textBytes (natText obj.version.toNat)),
    .text (textBytes (natText obj.cid.toNat)), .null]

/-- The transaction that inserts it. -/
def nodeInsertion (lsn : Nat) (obj : Osmobj) : WireTransaction where
  beginStamp := ⟨lsnStr lsn, "7".toList⟩
  beginPayload := []
  body := [(⟨lsnStr lsn, "7".toList⟩, .relation nodesTable), (⟨lsnStr lsn, "7".toList⟩, .insert 5 (nodeRow obj))]
  commitStamp := ⟨lsnStr lsn, "7".toList⟩
  commitPayload := []

/-- A node whose row can be sent. -/
structure SendableNode (lsn : Nat) (obj : Osmobj) : Prop where
  plain : (⟨lsnStr lsn, "7".toList⟩ : Stamp).Plain
  fits : TupleFits (nodeRow obj)
  entry : entryText .node nodesTable.columnNames (nodeRow obj) = some obj.fields

theorem nodeRow_lengths (obj : Osmobj) : (intText obj.id.toInt).length ≤ 21 ∧ (natText obj.version.toNat).length ≤ 21 ∧
    (natText obj.cid.toNat).length ≤ 21 := by
  have lower := obj.id.le_toInt
  have upper := obj.id.toInt_lt
  have version := obj.version.toNat_lt
  have cid := obj.cid.toNat_lt
  refine ⟨length_intText (by omega), ?_, ?_⟩
  · exact (decimal.length_print_le (show obj.version.toNat < 10 ^ 20 by omega) (by decide)).trans (by decide)
  · exact (decimal.length_print_le (show obj.cid.toNat < 10 ^ 20 by omega) (by decide)).trans (by decide)

/-- Every node can be sent. -/
private theorem sendableNode {obj : Osmobj} (node : obj.type = .node) (lsn : Nat) : SendableNode lsn obj := by
  obtain ⟨idLength, versionLength, cidLength⟩ := nodeRow_lengths obj
  have xid : ' ' ∉ "7".toList ∧ '\n' ∉ "7".toList := by decide
  have four : 4 < 2 ^ 15 := by decide
  have fits : ∀ column ∈ nodeRow obj, column.Fits := by
    intro column member
    simp only [nodeRow, List.mem_cons, List.not_mem_nil, or_false] at member
    have shorter {text : Text} (length : text.length ≤ 21) : (textBytes text).length < 2 ^ 31 := by
      rw [textBytes, List.length_map]
      omega
    rcases member with rfl | rfl | rfl | rfl
    · exact shorter idLength
    · exact shorter versionLength
    · exact shorter cidLength
    · trivial
  refine ⟨⟨⟨lsnStr_plain (by decide) (by decide) lsn, lsnStr_plain (by decide) (by decide) lsn⟩, xid⟩,
    ⟨four, fits⟩, ?_⟩
  have id : columnNamed nodesTable.columnNames (nodeRow obj) (idColumn .node) = some (intText obj.id.toInt) :=
    congrArg some (bytesText_textBytes (intText_small _))
  have version : columnNamed nodesTable.columnNames (nodeRow obj) "version".toList =
      some (natText obj.version.toNat) :=
    congrArg some (bytesText_textBytes (natText_eq_intText obj.version.toNat ▸ intText_small _))
  have changeset : columnNamed nodesTable.columnNames (nodeRow obj) "changeset_id".toList =
      some (natText obj.cid.toNat) :=
    congrArg some (bytesText_textBytes (natText_eq_intText obj.cid.toNat ▸ intText_small _))
  rw [entryText, id, version, changeset, Osmobj.fields, node]
  rfl

private theorem nodeInsertion_short (lsn : Nat) (obj : Osmobj) : ∀ frame ∈ (nodeInsertion lsn obj).frames,
    frame.2.length < 2 ^ 32 := by
  obtain ⟨idLength, versionLength, cidLength⟩ := nodeRow_lengths obj
  intro frame member
  have table : (Message.relation nodesTable).encode.length < 2 ^ 32 := by decide
  have tuple : (Message.insert 5 (nodeRow obj)).encode.length < 2 ^ 32 := by
    simp only [Message.encode, encodeTuple, nodeRow, int32Bytes, ColumnData.encode, textBytes,
      List.length_cons, List.length_append,
      length_toBigEndian, List.flatMap_cons, List.flatMap_nil, List.length_map, List.length_nil]
    omega
  simp only [WireTransaction.frames, bodyFrames, nodeInsertion, List.map_cons, List.map_nil,
    List.cons_append, List.nil_append,
    List.mem_cons, List.not_mem_nil, or_false] at member
  rcases member with rfl | rfl | rfl | rfl
  · change 1 < 2 ^ 32
    decide
  · exact table
  · exact tuple
  · change 1 < 2 ^ 32
    decide
variable {announced : Announced}

theorem announce_nodesTable : announce announced (.relation nodesTable) 5 = some (.node, nodesTable.columnNames) := by
  have id : nodesTable.id = 5 := rfl
  have type : nodesTable.type = some .node := by decide
  rw [announce, id, Function.update_self, type]
  rfl

theorem SendableNode.usable {lsn : Nat} {obj : Osmobj} (node : SendableNode lsn obj) :
    UsableBody announced (nodeInsertion lsn obj).body := by
  refine ⟨⟨⟨by decide, by decide, by decide, by decide⟩, ?_⟩, ⟨node.fits, ?_⟩, trivial⟩
  · change nodesTable.columnNames.Nodup
    decide
  · refine ⟨.node, nodesTable.columnNames, announce_nodesTable, ?_, ?_⟩
    · rfl
    · rw [node.entry]
      rfl

theorem SendableNode.sentAs {lsn : Nat} {obj : Osmobj} (node : SendableNode lsn obj) :
    SentAs announced ⟨lsn, [obj]⟩ (nodeInsertion lsn obj) where
  lsn := rfl
  plainCommit := node.plain
  plainBody := by
    intro row member
    simp only [nodeInsertion, List.mem_cons, List.not_mem_nil, or_false] at member
    rcases member with rfl | rfl <;> exact node.plain
  inserts := by
    refine ⟨List.not_mem_nil, obj, [], rfl, ?_, rfl⟩
    rw [entryOf, announce_nodesTable]
    exact node.entry

/-- Transactions that insert one node each. -/
def nodeCommits (nodes : List (Nat × Osmobj)) : List Commit := nodes.map (fun node => ⟨node.1, [node.2]⟩)

def nodeInsertions (nodes : List (Nat × Osmobj)) : List WireTransaction :=
  nodes.map (fun node => nodeInsertion node.1 node.2)

private theorem nodeInsertions_batch {nodes : List (Nat × Osmobj)} (each : ∀ node ∈ nodes, node.2.type = .node) :
    UsableBatch announced (nodeInsertions nodes) ∧
      SentBatch announced (nodeCommits nodes) (nodeInsertions nodes) := by
  induction nodes generalizing announced with
  | nil => exact ⟨trivial, trivial⟩
  | cons node rest ih =>
    have here := sendableNode (each node List.mem_cons_self) node.1
    obtain ⟨usable, sent⟩ := @ih (announceAll announced (nodeInsertion node.1 node.2).body)
      (fun other member => each other (List.mem_cons_of_mem _ member))
    exact ⟨⟨here.usable, usable⟩, here.sentAs, sent⟩

theorem sent_nodes {nodes : List (Nat × Osmobj)} (each : ∀ node ∈ nodes, node.2.type = .node) :
    Sent (nodeCommits nodes) (peekRows (nodeInsertions nodes)) := by
  obtain ⟨usable, sent⟩ := @nodeInsertions_batch (fun _ => none) nodes each
  have short : ∀ frame ∈ (nodeInsertions nodes).flatMap WireTransaction.frames, frame.2.length < 2 ^ 32 := by
    intro frame member
    obtain ⟨transaction, inside, framed⟩ := List.mem_flatMap.mp member
    obtain ⟨node, _, rfl⟩ := List.mem_map.mp inside
    exact nodeInsertion_short _ _ frame framed
  refine ⟨_, carries_peekRows short, usable, fun transaction member row inside => ?_, sent⟩
  obtain ⟨node, _, rfl⟩ := List.mem_map.mp member
  have nodes : nodesTable.Describes .node := by decide
  simp only [nodeInsertion, List.mem_cons, List.not_mem_nil, or_false] at inside
  rcases inside with rfl | rfl
  · exact ⟨.node, nodes⟩
  · exact trivial

end Nodes

end Osmdbt
