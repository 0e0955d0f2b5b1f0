import Osmdbt.Log.Sent
import Osmdbt.Log.GetLog
import Osmdbt.General.Insertion

/-! Updates in the replication stream, which are redactions, change nothing of what
comes after the log: two streams that differ in their updates only lead to the same
decisions, the same LSN and the same entries. -/

namespace Osmdbt

open General Pgoutput

def Pgoutput.Message.isUpdate : Message → Bool
  | .update _ _ _ => true
  | _ => false

def withoutUpdates (body : List (Stamp × Message)) : List (Stamp × Message) := body.filter (fun row => !row.2.isUpdate)

/-- Two transactions that are the same but for their updates. -/
structure SameButUpdates (transaction other : WireTransaction) : Prop where
  commit : transaction.commitStamp = other.commitStamp
  body : withoutUpdates transaction.body = withoutUpdates other.body

theorem sameButUpdates_inserted {transaction : WireTransaction} {body : List (Stamp × Message)}
    (inserted : Inserted (fun row => row.2.isUpdate = true) transaction.body body) :
    SameButUpdates transaction { transaction with body := body } where
  commit := rfl
  body := (inserted.filter_eq (fun row update => by simp [update])).symm

/-- The texts of the integer columns of an update, like LSN and xid, have no line break. -/
def PlainUpdates : Announced → List (Stamp × Message) → Prop
  | _, [] => True
  | announced, row :: rest =>
    (row.2.isUpdate = true → row.1.Plain ∧ '\n' ∉ (row.2.entry announced).getD []) ∧
      PlainUpdates (announce announced row.2) rest

def PlainBatch : Announced → List WireTransaction → Prop
  | _, [] => True
  | announced, transaction :: rest =>
    (transaction.commitStamp.Plain ∧ PlainUpdates announced transaction.body) ∧
      PlainBatch (announceAll announced transaction.body) rest

theorem readLog_append (content : LogContent) (text rest : Text) : readLog content (text ++ '\n' :: rest) =
    (text.splitOn '\n').foldlM readLogLine content >>= fun content => readLog content rest := by
  unfold readLog
  rw [getlines_append, List.foldlM_append]

theorem readLog_skips {line : Text} (single : '\n' ∉ line) (skipped : readLine line = .ok none)
    (content : LogContent) (rest : Text) :
    readLog content (line ++ '\n' :: rest) = readLog content rest := by
  have passed : readLogLine content line = .ok content := by
    rw [readLogLine, skipped]
    rfl
  rw [readLog_line single, passed]
  rfl

theorem logLine_append (stamp : Stamp) (message rest : Text) :
    logLine stamp message ++ rest = (stamp.lsn ++ ' ' :: stamp.xid ++ ' ' :: message) ++ '\n' :: rest := by
  rw [logLine, List.append_assoc, List.singleton_append]

theorem logLine_single {stamp : Stamp} (plain : stamp.Plain) {message : Text} (single : '\n' ∉ message) :
    '\n' ∉ stamp.lsn ++ ' ' :: stamp.xid ++ ' ' :: message := by
  simp [plain.lsn.2, plain.xid.2, single]

/-- Two texts a log reader takes for the same. -/
def ReadsAlike (text other : Text) : Prop := ∀ content, readLog content text = readLog content other

section Bodies

variable {announced : Announced}

theorem announceAll_withoutUpdates (body : List (Stamp × Message)) :
    announceAll announced (withoutUpdates body) = announceAll announced body := by
  unfold announceAll
  induction body generalizing announced with
  | nil => rfl
  | cons row rest ih =>
    obtain ⟨stamp, message⟩ := row
    cases message with
    | update relationId oldTuple newTuple => exact ih
    | _ => exact ih

theorem isInsert_withoutUpdates (body : List (Stamp × Message)) :
    (withoutUpdates body).any (fun row => row.2.isInsert) = body.any (fun row => row.2.isInsert) := by
  induction body with
  | nil => rfl
  | cons row rest ih =>
    obtain ⟨stamp, message⟩ := row
    cases message with
    | update relationId oldTuple newTuple => exact ih
    | _ => exact congrArg _ ih

private theorem readLog_update {stamp : Stamp} {message : Message} (update : message.isUpdate = true)
    (plain : stamp.Plain)
    (single : '\n' ∉ (message.entry announced).getD []) (rest : Text) :
    ReadsAlike (((message.entry announced).map (logLine stamp)).getD [] ++ rest) rest := by
  intro content
  cases message with
  | update relationId oldTuple newTuple =>
    cases entry : (Message.update relationId oldTuple newTuple).entry announced with
    | none => rfl
    | some text =>
      rw [entry, Option.getD_some] at single
      obtain ⟨shown, rfl⟩ : ∃ shown, text = "R ".toList ++ shown := by
        simp only [Message.entry, Option.map_eq_some_iff] at entry
        obtain ⟨fields, _, rfl⟩ := entry
        exact ⟨fields ++ " ".toList ++ redactionOf announced relationId newTuple, by simp⟩
      rw [Option.map_some, Option.getD_some, logLine_append]
      exact readLog_skips (logLine_single plain single) (readLine_update plain shown) content rest
  | _ => cases update

private theorem readLog_body {body : List (Stamp × Message)} (plain : PlainUpdates announced body) {rest other : Text}
    (alike : ReadsAlike rest other) :
    ReadsAlike (bodyText announced body ++ rest) (bodyText announced (withoutUpdates body) ++ other) := by
  induction body generalizing announced with
  | nil => exact alike
  | cons row body ih =>
    obtain ⟨here, later⟩ := plain
    have tail := ih later
    obtain ⟨stamp, message⟩ := row
    intro content
    cases update : message.isUpdate with
    | true =>
      have gone : withoutUpdates ((stamp, message) :: body) = withoutUpdates body := by
        rw [withoutUpdates, List.filter_cons_of_neg (by simp [update])]
        rfl
      have silent : announce announced message = announced := by
        cases message with
        | update relationId oldTuple newTuple => rfl
        | _ => cases update
      rw [gone, bodyText, List.append_assoc, readLog_update update (here update).1 (here update).2]
      rw [silent] at tail ⊢
      exact tail content
    | false =>
      have kept : withoutUpdates ((stamp, message) :: body) = (stamp, message) :: withoutUpdates body := by
        rw [withoutUpdates, List.filter_cons_of_pos (by simp [update])]
        rfl
      rw [kept, bodyText, bodyText, List.append_assoc, List.append_assoc]
      cases message.entry announced with
      | none => exact tail content
      | some text =>
        rw [Option.map_some, Option.getD_some, logLine_append, logLine_append, readLog_append, readLog_append]
        exact congrArg _ (funext tail)

end Bodies

/-- The lines of the batch but for those of updates and commits. -/
def insertText : Announced → List WireTransaction → Text
  | _, [] => []
  | announced, transaction :: rest =>
    bodyText announced (withoutUpdates transaction.body) ++ insertText (announceAll announced transaction.body) rest

theorem readLog_batch {announced : Announced} {transactions : List WireTransaction}
    (plain : PlainBatch announced transactions) :
    ReadsAlike (batchText announced transactions) (insertText announced transactions) := by
  induction transactions generalizing announced with
  | nil => exact fun _ => rfl
  | cons transaction rest ih =>
    obtain ⟨⟨commit, updates⟩, later⟩ := plain
    rw [batchText, WireTransaction.text, List.append_assoc]
    refine readLog_body updates (fun content => ?_)
    split
    · rw [logLine_append, readLog_skips (logLine_single commit (by decide)) (readLine_commit commit)]
      exact ih later content
    · exact ih later content

section Same

variable {transactions others : List WireTransaction} (same : List.Forall₂ SameButUpdates transactions others)
include same

private theorem insertText_same (announced : Announced) : insertText announced transactions =
    insertText announced others := by
  induction same generalizing announced with
  | nil => rfl
  | cons here _ ih =>
    rw [insertText, insertText, ← announceAll_withoutUpdates, here.body, announceAll_withoutUpdates, ih]

private theorem batchLsn_same : batchLsn transactions = batchLsn others := by
  have stamps : transactions.map (fun transaction => transaction.commitStamp.lsn) =
      others.map (fun transaction => transaction.commitStamp.lsn) := by
    induction same with
    | nil => rfl
    | cons here _ ih => rw [List.map_cons, List.map_cons, ih, here.commit]
  rw [batchLsn, batchLsn, ← List.getLast?_map, ← List.getLast?_map, stamps]

private theorem hasInsert_same : transactions.any WireTransaction.hasInsert =
    others.any WireTransaction.hasInsert := by
  induction same with
  | nil => rfl
  | cons here _ ih =>
    rw [List.any_cons, List.any_cons, ih, WireTransaction.hasInsert, WireTransaction.hasInsert,
      ← isInsert_withoutUpdates,
      here.body, isInsert_withoutUpdates]

private theorem allDescribed_same : AllDescribed transactions ↔ AllDescribed others := by
  have split (transaction : WireTransaction) (rest : List WireTransaction) : AllDescribed (transaction :: rest) ↔
      (∀ row ∈ withoutUpdates transaction.body, row.2.Described) ∧ AllDescribed rest := by
    rw [AllDescribed, List.forall_mem_cons, AllDescribed]
    refine and_congr_left (fun _ => ⟨fun all row member => all row (List.mem_filter.mp member).1,
      fun all row member => ?_⟩)
    cases update : row.2.isUpdate with
    | false => exact all row (List.mem_filter.mpr ⟨member, by simp [update]⟩)
    | true =>
      obtain ⟨stamp, message⟩ := row
      cases message with
      | update relationId oldTuple newTuple => exact trivial
      | _ => cases update
  induction same with
  | nil => exact Iff.rfl
  | cons here _ ih =>
    rw [split, split, here.body]
    exact and_congr_right (fun _ => ih)

end Same

/-- get-log goes on in the same way with both logs, and their files are read in the same way. -/
structure SameEffect (log other : LogState) : Prop where
  writes : log.hasActualData = other.hasActualData
  lsn : log.lsn = other.lsn
  goesOn : ∀ config options, (do writeLog config other; catchUpLog options other : Prog Unit) =
    (do writeLog config { log with data := other.data }; catchUpLog options log : Prog Unit)
  reads : ReadsAlike log.data other.data

/-- Of two streams that are the same but for their updates, both are refused, or both have
the same effect. -/
theorem updates_change_nothing {transactions others : List WireTransaction} {rows otherRows : List PeekRow}
    (carried : Carries transactions rows) (carried' : Carries others otherRows)
    (usable : UsableBatch (fun _ => none) transactions) (usable' : UsableBatch (fun _ => none) others)
    (plain : PlainBatch (fun _ => none) transactions) (plain' : PlainBatch (fun _ => none) others)
    (same : List.Forall₂ SameButUpdates transactions others) :
    (AllDescribed transactions → ∃ log other, decodeRows rows = .ok log ∧ decodeRows otherRows = .ok other ∧
      SameEffect log other) ∧
      (¬ AllDescribed transactions → ∃ fault fault', decodeRows rows = .error fault ∧
        decodeRows otherRows = .error fault') := by
  obtain ⟨accepted, refused⟩ := decodeRows_exact carried usable
  obtain ⟨accepted', refused'⟩ := decodeRows_exact carried' usable'
  rw [← allDescribed_same same] at accepted' refused'
  constructor
  · intro described
    obtain ⟨log, decoded, data, lsn, actual⟩ := accepted described
    obtain ⟨other, decoded', data', lsn', actual'⟩ := accepted' described
    have sameLsn : log.lsn = other.lsn := by rw [lsn, lsn', batchLsn_same same]
    have sameFlag : log.hasActualData = other.hasActualData := by rw [actual, actual', hasInsert_same same]
    refine ⟨log, other, decoded, decoded', sameFlag, sameLsn, fun config options => ?_, fun content => ?_⟩
    · unfold writeLog catchUpLog
      rw [sameLsn, sameFlag]
    · rw [data, data', readLog_batch plain, readLog_batch plain', insertText_same same]
  · intro undescribed
    obtain ⟨fault, raised⟩ := refused undescribed
    obtain ⟨fault', raised'⟩ := refused' undescribed
    exact ⟨fault, fault', raised, raised'⟩

/-- The transaction in which a node is inserted and redacted, without the redaction. -/
def unredacted : WireTransaction := { nodeTransaction with body := nodeTransaction.body.take 2 }

theorem updates_change_nothing_node : ∃ log other, decodeRows (peekRows [unredacted]) = .ok log ∧
    decodeRows (peekRows [nodeTransaction]) = .ok other ∧ SameEffect log other ∧ log.data ≠ other.data := by
  have usable : UsableBatch (fun _ => none) [unredacted] := by
    obtain ⟨⟨table, insert, _⟩, _⟩ := nodeTransaction_usable
    exact ⟨⟨table, insert, trivial⟩, trivial⟩
  have commit : nodeTransaction.commitStamp.Plain := ⟨⟨by decide, by decide⟩, ⟨by decide, by decide⟩⟩
  have plain : PlainBatch (fun _ => none) [unredacted] :=
    ⟨⟨commit, (fun wrong => by cases wrong), (fun wrong => by cases wrong), trivial⟩, trivial⟩
  have plain' : PlainBatch (fun _ => none) [nodeTransaction] := by
    refine ⟨⟨commit, (fun wrong => by cases wrong), (fun wrong => by cases wrong), (fun _ => ⟨?_, by decide⟩),
      trivial⟩, trivial⟩
    exact ⟨⟨by decide, by decide⟩, ⟨by decide, by decide⟩⟩
  have described : AllDescribed [unredacted] := by
    have nodes : nodesTable.Describes .node := by decide
    simp only [AllDescribed, unredacted, nodeTransaction, List.mem_singleton, forall_eq]
    simpa [Message.Described] using Exists.intro ItemType.node nodes
  have inserted : Inserted (fun row => row.2.isUpdate = true) unredacted.body nodeTransaction.body :=
    .keep _ (.keep _ (.insert rfl .nil))
  have accepted := (updates_change_nothing (carries_peekRows (by decide)) (carries_peekRows (by decide)) usable
    nodeTransaction_usable plain plain' (.cons (sameButUpdates_inserted inserted) .nil)).1
  obtain ⟨log, other, decoded, decoded', effect⟩ := accepted described
  refine ⟨log, other, decoded, decoded', effect, ?_⟩
  have first : (decodeRows (peekRows [unredacted])).toOption.map LogState.data =
      some "0/20 7 N n1 v2 c3\n0/40 7 C\n".toList := by decide +kernel
  have second : (decodeRows (peekRows [nodeTransaction])).toOption.map LogState.data =
      some "0/20 7 N n1 v2 c3\n0/30 7 R n1 v2 c3 4\n0/40 7 C\n".toList := by decide +kernel
  rw [decoded] at first
  rw [decoded'] at second
  rw [Option.some.inj first, Option.some.inj second]
  decide

end Osmdbt
