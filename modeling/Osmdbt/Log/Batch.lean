import Osmdbt.Pgoutput.Reading
import Osmdbt.Log.Decode

/-! Decoding a whole replication batch: the rows of complete transactions become
exactly the log lines of their inserts, updates and commits. -/

namespace Osmdbt

open General Pgoutput

/-- Hex text of a byte string, two digits for each byte, in either case. -/
inductive HexOf : Text → Bytes → Prop where
  | nil : HexOf [] []
  | cons {high low : Char} {byte : UInt8} {text : Text} {bytes : Bytes}
      (upper : hexadecimal.value high = some (byte.toNat / 16))
      (lower : hexadecimal.value low = some (byte.toNat % 16)) (rest : HexOf text bytes) :
      HexOf (high :: low :: text) (byte :: bytes)

/-- The first two columns of a row. -/
structure Stamp where
  lsn : Text
  xid : Text
  deriving DecidableEq, Repr

structure RowOf (frame : Stamp × Bytes) (row : PeekRow) : Prop where
  lsn : row.lsn = frame.1.lsn
  xid : row.xid = frame.1.xid
  data : HexOf row.data frame.2
  short : frame.2.length < 2 ^ 32

/-- Begin, the messages in between, and commit. -/
structure WireTransaction where
  beginStamp : Stamp
  beginPayload : Bytes
  body : List (Stamp × Message)
  commitStamp : Stamp
  commitPayload : Bytes

def bodyFrames (body : List (Stamp × Message)) : List (Stamp × Bytes) :=
  body.map (fun row => (row.1, row.2.encode))

def WireTransaction.frames (transaction : WireTransaction) : List (Stamp × Bytes) :=
  (transaction.beginStamp, encodeBegin transaction.beginPayload) :: bodyFrames transaction.body ++
    [(transaction.commitStamp, encodeCommit transaction.commitPayload)]

/-- The rows that carry the transactions. -/
def Carries (transactions : List WireTransaction) (rows : List PeekRow) : Prop :=
  List.Forall₂ RowOf (transactions.flatMap WireTransaction.frames) rows

def announceAll (announced : Announced) (body : List (Stamp × Message)) : Announced :=
  body.foldl (fun announced row => announce announced row.2) announced

def UsableBody : Announced → List (Stamp × Message) → Prop
  | _, [] => True
  | announced, row :: rest =>
    (row.2.Fits ∧ row.2.Usable announced) ∧ UsableBody (announce announced row.2) rest

def UsableBatch : Announced → List WireTransaction → Prop
  | _, [] => True
  | announced, transaction :: rest =>
    UsableBody announced transaction.body ∧ UsableBatch (announceAll announced transaction.body) rest

/-- Every relation message describes one of the three tables. -/
def AllDescribed (transactions : List WireTransaction) : Prop :=
  ∀ transaction ∈ transactions, ∀ row ∈ transaction.body, row.2.Described

/-- `LSN xid message` -/
def logLine (stamp : Stamp) (message : Text) : Text :=
  stamp.lsn ++ ' ' :: stamp.xid ++ ' ' :: message ++ ['\n']

def bodyText : Announced → List (Stamp × Message) → Text
  | _, [] => []
  | announced, row :: rest =>
    ((row.2.entry announced).map (logLine row.1)).getD [] ++ bodyText (announce announced row.2) rest

/-- The lines of one transaction; one without inserts and updates has none. -/
def WireTransaction.text (announced : Announced) (transaction : WireTransaction) : Text :=
  bodyText announced transaction.body ++
    if transaction.body.any (fun row => row.2.isChange) then logLine transaction.commitStamp "C".toList else []

def batchText : Announced → List WireTransaction → Text
  | _, [] => []
  | announced, transaction :: rest =>
    transaction.text announced ++ batchText (announceAll announced transaction.body) rest

/-- The LSN of the last commit. -/
def batchLsn (transactions : List WireTransaction) : Text :=
  (transactions.getLast?.map (fun transaction => transaction.commitStamp.lsn)).getD []

def WireTransaction.hasInsert (transaction : WireTransaction) : Bool :=
  transaction.body.any (fun row => row.2.isInsert)

theorem hashValue_of_value {c : Char} {d : Nat} (digit : hexadecimal.value c = some d) :
    hashValue c = .ok (UInt8.ofNat d) := by
  have isDigit : hexadecimal.isDigit c = true := by simp [Digits.isDigit, digit]
  have range := hexadecimal_digit_le isDigit
  have all : ∀ n < 103, 48 ≤ n → ∀ d < 16, hexadecimal.value (Char.ofNat n) = some d →
      hashValue (Char.ofNat n) = .ok (UInt8.ofNat d) := by decide +kernel
  have found := all c.toNat (by omega) range.1 d (hexadecimal.value_lt c d digit)
  rw [Char.ofNat_toNat] at found
  exact found digit

private theorem nibbles (byte : UInt8) :
    UInt8.ofNat (byte.toNat / 16) <<< 4 ||| UInt8.ofNat (byte.toNat % 16) = byte := by
  have all : ∀ n < 256, UInt8.ofNat (n / 16) <<< 4 ||| UInt8.ofNat (n % 16) = UInt8.ofNat n := by decide +kernel
  have same := all byte.toNat byte.toNat_lt
  rwa [UInt8.ofNat_toNat] at same

/-- `hex2bytes` inverts the hex encoding. -/
theorem hex2bytes_of_hex {text : Text} {bytes : Bytes} (hex : HexOf text bytes) : hex2bytes text = .ok bytes := by
  induction hex with
  | nil => rfl
  | @cons high low byte text bytes upper lower _ ih =>
    rw [hex2bytes, hashValue_of_value upper, hashValue_of_value lower, ih]
    simp only [bind, Except.bind, pure, Except.pure, nibbles]

theorem hashIndex_lt (c : Char) : (hashIndex c).toNat < hashmap.length := by
  unfold hashIndex
  rw [UInt8.toNat_xor, UInt8.toNat_and]
  have masked : (UInt8.ofNat c.toNat).toNat &&& (0x1F : UInt8).toNat < 2 ^ 5 := Nat.and_lt_two_pow _ (by decide)
  exact Nat.xor_lt_two_pow masked (by decide)

theorem hashValue_defined (c : Char) : ∃ value, hashValue c = .ok value := by
  have inside := hashIndex_lt c
  refine ⟨hashmap[(hashIndex c).toNat], ?_⟩
  unfold hashValue
  rw [List.getElem?_eq_getElem inside]

/-- Two characters a byte, whatever they are. -/
private theorem hex2bytes_length {text : Text} (even : Even text.length) :
    ∃ bytes, hex2bytes text = .ok bytes ∧ bytes.length = text.length / 2 := by
  induction text using hex2bytes.induct with
  | case1 => exact ⟨[], rfl, rfl⟩
  | case2 c => exact absurd even Nat.not_even_one
  | case3 high low rest ih =>
    have even' : Even rest.length := by
      rw [List.length_cons, List.length_cons] at even
      exact ((Nat.even_add (m := rest.length) (n := 2)).mp even).mpr even_two
    obtain ⟨upper, first⟩ := hashValue_defined high
    obtain ⟨lower, second⟩ := hashValue_defined low
    obtain ⟨bytes, decoded, half⟩ := ih even'
    refine ⟨(upper <<< 4 ||| lower) :: bytes, ?_, ?_⟩
    · rw [hex2bytes, first, second, decoded]
      rfl
    · rw [List.length_cons, List.length_cons, List.length_cons, half]
      omega

/-- What the decoding gives for hex text, and that it is defined for any text of even length. -/
theorem hex2bytes_decodes (text : Text) :
    (∀ bytes, HexOf text bytes → hex2bytes text = .ok bytes) ∧
    (Even text.length → (∀ c ∈ text, (hashIndex c).toNat < hashmap.length) ∧
      ∃ bytes, hex2bytes text = .ok bytes ∧ bytes.length = text.length / 2) :=
  ⟨fun _ => hex2bytes_of_hex, fun even => ⟨fun c _ => hashIndex_lt c, hex2bytes_length even⟩⟩

theorem hex2bytes_decodes_mixed : hex2bytes "4aFe0B".toList = .ok [0x4A, 0xFE, 0x0B] ∧
    ∃ bytes, hex2bytes "zz-g".toList = .ok bytes ∧ bytes.length = 2 := by
  refine ⟨(hex2bytes_decodes _).1 _ (.cons ?_ ?_ (.cons ?_ ?_ (.cons ?_ ?_ .nil))), ?_⟩
  iterate 6 decide
  exact ((hex2bytes_decodes "zz-g".toList).2 (by decide)).2

/-- A row whose bytes are an operation byte and a payload some reader takes. -/
theorem RowOf.decoded {stamp : Stamp} {op : UInt8} {payload : Bytes} {row : PeekRow}
    (row' : RowOf (stamp, op :: payload) row) :
    hex2bytes row.data = .ok (op :: payload) ∧
      parseOp.run ⟨op :: payload, 0⟩ = .ok (op.toNat, ⟨op :: payload, 1⟩) ∧
      ∀ {α : Type} {reader : Reader Fault α} {value : α}, Reads (2 ^ 32) reader payload value →
        ∃ cursor, reader.run ⟨op :: payload, 1⟩ = .ok (value, cursor) := by
  refine ⟨hex2bytes_of_hex row'.data, ?_, ?_⟩
  · exact (readByte_reads op).run payload row'.short
  · intro α reader value reads
    exact ⟨_, reads (op :: payload) 1 [] row'.short (by simp) (by simp)⟩

section Rows

variable {announced : Announced} {log : LogState} {stamp : Stamp} {row : PeekRow}

theorem decodeRow_begin {payload : Bytes} (row' : RowOf (stamp, encodeBegin payload) row) :
    decodeRow log row = .ok { log with dataInCurrentTransaction := false } := by
  obtain ⟨hex, op, _⟩ := row'.decoded
  rw [decodeRow, hex]
  simp only [bind, Except.bind, op]
  rfl

private theorem decodeRow_commit {payload : Bytes} (row' : RowOf (stamp, encodeCommit payload) row) :
    decodeRow log row = .ok {
      log with
      data := log.data ++ if log.dataInCurrentTransaction then logLine stamp "C".toList else []
      lsn := stamp.lsn
      dataInCurrentTransaction := false } := by
  obtain ⟨hex, op, _⟩ := row'.decoded
  rw [decodeRow, hex]
  simp only [bind, Except.bind, op]
  cases running : log.dataInCurrentTransaction <;>
    simp [charByte, LogState.addMessage, running, row'.lsn, row'.xid, logLine, pure, Except.pure]

/-- What one message of a transaction does to the variables of the loop. -/
theorem decodeRow_message {message : Message} (row' : RowOf (stamp, message.encode) row) (fits : message.Fits)
    (usable : message.Usable announced) (described : message.Described) (knows : Knows announced log.columns) :
    ∃ columns, Knows (announce announced message) columns ∧ decodeRow log row = .ok {
      data := log.data ++ ((message.entry announced).map (logLine stamp)).getD []
      lsn := log.lsn
      dataInCurrentTransaction := log.dataInCurrentTransaction || message.isChange
      hasActualData := log.hasActualData || message.isInsert
      columns := columns } := by
  cases message with
  | relation table =>
    obtain ⟨type, describes⟩ := described
    obtain ⟨cols, located, reads⟩ := parseOpRelation_reads fits usable describes log.columns
    refine ⟨_, knows.announce usable describes located, ?_⟩
    have framed : RowOf (stamp, charByte 'R' :: table.payload) row := row'
    obtain ⟨hex, op, parsed⟩ := framed.decoded
    obtain ⟨cursor, read⟩ := parsed reads
    rw [decodeRow, hex]
    simp only [bind, Except.bind, op]
    rw [if_neg (by decide), if_neg (by decide), if_pos (by decide), read]
    simp [Message.entry, Message.isChange, Message.isInsert, pure, Except.pure]
  | insert relationId newTuple =>
    obtain ⟨entry, found, reads⟩ := parseOpInsert_reads knows fits usable
    refine ⟨log.columns, knows, ?_⟩
    have framed : RowOf (stamp, charByte 'I' :: (int32Bytes relationId ++ charByte 'N' :: encodeTuple newTuple)) row :=
      row'
    obtain ⟨hex, op, parsed⟩ := framed.decoded
    obtain ⟨cursor, read⟩ := parsed reads
    rw [decodeRow, hex]
    simp only [bind, Except.bind, op]
    rw [if_neg (by decide), if_neg (by decide), if_neg (by decide), if_pos (by decide), read]
    simp [Message.entry, Message.isChange, Message.isInsert, found, LogState.addMessage, logLine, row'.lsn,
      row'.xid, pure, Except.pure]
  | update relationId oldTuple newTuple =>
    obtain ⟨entry, found, reads⟩ := parseOpUpdate_reads knows fits.1 fits.2 usable
    refine ⟨log.columns, knows, ?_⟩
    have framed : RowOf (stamp, charByte 'U' ::
        (int32Bytes relationId ++ encodeOld oldTuple ++ charByte 'N' :: encodeTuple newTuple)) row := row'
    obtain ⟨hex, op, parsed⟩ := framed.decoded
    obtain ⟨cursor, read⟩ := parsed reads
    rw [decodeRow, hex]
    simp only [bind, Except.bind, op]
    rw [if_neg (by decide), if_neg (by decide), if_neg (by decide), if_neg (by decide), if_pos (by decide), read]
    simp [Message.entry, Message.isChange, Message.isInsert, found, LogState.addMessage, logLine, row'.lsn,
      row'.xid, pure, Except.pure]
  | other op payload =>
    refine ⟨log.columns, knows, ?_⟩
    have framed : RowOf (stamp, op :: payload) row := row'
    obtain ⟨hex, read, _⟩ := framed.decoded
    have different (c : Char) (member : c ∈ "BCRIU".toList) (ascii : (charByte c).toNat = c.toNat) :
        op.toNat ≠ c.toNat := by
      intro same
      refine fits (List.mem_map.mpr ⟨c, member, ?_⟩)
      exact UInt8.toNat_inj.mp (ascii.trans same.symm)
    rw [decodeRow, hex]
    simp only [bind, Except.bind, read]
    rw [if_neg (different 'B' (by decide) (by decide)), if_neg (different 'C' (by decide) (by decide)),
      if_neg (different 'R' (by decide) (by decide)), if_neg (different 'I' (by decide) (by decide)),
      if_neg (different 'U' (by decide) (by decide))]
    simp [Message.entry, Message.isChange, Message.isInsert, pure, Except.pure]

end Rows

theorem forall₂_split {α β : Type} {R : α → β → Prop} {front back : List α} {rows : List β}
    (related : List.Forall₂ R (front ++ back) rows) :
    ∃ first second, rows = first ++ second ∧ List.Forall₂ R front first ∧ List.Forall₂ R back second := by
  induction front generalizing rows with
  | nil => exact ⟨[], rows, rfl, .nil, related⟩
  | cons a front ih =>
    cases related with
    | cons head tail =>
      obtain ⟨first, second, rfl, firstRelated, secondRelated⟩ := ih tail
      exact ⟨_ :: first, second, rfl, .cons head firstRelated, secondRelated⟩

private theorem decode_body (log : LogState) {announced : Announced} {body : List (Stamp × Message)}
    {rows : List PeekRow}
    (carried : List.Forall₂ RowOf (bodyFrames body) rows) (usable : UsableBody announced body)
    (described : ∀ row ∈ body, row.2.Described) (knows : Knows announced log.columns) :
    ∃ columns, Knows (announceAll announced body) columns ∧ rows.foldlM decodeRow log = .ok {
      data := log.data ++ bodyText announced body
      lsn := log.lsn
      dataInCurrentTransaction := log.dataInCurrentTransaction || body.any (fun row => row.2.isChange)
      hasActualData := log.hasActualData || body.any (fun row => row.2.isInsert)
      columns := columns } := by
  induction body generalizing announced rows log with
  | nil =>
    cases carried
    exact ⟨log.columns, knows, by simp [bodyText, pure, Except.pure]⟩
  | cons entry rest ih =>
    cases carried with
    | @cons _ row _ rows head tail =>
      obtain ⟨here, later⟩ := usable
      obtain ⟨columns, known, decoded⟩ :=
        decodeRow_message head here.1 here.2 (described entry (by simp)) knows
      obtain ⟨columns', known', rest'⟩ :=
        ih ⟨_, _, _, _, columns⟩ tail later (fun other member => described other (by simp [member])) known
      refine ⟨columns', known', ?_⟩
      rw [List.foldlM_cons, decoded]
      refine rest'.trans ?_
      simp [bodyText, Bool.or_assoc]

/-- One transaction adds its lines and leaves the LSN of its commit behind. -/
theorem decode_transaction (log : LogState) {announced : Announced} {transaction : WireTransaction}
    {rows : List PeekRow} (carried : List.Forall₂ RowOf transaction.frames rows)
    (usable : UsableBody announced transaction.body) (described : ∀ row ∈ transaction.body, row.2.Described)
    (knows : Knows announced log.columns) :
    ∃ columns, Knows (announceAll announced transaction.body) columns ∧ rows.foldlM decodeRow log = .ok {
      data := log.data ++ transaction.text announced
      lsn := transaction.commitStamp.lsn
      dataInCurrentTransaction := false
      hasActualData := log.hasActualData || transaction.hasInsert
      columns := columns } := by
  obtain ⟨front, last, rfl, frontCarried, lastCarried⟩ := forall₂_split carried
  cases frontCarried with
  | @cons _ beginRow _ bodyRows beginCarried bodyCarried =>
    cases lastCarried with
    | @cons _ commitRow _ _ commitCarried none =>
      cases none
      obtain ⟨columns, known, decoded⟩ :=
        decode_body { log with dataInCurrentTransaction := false } bodyCarried usable described knows
      refine ⟨columns, known, ?_⟩
      rw [List.cons_append, List.foldlM_cons, decodeRow_begin beginCarried]
      change (bodyRows ++ [commitRow]).foldlM decodeRow _ = _
      rw [List.foldlM_append, decoded]
      change [commitRow].foldlM decodeRow _ = _
      rw [List.foldlM_cons, decodeRow_commit commitCarried]
      simp only [Bool.false_or, WireTransaction.text, WireTransaction.hasInsert, List.append_assoc]
      rfl

private theorem decode_batch (log : LogState) {announced : Announced} {transactions : List WireTransaction}
    {rows : List PeekRow} (carried : Carries transactions rows) (usable : UsableBatch announced transactions)
    (described : AllDescribed transactions) (knows : Knows announced log.columns)
    (between : log.dataInCurrentTransaction = false) :
    ∃ columns, rows.foldlM decodeRow log = .ok {
      data := log.data ++ batchText announced transactions
      lsn := (transactions.getLast?.map (fun transaction => transaction.commitStamp.lsn)).getD log.lsn
      dataInCurrentTransaction := false
      hasActualData := log.hasActualData || transactions.any WireTransaction.hasInsert
      columns := columns } := by
  induction transactions generalizing log announced rows with
  | nil =>
    cases carried
    refine ⟨log.columns, ?_⟩
    rw [List.foldlM_nil, ← between]
    simp [batchText, pure, Except.pure]
  | cons transaction rest ih =>
    obtain ⟨first, second, rfl, here, later⟩ := forall₂_split carried
    obtain ⟨columns, known, decoded⟩ :=
      decode_transaction log here usable.1 (described transaction (by simp)) knows
    obtain ⟨columns', rest'⟩ := ih ⟨_, _, false, _, columns⟩ later usable.2
      (fun other member => described other (by simp [member])) known rfl
    refine ⟨columns', ?_⟩
    rw [List.foldlM_append, decoded]
    refine rest'.trans ?_
    cases rest with
    | nil => simp [batchText]
    | cons other rest =>
      obtain ⟨last, found⟩ := Option.ne_none_iff_exists'.mp
        (fun none => by simpa using List.getLast?_eq_none_iff.mp none : (other :: rest).getLast? ≠ none)
      rw [List.getLast?_cons_cons, found]
      simp [batchText, Bool.or_assoc]

/-- A usable batch whose relation messages all describe a table decodes to
exactly its log lines; the LSN is that of the last commit. -/
theorem decodeRows_batch {transactions : List WireTransaction} {rows : List PeekRow}
    (carried : Carries transactions rows) (usable : UsableBatch (fun _ => none) transactions)
    (described : AllDescribed transactions) :
    ∃ log, decodeRows rows = .ok log ∧ log.data = batchText (fun _ => none) transactions ∧
      log.lsn = batchLsn transactions ∧ log.hasActualData = transactions.any WireTransaction.hasInsert := by
  have knows : Knows (fun _ => none) ({} : LogState).columns := fun id type names found => by cases found
  obtain ⟨columns, decoded⟩ := decode_batch {} carried usable described knows rfl
  exact ⟨_, decoded, by simp, rfl, by simp⟩

private theorem decodeRow_rejects (log : LogState) {stamp : Stamp} {row : PeekRow} {table : Relation}
    (row' : RowOf (stamp, (Message.relation table).encode) row) (fits : table.Fits)
    (distinct : table.columnNames.Nodup) (other : ¬ (Message.relation table).Described) :
    ∃ fault, decodeRow log row = .error fault := by
  obtain ⟨what, rejects⟩ := parseOpRelation_rejects fits distinct (fun type is => other ⟨type, is⟩) log.columns
  have framed : RowOf (stamp, charByte 'R' :: table.payload) row := row'
  obtain ⟨hex, op, _⟩ := framed.decoded
  refine ⟨.runtimeError what, ?_⟩
  have raised := rejects (charByte 'R' :: table.payload) 1 [] framed.short (by simp) (by simp)
  rw [decodeRow, hex]
  simp only [bind, Except.bind, op]
  rw [if_neg (by decide), if_neg (by decide), if_pos (by decide), raised]

private theorem decode_body_rejects (log : LogState) {announced : Announced} {body : List (Stamp × Message)}
    {rows : List PeekRow} (carried : List.Forall₂ RowOf (bodyFrames body) rows) (usable : UsableBody announced body)
    (undescribed : ∃ row ∈ body, ¬ row.2.Described) (knows : Knows announced log.columns) :
    ∃ fault, rows.foldlM decodeRow log = .error fault := by
  induction body generalizing announced rows log with
  | nil => obtain ⟨_, member, _⟩ := undescribed; cases member
  | cons entry rest ih =>
    cases carried with
    | @cons _ row _ rows head tail =>
      obtain ⟨here, later⟩ := usable
      by_cases described : entry.2.Described
      · obtain ⟨columns, known, decoded⟩ := decodeRow_message head here.1 here.2 described knows
        have still : ∃ row ∈ rest, ¬ row.2.Described := by
          obtain ⟨bad, member, not⟩ := undescribed
          rcases List.mem_cons.mp member with rfl | inside
          · exact absurd described not
          · exact ⟨bad, inside, not⟩
        obtain ⟨fault, raised⟩ := ih ⟨_, _, _, _, columns⟩ tail later still known
        exact ⟨fault, by rw [List.foldlM_cons, decoded]; exact raised⟩
      · obtain ⟨stamp, message⟩ := entry
        cases message with
        | relation table =>
          obtain ⟨fault, raised⟩ := decodeRow_rejects log head here.1 here.2 described
          exact ⟨fault, by rw [List.foldlM_cons, raised]; rfl⟩
        | insert => exact absurd trivial described
        | update => exact absurd trivial described
        | other => exact absurd trivial described

private theorem decode_batch_rejects (log : LogState) {announced : Announced} {transactions : List WireTransaction}
    {rows : List PeekRow} (carried : Carries transactions rows) (usable : UsableBatch announced transactions)
    (undescribed : ¬ AllDescribed transactions) (knows : Knows announced log.columns) :
    ∃ fault, rows.foldlM decodeRow log = .error fault := by
  induction transactions generalizing log announced rows with
  | nil => exact absurd (fun transaction member => by cases member) undescribed
  | cons transaction rest ih =>
    obtain ⟨first, second, rfl, here, later⟩ := forall₂_split carried
    by_cases described : ∀ row ∈ transaction.body, row.2.Described
    · obtain ⟨columns, known, decoded⟩ := decode_transaction log here usable.1 described knows
      have still : ¬ AllDescribed rest := fun all => undescribed (List.forall_mem_cons.mpr ⟨described, all⟩)
      obtain ⟨fault, raised⟩ := ih ⟨_, _, false, _, columns⟩ later usable.2 still known
      exact ⟨fault, by rw [List.foldlM_append, decoded]; exact raised⟩
    · obtain ⟨front, last, rfl, frontCarried, _⟩ := forall₂_split here
      cases frontCarried with
      | @cons _ beginRow _ bodyRows beginCarried bodyCarried =>
        have bad : ∃ row ∈ transaction.body, ¬ row.2.Described := by
          by_contra none
          exact described (fun row member => by_contra fun not => none ⟨row, member, not⟩)
        obtain ⟨fault, raised⟩ :=
          decode_body_rejects { log with dataInCurrentTransaction := false } bodyCarried usable.1 bad knows
        refine ⟨fault, ?_⟩
        rw [List.append_assoc, List.cons_append, List.foldlM_cons, decodeRow_begin beginCarried]
        change (bodyRows ++ (last ++ second)).foldlM decodeRow _ = _
        rw [List.foldlM_append, raised]
        rfl

/-- Decoding a usable batch: its log lines if every relation message describes
one of the three tables with all needed columns, an exception otherwise. -/
theorem decodeRows_exact {transactions : List WireTransaction} {rows : List PeekRow}
    (carried : Carries transactions rows) (usable : UsableBatch (fun _ => none) transactions) :
    (AllDescribed transactions → ∃ log, decodeRows rows = .ok log ∧
      log.data = batchText (fun _ => none) transactions ∧ log.lsn = batchLsn transactions ∧
      log.hasActualData = transactions.any WireTransaction.hasInsert) ∧
    (¬ AllDescribed transactions → ∃ fault, decodeRows rows = .error fault) := by
  have knows : Knows (fun _ => none) ({} : LogState).columns := fun id type names found => by cases found
  constructor
  · exact fun described => decodeRows_batch carried usable described
  · exact fun undescribed => decode_batch_rejects {} carried usable undescribed knows

/-- The hex text PostgreSQL's `encode` makes of a byte string. -/
def hexText (bytes : Bytes) : Text :=
  bytes.flatMap (fun byte => [Nat.digitChar (byte.toNat / 16), Nat.digitChar (byte.toNat % 16)])

private theorem hexOf_hexText (bytes : Bytes) : HexOf (hexText bytes) bytes := by
  have digit : ∀ d < 16, hexadecimal.value (Nat.digitChar d) = some d := by decide
  induction bytes with
  | nil => exact .nil
  | cons byte rest ih =>
    have below := byte.toNat_lt
    exact .cons (digit _ (by omega)) (digit _ (by omega)) ih

def peekRows (transactions : List WireTransaction) : List PeekRow :=
  (transactions.flatMap WireTransaction.frames).map
    (fun frame => { lsn := frame.1.lsn, xid := frame.1.xid, data := hexText frame.2 })

theorem carries_peekRows {transactions : List WireTransaction}
    (short : ∀ frame ∈ transactions.flatMap WireTransaction.frames, frame.2.length < 2 ^ 32) :
    Carries transactions (peekRows transactions) := by
  rw [Carries, peekRows, List.forall₂_map_right_iff, List.forall₂_same]
  exact fun frame member => ⟨rfl, rfl, hexOf_hexText _, short frame member⟩

section Example

def stampOf (lsn : String) : Stamp := ⟨lsn.toList, "7".toList⟩

def columnOf (name : String) : RelationColumn where
  flags := 0
  name := textBytes name.toList
  columnType := 20
  typeModifier := -1

def nodesTable : Relation where
  id := 5
  ns := textBytes "public".toList
  name := textBytes "nodes".toList
  replicaIdentity := 100
  columns := ["node_id", "version", "changeset_id", "redaction_id"].map columnOf

/-- One node inserted, then redacted. -/
def nodeTransaction : WireTransaction where
  beginStamp := stampOf "0/10"
  beginPayload := []
  body := [(stampOf "0/20", .relation nodesTable),
    (stampOf "0/20", .insert 5 [.text (textBytes "1".toList), .text (textBytes "2".toList),
      .text (textBytes "3".toList), .null]),
    (stampOf "0/30", .update 5 (some (.key, [.text [49]])) [.text (textBytes "1".toList),
      .text (textBytes "2".toList), .text (textBytes "3".toList), .text (textBytes "4".toList)])]
  commitStamp := stampOf "0/40"
  commitPayload := []

theorem nodeTransaction_usable : UsableBatch (fun _ => none) [nodeTransaction] := by
  have announced : (announce (fun _ => none) (.relation nodesTable)) 5 = some (.node, nodesTable.columnNames) := by
    decide
  refine ⟨⟨⟨⟨by decide, by decide, by decide, by decide⟩, ?_⟩, ⟨?_, ?_⟩, ⟨?_, ?_⟩, trivial⟩, trivial⟩
  · change nodesTable.columnNames.Nodup
    decide
  · change TupleFits _
    decide
  · exact ⟨.node, nodesTable.columnNames, announced, by decide, by decide⟩
  · change (∀ old ∈ some (OldKind.key, [ColumnData.text [49]]), TupleFits old.2) ∧ TupleFits _
    exact ⟨by decide, by decide⟩
  · exact ⟨.node, nodesTable.columnNames, announced, by decide, by decide⟩

theorem nodeTransaction_described : AllDescribed [nodeTransaction] := by
  have nodes : nodesTable.Describes .node := by decide
  simp only [AllDescribed, nodeTransaction, List.mem_singleton, forall_eq, List.forall_mem_cons]
  simpa [Message.Described] using Exists.intro ItemType.node nodes

/-- The three lines of a small batch. -/
theorem decodeRows_exact_node : ∃ log, decodeRows (peekRows [nodeTransaction]) = .ok log ∧
    log.data = "0/20 7 N n1 v2 c3\n0/30 7 R n1 v2 c3 4\n0/40 7 C\n".toList ∧ log.lsn = "0/40".toList ∧
    log.hasActualData = true := by
  obtain ⟨log, decoded, data, lsn, actual⟩ :=
    (decodeRows_exact (carries_peekRows (by decide)) nodeTransaction_usable).1 nodeTransaction_described
  exact ⟨log, decoded, data.trans (by decide), lsn.trans (by decide), actual.trans (by decide)⟩

/-- Metadata of a table that is neither nodes, ways nor relations. -/
def changesetsTransaction : WireTransaction where
  beginStamp := stampOf "0/10"
  beginPayload := []
  body := [(stampOf "0/20", .relation { nodesTable with id := 6, name := textBytes "changesets".toList })]
  commitStamp := stampOf "0/40"
  commitPayload := []

/-- No insert or update is involved, yet the batch is refused. -/
theorem decodeRows_refuses_changesets :
    UsableBatch (fun _ => none) [changesetsTransaction] ∧
      Carries [changesetsTransaction] (peekRows [changesetsTransaction]) ∧
      decodeRows (peekRows [changesetsTransaction]) = .error (unexpectedRelation "changesets".toList 6) := by
  refine ⟨⟨⟨⟨⟨by decide, by decide, by decide, by decide⟩, ?_⟩, trivial⟩, trivial⟩, carries_peekRows (by decide), ?_⟩
  · change nodesTable.columnNames.Nodup
    decide
  · decide +kernel

end Example

end Osmdbt
