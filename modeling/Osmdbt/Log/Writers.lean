import Osmdbt.Log.Sent
import Osmdbt.Log.FakeLog

/-! Both log writers agree with the one log reader: every file made of lines of
get-log and of fake-log is read back as the list of its entries. -/

namespace Osmdbt

open General Pgoutput

/-- A line of a log file, by the program that writes it. -/
inductive LogLine where
  | insert (stamp : Stamp) (plain : stamp.Plain) (obj : Osmobj)
  | update (stamp : Stamp) (plain : stamp.Plain) (obj : Osmobj) (redaction : Text) (single : '\n' ∉ redaction)
  | commit (stamp : Stamp) (plain : stamp.Plain)
  | fake (entry : LogEntry)

namespace LogLine

/-- The message get-log gets from its parser. -/
def message : LogLine → Text
  | insert _ _ obj => "N ".toList ++ obj.fields
  | update _ _ obj redaction _ => "R ".toList ++ obj.fields ++ " ".toList ++ redaction
  | commit _ _ => "C".toList
  | fake entry => "N ".toList ++ entry.obj.fields

def stamp : LogLine → Stamp
  | insert stamp _ _ => stamp
  | update stamp _ _ _ _ => stamp
  | commit stamp _ => stamp
  | fake _ => ⟨"0/0".toList, "0".toList⟩

def text (line : LogLine) : Text := logLine line.stamp line.message

/-- What the line says about an object. -/
def entry : LogLine → Option Osmobj
  | insert _ _ obj => some obj
  | update _ _ _ _ _ => none
  | commit _ _ => none
  | fake entry => some entry.obj

end LogLine

/-- get-log appends one line for every message inside a transaction. -/
theorem addMessage_line {log : LogState} (inside : log.dataInCurrentTransaction = true) (row : PeekRow)
    (line : LogLine)
    (stamped : line.stamp = ⟨row.lsn, row.xid⟩) : (log.addMessage row line.message).data = log.data ++ line.text := by
  rw [LogLine.text, stamped, logLine]
  unfold LogState.addMessage
  rw [if_pos inside]
  split
  · rfl
  · split <;> rfl

/-- The decimal texts PostgreSQL prints become the fields of an entry. -/
private theorem entryText_decimal {names : List Text} {tuple : TupleData} {obj : Osmobj}
    (id : columnNamed names tuple (idColumn obj.type) = some (intText obj.id.toInt))
    (version : columnNamed names tuple "version".toList = some (natText obj.version.toNat))
    (changeset : columnNamed names tuple "changeset_id".toList = some (natText obj.cid.toNat)) :
    entryText obj.type names tuple = some obj.fields := by
  simp only [entryText, id, version, changeset, Osmobj.fields, bind, Option.bind, pure]

theorem appendTo_line (entry : LogEntry) (data : Text) : entry.appendTo data = data ++ (LogLine.fake entry).text := by
  have texts (s : Stamp) (message : Text) :
    logLine s message = s.lsn ++ ' ' :: s.xid ++ ' ' :: message ++ ['\n'] := rfl
  simp [LogEntry.appendTo, LogLine.text, LogLine.stamp, LogLine.message, texts, Osmobj.fields, LogEntry.obj]

theorem LogLine.stamp_plain (line : LogLine) : line.stamp.Plain := by
  cases line with
  | insert stamp plain => exact plain
  | update stamp plain => exact plain
  | commit stamp plain => exact plain
  | fake entry =>
    have zeros : (⟨"0/0".toList, "0".toList⟩ : Stamp).Plain := ⟨by decide, by decide⟩
    exact zeros

theorem LogLine.message_single (line : LogLine) : '\n' ∉ line.message := by
  cases line with
  | insert stamp plain obj => simp [message, obj.fields_single]
  | update stamp plain obj redaction single => simp [message, obj.fields_single, single]
  | commit stamp plain => exact (by decide : '\n' ∉ "C".toList)
  | fake entry => simp [message, entry.obj.fields_single]

/-- The reader takes the entry out of the line of either writer. -/
theorem LogLine.readLine_message (line : LogLine) :
    readLine (line.stamp.lsn ++ ' ' :: line.stamp.xid ++ ' ' :: line.message) = .ok line.entry := by
  have plain := line.stamp_plain
  have inserted (obj : Osmobj) :
    readLine (line.stamp.lsn ++ ' ' :: line.stamp.xid ++ ' ' :: ("N ".toList ++ obj.fields)) =
      .ok (some obj) := by
    have same : line.stamp.lsn ++ ' ' :: line.stamp.xid ++ ' ' :: ("N ".toList ++ obj.fields) =
        line.stamp.lsn ++ ' ' :: line.stamp.xid ++ " N ".toList ++ obj.fields := by simp
    rw [same]
    exact readLine_entry plain.lsn.1 plain.xid.1 obj
  cases line with
  | insert stamp _ obj => exact inserted obj
  | update stamp _ obj redaction _ =>
    have updated := readLine_update plain (obj.fields ++ (" ".toList ++ redaction))
    rwa [← List.append_assoc "R ".toList, ← List.append_assoc] at updated
  | commit stamp _ => exact readLine_commit plain
  | fake entry => exact inserted entry.obj

theorem logEntries_lines (lines : List LogLine) :
    logEntries (lines.flatMap LogLine.text) = .ok (lines.filterMap LogLine.entry) := by
  induction lines with
  | nil => rfl
  | cons line rest ih =>
    rw [List.flatMap_cons, LogLine.text, logEntries_logLine line.stamp_plain line.message_single,
      line.readLine_message, ih]
    cases entry : line.entry with
    | none => rw [List.filterMap_cons_none entry]; rfl
    | some obj => rw [List.filterMap_cons_some entry]; rfl

/-- A log file from which exactly these entries are read: by type and in file order, with their changesets to
look up and no others. -/
def ReadBack (file : Text) (entries : List Osmobj) : Prop :=
  ∃ content, readLog {} file = .ok content ∧
    (∀ type, content.objects.ofType type = entries.filter (fun obj => obj.type = type)) ∧
    ∀ cid, cid ∈ content.cucache.map Prod.fst ↔ ∃ obj ∈ entries, obj.cid = cid

theorem ReadBack.of_logEntries {file : Text} {entries : List Osmobj} (read : logEntries file = .ok entries) :
    ReadBack file entries := by
  refine ⟨_, by rw [readLog_eq, read]; rfl, ?_, ?_⟩
  · intro type
    rw [ofType_foldl_add]
    cases type <;> rfl
  · intro cid
    rw [keys_foldl_add]
    simp

/-- The line as its program puts it behind the data it has. -/
def LogLine.appendTo : LogLine → Text → Text
  | fake entry, data => entry.appendTo data
  | line, data =>
    (LogState.addMessage { data, dataInCurrentTransaction := true } ⟨line.stamp.lsn, line.stamp.xid, []⟩
      line.message).data

theorem LogLine.appendTo_eq (line : LogLine) (data : Text) : line.appendTo data = data ++ line.text := by
  cases line with
  | insert stamp plain obj => exact addMessage_line rfl _ (insert stamp plain obj) rfl
  | update stamp plain obj redaction single =>
    exact addMessage_line rfl _ (update stamp plain obj redaction single) rfl
  | commit stamp plain => exact addMessage_line rfl _ (commit stamp plain) rfl
  | fake entry => exact appendTo_line entry data

private theorem foldl_appendTo (lines : List LogLine) (data : Text) :
    lines.foldl (fun data line => line.appendTo data) data = data ++ lines.flatMap LogLine.text := by
  induction lines generalizing data with
  | nil => rw [List.foldl_nil, List.flatMap_nil, List.append_nil]
  | cons line rest ih => rw [List.foldl_cons, ih, line.appendTo_eq, List.flatMap_cons, List.append_assoc]

/-- The row of an object version in its table, with its numbers in decimal. -/
structure Prints (announced : Announced) (relationId : Int32) (tuple : TupleData) (obj : Osmobj) (names : List Text) :
    Prop where
  table : announced relationId = some (obj.type, names)
  id : columnNamed names tuple (idColumn obj.type) = some (intText obj.id.toInt)
  version : columnNamed names tuple "version".toList = some (natText obj.version.toNat)
  changeset : columnNamed names tuple "changeset_id".toList = some (natText obj.cid.toNat)

/-- The object versions a transaction inserts; what it updates has no line break in its columns. -/
def PrintsBody : Announced → List (Stamp × Message) → List Osmobj → Prop
  | _, [], objs => objs = []
  | announced, (_, .insert relationId newTuple) :: rest, objs =>
    ∃ obj others, objs = obj :: others ∧ (∃ names, Prints announced relationId newTuple obj names) ∧
      PrintsBody announced rest others
  | announced, (_, message) :: rest, objs =>
    '\n' ∉ (message.entry announced).getD [] ∧ PrintsBody (announce announced message) rest objs

/-- The same for transactions one after the other, whose stamps have neither blanks nor line breaks. -/
def PrintsBatch : Announced → List WireTransaction → List Osmobj → Prop
  | _, [], objs => objs = []
  | announced, transaction :: rest, objs =>
    (transaction.commitStamp.Plain ∧ ∀ row ∈ transaction.body, row.1.Plain) ∧
      ∃ own others, objs = own ++ others ∧ PrintsBody announced transaction.body own ∧
        PrintsBatch (announceAll announced transaction.body) rest others

theorem Prints.entryOf_eq {announced : Announced} {relationId : Int32} {tuple : TupleData} {obj : Osmobj}
    {names : List Text} (prints : Prints announced relationId tuple obj names) :
    entryOf announced relationId tuple = some obj.fields := by
  rw [entryOf, prints.table]
  exact entryText_decimal prints.id prints.version prints.changeset

theorem PrintsBody.inserts {announced : Announced} {body : List (Stamp × Message)} {objs : List Osmobj}
    (printed : PrintsBody announced body objs) : Inserts announced body objs := by
  induction body generalizing announced objs with
  | nil => exact printed
  | cons row body ih =>
    obtain ⟨stamp, message⟩ := row
    cases message with
    | insert relationId newTuple =>
      obtain ⟨obj, others, rfl, ⟨names, prints⟩, later⟩ := printed
      exact ⟨obj, others, rfl, prints.entryOf_eq, ih later⟩
    | relation table => exact ⟨printed.1, ih printed.2⟩
    | update relationId oldTuple newTuple => exact ⟨printed.1, ih printed.2⟩
    | other op payload => exact ⟨printed.1, ih printed.2⟩

theorem PrintsBatch.logEntries_eq {announced : Announced} {transactions : List WireTransaction} {objs : List Osmobj}
    (printed : PrintsBatch announced transactions objs) : logEntries (batchText announced transactions) =
      .ok objs := by
  induction transactions generalizing announced objs with
  | nil =>
    obtain rfl : objs = [] := printed
    rfl
  | cons transaction rest ih =>
    obtain ⟨⟨plainCommit, plainBody⟩, own, others, rfl, body, later⟩ := printed
    rw [batchText, WireTransaction.text, List.append_assoc, logEntries_body body.inserts plainBody]
    split
    · rw [logEntries_logLine plainCommit (by decide), readLine_commit plainCommit, ih later]
      rfl
    · rw [List.nil_append, ih later]
      rfl

/-- The reader gives back what fake-log appends for any entries, what get-log decodes from the rows of any
transactions, and what the two programs append for any lines in any order. -/
theorem logWriters_agree :
    (∀ entries : List LogEntry,
      ReadBack (entries.foldl (fun data entry => entry.appendTo data) []) (entries.map LogEntry.obj)) ∧
    (∀ (transactions : List WireTransaction) (rows : List PeekRow) (objs : List Osmobj),
      Carries transactions rows → UsableBatch (fun _ => none) transactions → AllDescribed transactions →
      PrintsBatch (fun _ => none) transactions objs → ∃ log, decodeRows rows = .ok log ∧ ReadBack log.data objs) ∧
    ∀ lines : List LogLine,
      ReadBack (lines.foldl (fun data line => line.appendTo data) []) (lines.filterMap LogLine.entry) := by
  have mixed (lines : List LogLine) :
      ReadBack (lines.foldl (fun data line => line.appendTo data) []) (lines.filterMap LogLine.entry) := by
    rw [foldl_appendTo, List.nil_append]
    exact ReadBack.of_logEntries (logEntries_lines lines)
  refine ⟨?_, ?_, mixed⟩
  · intro entries
    have faked := mixed (entries.map LogLine.fake)
    have same : LogLine.entry ∘ LogLine.fake = some ∘ LogEntry.obj := rfl
    rw [List.foldl_map, List.filterMap_map, same, List.filterMap_eq_map] at faked
    exact faked
  · intro transactions rows objs carried usable described printed
    obtain ⟨log, decoded, data, _⟩ := decodeRows_batch carried usable described
    exact ⟨log, decoded, ReadBack.of_logEntries (data ▸ printed.logEntries_eq)⟩

section Example

private theorem stampOf_plain {lsn : String} (plain : ' ' ∉ lsn.toList ∧ '\n' ∉ lsn.toList) : (stampOf lsn).Plain :=
  ⟨plain, (by decide : ' ' ∉ "7".toList ∧ '\n' ∉ "7".toList)⟩

private theorem nodeTransaction_prints : PrintsBatch (fun _ => none) [nodeTransaction] [⟨.node, 1, 2, 3⟩] := by
  refine ⟨⟨stampOf_plain (by decide), ?_⟩, [⟨.node, 1, 2, 3⟩], [], rfl, ?_, rfl⟩
  · intro row member
    simp only [nodeTransaction, List.mem_cons, List.not_mem_nil, or_false] at member
    rcases member with rfl | rfl | rfl <;> exact stampOf_plain (by decide)
  · refine ⟨List.not_mem_nil, _, [], rfl, ⟨nodesTable.columnNames, ?_⟩, by decide, rfl⟩
    exact ⟨by decide, by decide, by decide, by decide⟩

/-- A line of fake-log between an update and a commit of get-log. -/
def mixedLines : List LogLine :=
  [.update (stampOf "0/30") (stampOf_plain (by decide)) ⟨.node, 1, 2, 3⟩ "4".toList (by decide),
    .fake ⟨60, .way, -9223372036854775808, 4294967295, 0⟩, .commit (stampOf "0/40") (stampOf_plain (by decide))]

/-- A transaction that inserts a node, and the least id an entry of fake-log can have. -/
theorem logWriters_agree_node :
    (∃ log, decodeRows (peekRows [nodeTransaction]) = .ok log ∧ ReadBack log.data [⟨.node, 1, 2, 3⟩]) ∧
    ReadBack "0/30 7 R n1 v2 c3 4\n0/0 0 N w-9223372036854775808 v4294967295 c0\n0/40 7 C\n".toList
      [⟨.way, -9223372036854775808, 4294967295, 0⟩] := by
  have written := logWriters_agree.2.2 mixedLines
  have text : mixedLines.foldl (fun data line => line.appendTo data) [] =
      "0/30 7 R n1 v2 c3 4\n0/0 0 N w-9223372036854775808 v4294967295 c0\n0/40 7 C\n".toList := by decide +kernel
  rw [text] at written
  exact ⟨logWriters_agree.2.1 _ _ _ (carries_peekRows (by decide)) nodeTransaction_usable nodeTransaction_described
    nodeTransaction_prints, written⟩

end Example

end Osmdbt
