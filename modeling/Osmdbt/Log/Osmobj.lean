import Osmdbt.Base
import Osmdbt.General.CText
import Osmdbt.General.Assoc
import Mathlib.Data.List.Sort

/-! Log entries: one object version with its changeset, read from the lines of a
log file, collected by type and sorted. -/

namespace Osmdbt

open General

structure Osmobj where
  type : ItemType
  id : Int64
  version : UInt32
  cid : UInt32
  deriving DecidableEq, Repr

structure Userinfo where
  id : UInt32 := 0
  username : Text := []
  deriving DecidableEq, Repr

/-- `std::unordered_map<changeset_id_type, userinfo>` -/
abbrev ChangesetUserLookup := List (UInt32 × Userinfo)

def ChangesetUserLookup.set (cucache : ChangesetUserLookup) (cid : UInt32) (info : Userinfo) :
    ChangesetUserLookup :=
  assocSet cucache cid info

/-- `at` of the map, which raises on an absent changeset. -/
def ChangesetUserLookup.at (cucache : ChangesetUserLookup) (cid : UInt32) : Except Fault Userinfo :=
  match cucache.lookup cid with
  | some info => .ok info
  | none => .error .outOfRange

def Osmobj.key (obj : Osmobj) : Key := Osmdbt.key obj.id obj.version

def wrongFormat (what : String) : Fault :=
  .runtimeError ("Log file has wrong format: ".toList ++ what.toList)

/-- The constructor of `osmobj`. -/
def Osmobj.ofFields (obj version changeset : Text) : Except Fault Osmobj :=
  if obj.length < 2 ∨ version.length < 2 ∨ changeset.length < 2 then
    .error (wrongFormat "entry too short")
  else match obj.head?.bind charToItemType with
    | none => .error (wrongFormat "type must be 'n', 'w', or 'r'")
    | some type =>
      if version.head? ≠ some 'v' then .error (wrongFormat "expected version")
      else if changeset.head? ≠ some 'c' then .error (wrongFormat "expected changeset")
      else .ok {
        type := type
        id := Int64.ofInt (strtoll obj.tail)
        version := UInt32.ofInt (strtoll version.tail)
        cid := UInt32.ofInt (strtoll changeset.tail) }

structure Osmobjects where
  nodes : List Osmobj := []
  ways : List Osmobj := []
  relations : List Osmobj := []
  deriving DecidableEq, Repr

namespace Osmobjects

def size (objects : Osmobjects) : Nat :=
  objects.nodes.length + objects.ways.length + objects.relations.length

def isEmpty (objects : Osmobjects) : Bool :=
  objects.nodes.isEmpty && objects.ways.isEmpty && objects.relations.isEmpty

/-- `m_objects(type)` -/
def ofType (objects : Osmobjects) : ItemType → List Osmobj
  | .node => objects.nodes
  | .way => objects.ways
  | .relation => objects.relations

def add (objects : Osmobjects) (obj : Osmobj) : Osmobjects :=
  match obj.type with
  | .node => { objects with nodes := objects.nodes ++ [obj] }
  | .way => { objects with ways := objects.ways ++ [obj] }
  | .relation => { objects with relations := objects.relations ++ [obj] }

/-- `std::sort` with `operator<` on objects of one type. -/
def sortObjs (objs : List Osmobj) : List Osmobj :=
  objs.insertionSort (fun a b => a.key ≤ b.key)

def sort (objects : Osmobjects) : Osmobjects where
  nodes := sortObjs objects.nodes
  ways := sortObjs objects.ways
  relations := sortObjs objects.relations

end Osmobjects

/-- What one line of a log file contributes: lines that are not `N` lines of six
fields are skipped. -/
def readLine (line : Text) : Except Fault (Option Osmobj) :=
  match splitString line ' ' with
  | _ :: _ :: action :: fields =>
    if action = "N".toList then
      match fields with
      | [obj, version, changeset] => some <$> Osmobj.ofFields obj version changeset
      | _ => .ok none
    else .ok none
  | _ => .ok none

/-- What the log readers fill: the objects and the changesets to look up. -/
structure LogContent where
  objects : Osmobjects := {}
  cucache : ChangesetUserLookup := []
  deriving DecidableEq, Repr

def LogContent.add (content : LogContent) (obj : Osmobj) : LogContent where
  objects := content.objects.add obj
  cucache := content.cucache.set obj.cid {}

def readLogLine (content : LogContent) (line : Text) : Except Fault LogContent := do
  match ← readLine line with
  | none => return content
  | some obj => return content.add obj

/-- `read_log` on the content of an opened log file. -/
def readLog (content : LogContent) (file : Text) : Except Fault LogContent :=
  (getlines file).foldlM readLogLine content

/-- The entries of a log file in file order. -/
def logEntries (file : Text) : Except Fault (List Osmobj) := do
  let entries ← (getlines file).mapM readLine
  return entries.filterMap id

theorem readLog_eq (content : LogContent) (file : Text) :
    readLog content file = (fun entries => entries.foldl LogContent.add content) <$> logEntries file := by
  unfold readLog logEntries
  generalize getlines file = lines
  induction lines generalizing content with
  | nil => rfl
  | cons line rest ih =>
    rw [List.foldlM_cons, List.mapM_cons, readLogLine]
    cases readLine line with
    | error fault => rfl
    | ok entry =>
      cases entry with
      | none =>
        have tail := ih content
        simp only [bind, Except.bind, pure, Except.pure] at tail ⊢
        rw [tail]
        cases rest.mapM readLine <;> rfl
      | some obj =>
        have tail := ih (content.add obj)
        simp only [bind, Except.bind, pure, Except.pure] at tail ⊢
        rw [tail]
        cases rest.mapM readLine <;> rfl

/-- The entries of several log files, one file after the other. -/
def readEntries (files : List Text) : Except Fault (List Osmobj) := do
  let entries ← files.mapM logEntries
  return entries.flatten

theorem readEntries_cons (file : Text) (files : List Text) :
    readEntries (file :: files) = (do
      let entries ← logEntries file
      let more ← readEntries files
      return entries ++ more) := by
  unfold readEntries
  rw [List.mapM_cons]
  cases logEntries file with
  | error fault => rfl
  | ok entries => cases files.mapM logEntries <;> rfl

theorem readEntries_append (files others : List Text) :
    readEntries (files ++ others) = (do
      let entries ← readEntries files
      let more ← readEntries others
      return entries ++ more) := by
  unfold readEntries
  rw [List.mapM_append]
  cases files.mapM logEntries with
  | error fault => rfl
  | ok entries => cases others.mapM logEntries <;> simp [bind, Except.bind, pure, Except.pure]

theorem readEntries_single (file : Text) : readEntries [file] = logEntries file := by
  rw [readEntries, List.mapM_cons, List.mapM_nil]
  cases logEntries file <;> simp [bind, Except.bind, pure, Except.pure]

theorem readLogs_eq (content : LogContent) (files : List Text) :
    files.foldlM readLog content = (fun entries => entries.foldl LogContent.add content) <$> readEntries files := by
  unfold readEntries
  induction files generalizing content with
  | nil => rfl
  | cons file rest ih =>
    rw [List.foldlM_cons, List.mapM_cons, readLog_eq]
    cases logEntries file with
    | error fault => rfl
    | ok entries =>
      have tail := ih (entries.foldl LogContent.add content)
      simp only [bind, Except.bind, pure, Except.pure, Functor.map, Except.map] at tail ⊢
      rw [tail]
      cases rest.mapM logEntries with
      | error fault => rfl
      | ok others => simp

section Content

variable (content : LogContent) (entries : List Osmobj)

theorem ofType_foldl_add (type : ItemType) :
    (entries.foldl LogContent.add content).objects.ofType type =
      content.objects.ofType type ++ entries.filter (fun obj => obj.type = type) := by
  induction entries generalizing content with
  | nil => simp
  | cons obj rest ih =>
    rw [List.foldl_cons, ih]
    cases own : obj.type <;> cases type <;>
      simp [LogContent.add, Osmobjects.add, Osmobjects.ofType, own]

theorem keys_foldl_add (cid : UInt32) :
    cid ∈ (entries.foldl LogContent.add content).cucache.map Prod.fst ↔
      cid ∈ content.cucache.map Prod.fst ∨ ∃ obj ∈ entries, obj.cid = cid := by
  induction entries generalizing content with
  | nil => simp
  | cons obj rest ih =>
    rw [List.foldl_cons, ih, LogContent.add, ChangesetUserLookup.set, mem_keys_assocSet]
    simp only [List.mem_cons, exists_eq_or_imp, eq_comm (a := cid)]
    tauto

end Content

theorem logEntries_line {line : Text} (single : '\n' ∉ line) (rest : Text) :
    logEntries (line ++ '\n' :: rest) = (do
      let entry ← readLine line
      let entries ← logEntries rest
      return entry.toList ++ entries) := by
  unfold logEntries
  rw [getlines_line single, List.mapM_cons]
  cases readLine line with
  | error fault => rfl
  | ok entry => cases (getlines rest).mapM readLine <;> cases entry <;> rfl

/-- A text of decimal digits that denotes `n`. -/
structure Numeral (text : Text) (n : Nat) : Prop where
  nonempty : text ≠ []
  digits : ∀ c ∈ text, decimal.isDigit c = true
  value : decimal.read text = n

inductive SignedNumeral : Text → Int → Prop
  | unsigned {text : Text} {n : Nat} : Numeral text n → SignedNumeral text n
  | negative {text : Text} {n : Nat} : Numeral text n → SignedNumeral ('-' :: text) (-n)

/-- The last three fields of an `N` line for an entry: the ranges of the numbers are those
of its fields. -/
structure EntryGrammar (obj version changeset : Text) (entry : Osmobj) : Prop where
  obj : ∃ number, obj = entry.type.toChar :: number ∧ SignedNumeral number entry.id.toInt
  version : ∃ number, version = 'v' :: number ∧ Numeral number entry.version.toNat
  changeset : ∃ number, changeset = 'c' :: number ∧ Numeral number entry.cid.toNat

/-- One of the checks of the constructor fails: a field without a number, or a wrong letter. -/
def FieldsRefused (obj version changeset : Text) : Prop :=
  (obj.length < 2 ∨ version.length < 2 ∨ changeset.length < 2) ∨ (∀ type : ItemType, obj.head? ≠ some type.toChar) ∨
    version.head? ≠ some 'v' ∨ changeset.head? ≠ some 'c'

/-- Reading goes on with exactly the entry the fields denote, and raises where they denote none. -/
structure ReadsGrammar (line obj version changeset : Text) : Prop where
  adds : ∀ entry, EntryGrammar obj version changeset entry → ∀ content rest,
    readLog content (line ++ '\n' :: rest) = readLog (content.add entry) rest
  raises : (∀ entry, ¬ EntryGrammar obj version changeset entry) → ∀ content rest,
    ∃ what, readLog content (line ++ '\n' :: rest) = .error (wrongFormat what)

theorem SignedNumeral.of_plain {text : Text} {z : Int} (numeral : SignedNumeral text z)
    (plain : text.head? ≠ some '-') :
    ∃ n, Numeral text n ∧ z = n := by
  cases numeral with
  | unsigned numeral => exact ⟨_, numeral, rfl⟩
  | negative _ => exact absurd rfl plain

private theorem charToItemType_letter {c : Char} {type : ItemType} (known : charToItemType c = some type) :
    c = type.toChar := by
  unfold charToItemType at known
  split at known
  · cases known; assumption
  split at known
  · cases known; assumption
  split at known
  · cases known; assumption
  · cases known

theorem readLog_line {line : Text} (single : '\n' ∉ line) (content : LogContent) (rest : Text) :
    readLog content (line ++ '\n' :: rest) = readLogLine content line >>= fun content => readLog content rest := by
  unfold readLog
  rw [getlines_line single, List.foldlM_cons]

theorem Numeral.strtoll_eq {text : Text} {n : Nat} (numeral : Numeral text n) (small : n < 2 ^ 63) :
    strtoll text = n := by
  rw [strtoll_unsigned numeral.nonempty numeral.digits, numeral.value]
  omega

theorem SignedNumeral.strtoll_eq {text : Text} {z : Int} (numeral : SignedNumeral text z) (lower : -2 ^ 63 ≤ z)
    (upper : z < 2 ^ 63) : strtoll text = z := by
  cases numeral with
  | unsigned numeral => exact numeral.strtoll_eq (by omega)
  | negative numeral =>
    rw [strtoll_negative numeral.digits, numeral.value]
    omega

theorem SignedNumeral.nonempty {text : Text} {z : Int} (numeral : SignedNumeral text z) : text ≠ [] := by
  cases numeral with
  | unsigned numeral => exact numeral.nonempty
  | negative numeral => exact List.cons_ne_nil _ _

section Fields

variable {obj version changeset : Text}

theorem EntryGrammar.ofFields {entry : Osmobj} (grammar : EntryGrammar obj version changeset entry) :
    Osmobj.ofFields obj version changeset = .ok entry := by
  obtain ⟨⟨id, rfl, signed⟩, ⟨number, rfl, unsigned⟩, ⟨cid, rfl, unsigned'⟩⟩ := grammar
  have long (c : Char) (cs : Text) (nonempty : cs ≠ []) : ¬ (c :: cs).length < 2 := by
    have := List.length_pos_iff.mpr nonempty
    simp only [List.length_cons]
    omega
  have idValue := signed.strtoll_eq entry.id.le_toInt entry.id.toInt_lt
  have versionValue := unsigned.strtoll_eq (lt_trans entry.version.toNat_lt (by decide))
  have cidValue := unsigned'.strtoll_eq (lt_trans entry.cid.toNat_lt (by decide))
  simp only [Osmobj.ofFields, long _ _ signed.nonempty, long _ _ unsigned.nonempty,
    long _ _ unsigned'.nonempty, or_self,
    ↓reduceIte, List.head?_cons, Option.bind_some, charToItemType_toChar, ne_eq, not_true_eq_false,
    List.tail_cons, idValue, versionValue, cidValue, ofInt_toNat, Int64.ofInt_toInt]

private theorem head_letter {type : ItemType} (letter : obj.head?.bind charToItemType = some type) :
    obj.head? = some type.toChar := by
  obtain ⟨c, head, known⟩ := Option.bind_eq_some_iff.mp letter
  rw [head, charToItemType_letter known]

private theorem head_unknown (unknown : obj.head?.bind charToItemType = none) (type : ItemType) :
    obj.head? ≠ some type.toChar := by
  intro letter
  simp [letter] at unknown

/-- The constructor raises exactly when one of its checks fails; the numbers are not checked. -/
theorem ofFields_cases (obj version changeset : Text) :
    (FieldsRefused obj version changeset ∧ ∃ what, Osmobj.ofFields obj version changeset = .error (wrongFormat what)) ∨
      ¬ FieldsRefused obj version changeset ∧ ∃ entry, Osmobj.ofFields obj version changeset = .ok entry := by
  unfold Osmobj.ofFields
  by_cases short : obj.length < 2 ∨ version.length < 2 ∨ changeset.length < 2
  · exact .inl ⟨.inl short, _, if_pos short⟩
  rw [if_neg short]
  cases letter : obj.head?.bind charToItemType with
  | none => exact .inl ⟨.inr (.inl (head_unknown letter)), _, rfl⟩
  | some type =>
    by_cases noVersion : version.head? ≠ some 'v'
    · exact .inl ⟨.inr (.inr (.inl noVersion)), _, if_pos noVersion⟩
    by_cases noChangeset : changeset.head? ≠ some 'c'
    · exact .inl ⟨.inr (.inr (.inr noChangeset)), _, (if_neg noVersion).trans (if_pos noChangeset)⟩
    refine .inr ⟨?_, _, (if_neg noVersion).trans (if_neg noChangeset)⟩
    rintro (wrong | wrong | wrong | wrong)
    · exact short wrong
    · exact wrong type (head_letter letter)
    · exact noVersion wrong
    · exact noChangeset wrong

private theorem readLogLine_fields {line lsn xid : Text}
    (split : splitString line ' ' = [lsn, xid, "N".toList, obj, version, changeset])
    (content : LogContent) : readLogLine content line = content.add <$> Osmobj.ofFields obj version changeset := by
  rw [readLogLine, readLine, split]
  simp only [↓reduceIte]
  cases Osmobj.ofFields obj version changeset <;> rfl

theorem readLog_fields {line lsn xid : Text} (single : '\n' ∉ line)
    (split : splitString line ' ' = [lsn, xid, "N".toList, obj, version, changeset]) (content : LogContent)
    (rest : Text) :
    readLog content (line ++ '\n' :: rest) =
      (content.add <$> Osmobj.ofFields obj version changeset) >>= fun content => readLog content rest := by
  rw [readLog_line single, readLogLine_fields split]

theorem not_readsGrammar {line lsn xid : Text} (single : '\n' ∉ line)
    (split : splitString line ' ' = [lsn, xid, "N".toList, obj, version, changeset]) {entry : Osmobj}
    (read : Osmobj.ofFields obj version changeset = .ok entry)
    (outside : ∀ entry, ¬ EntryGrammar obj version changeset entry) :
    ¬ ReadsGrammar line obj version changeset := by
  intro keeps
  obtain ⟨what, raised⟩ := keeps.raises outside {} []
  rw [readLog_fields single split, read] at raised
  cases raised

/-- The reader keeps to the grammar on a line exactly when the line is in it, or fails one
of the checks on lengths and letters: what follows the letters is taken for whatever number
it starts with. -/
theorem readLog_grammar {line lsn xid : Text} (single : '\n' ∉ line)
    (split : splitString line ' ' = [lsn, xid, "N".toList, obj, version, changeset]) :
    ReadsGrammar line obj version changeset ↔
      (∃ entry, EntryGrammar obj version changeset entry) ∨ FieldsRefused obj version changeset := by
  constructor
  · intro keeps
    by_contra neither
    obtain ⟨outside, taken⟩ := not_or.mp neither
    rcases ofFields_cases obj version changeset with ⟨refused, _⟩ | ⟨_, entry, read⟩
    · exact taken refused
    · exact not_readsGrammar single split read (not_exists.mp outside) keeps
  · intro condition
    constructor
    · intro entry grammar content rest
      rw [readLog_fields single split, grammar.ofFields]
      rfl
    · intro outside content rest
      rcases ofFields_cases obj version changeset with ⟨_, what, raised⟩ | ⟨taken, _⟩
      · exact ⟨what, by rw [readLog_fields single split, raised]; rfl⟩
      · exact (condition.elim (fun ⟨entry, grammar⟩ => outside entry grammar) taken).elim

end Fields

theorem readLog_grammar_one : ReadsGrammar "0/1 7 N n-5 v2 c3".toList "n-5".toList "v2".toList "c3".toList :=
  (readLog_grammar (by decide) (show _ = ["0/1".toList, "7".toList, _, _, _, _] by decide)).mpr (.inl
    ⟨⟨.node, -5, 2, 3⟩, ⟨_, rfl, .negative ⟨by decide, List.all_eq_true.mp (by decide), rfl⟩⟩,
      ⟨_, rfl, by decide, List.all_eq_true.mp (by decide), rfl⟩,
        ⟨_, rfl, by decide, List.all_eq_true.mp (by decide), rfl⟩⟩)

/-- Trailing letters, a number without digits, saturation at 64 bits and wrap-around at 32
bits go unnoticed. -/
theorem readLog_grammar_fails :
    ¬ ReadsGrammar "0/1 7 N n1x v1 c1".toList "n1x".toList "v1".toList "c1".toList ∧
      ¬ ReadsGrammar "0/1 7 N nx v1 c1".toList "nx".toList "v1".toList "c1".toList ∧
      ¬ ReadsGrammar "0/1 7 N n9223372036854775808 v1 c1".toList "n9223372036854775808".toList
        "v1".toList "c1".toList ∧
      ¬ ReadsGrammar "0/1 7 N n1 v4294967297 c1".toList "n1".toList "v4294967297".toList "c1".toList := by
  refine ⟨?_, ?_, ?_, ?_⟩
  · refine not_readsGrammar (by decide) (show _ = ["0/1".toList, "7".toList, _, _, _, _] by decide) rfl ?_
    rintro entry ⟨⟨number, same, signed⟩, _, _⟩
    obtain ⟨_, rfl⟩ := List.cons.inj same
    obtain ⟨_, numeral, _⟩ := signed.of_plain (by decide)
    exact absurd (numeral.digits 'x' (by decide)) (by decide)
  · refine not_readsGrammar (by decide) (show _ = ["0/1".toList, "7".toList, _, _, _, _] by decide) rfl ?_
    rintro entry ⟨⟨number, same, signed⟩, _, _⟩
    obtain ⟨_, rfl⟩ := List.cons.inj same
    obtain ⟨_, numeral, _⟩ := signed.of_plain (by decide)
    exact absurd (numeral.digits 'x' (by decide)) (by decide)
  · refine not_readsGrammar (by decide) (show _ = ["0/1".toList, "7".toList, _, _, _, _] by decide) rfl ?_
    rintro entry ⟨⟨number, same, signed⟩, _, _⟩
    obtain ⟨_, rfl⟩ := List.cons.inj same
    obtain ⟨n, numeral, value⟩ := signed.of_plain (by decide)
    have large : 9223372036854775808 = n := numeral.value
    have small := entry.id.toInt_lt
    omega
  · refine not_readsGrammar (by decide) (show _ = ["0/1".toList, "7".toList, _, _, _, _] by decide) rfl ?_
    rintro entry ⟨_, ⟨number, same, unsigned⟩, _⟩
    obtain ⟨_, rfl⟩ := List.cons.inj same
    have small := entry.version.toNat_lt
    have value : 4294967297 = entry.version.toNat := unsigned.value
    omega

/-- The three fields both log writers print for an entry. -/
def Osmobj.fields (obj : Osmobj) : Text :=
  obj.type.toChar :: intText obj.id.toInt ++ " v".toList ++ natText obj.version.toNat ++
    " c".toList ++ natText obj.cid.toNat

theorem numeral_natText (n : Nat) : Numeral (natText n) n :=
  ⟨decimal.print_ne_nil n, decimal.print_isDigit n, decimal.read_print n⟩

private theorem signedNumeral_intText (z : Int) : SignedNumeral (intText z) z := by
  have magnitude := numeral_natText z.natAbs
  unfold intText
  split
  · have negative := SignedNumeral.negative magnitude
    have value : -(z.natAbs : Int) = z := by omega
    rwa [value] at negative
  · have unsigned := SignedNumeral.unsigned magnitude
    have value : (z.natAbs : Int) = z := by omega
    rwa [value] at unsigned

theorem Osmobj.printed_grammar (obj : Osmobj) :
    EntryGrammar (obj.type.toChar :: intText obj.id.toInt) ('v' :: natText obj.version.toNat)
      ('c' :: natText obj.cid.toNat) obj :=
  ⟨⟨_, rfl, signedNumeral_intText _⟩, ⟨_, rfl, numeral_natText _⟩, ⟨_, rfl, numeral_natText _⟩⟩

theorem readLine_of_action {lsn xid action : Text} (plainLsn : ' ' ∉ lsn) (plainXid : ' ' ∉ xid)
    (plainAction : ' ' ∉ action) (rest : Text) :
    splitString (lsn ++ ' ' :: xid ++ ' ' :: action ++ ' ' :: rest) ' ' =
      lsn :: xid :: action :: rest.splitOn ' ' := by
  have nonempty : lsn ++ ' ' :: xid ++ ' ' :: action ++ ' ' :: rest ≠ [] := by simp
  rw [splitString, if_neg nonempty]
  simp only [List.append_assoc, List.cons_append]
  rw [List.splitOn_append_cons_self_of_not_mem plainLsn,
    List.splitOn_append_cons_self_of_not_mem plainXid,
    List.splitOn_append_cons_self_of_not_mem plainAction]

/-- Every entry printed as an `N` line is read back, whatever LSN and xid stand in front. -/
theorem readLine_entry {lsn xid : Text} (plainLsn : ' ' ∉ lsn) (plainXid : ' ' ∉ xid) (obj : Osmobj) :
    readLine (lsn ++ ' ' :: xid ++ " N ".toList ++ obj.fields) = .ok (some obj) := by
  have blank : decimal.isDigit ' ' = false := by decide
  have plainId : ' ' ∉ obj.type.toChar :: intText obj.id.toInt := by
    have := not_mem_intText blank (by decide) obj.id.toInt
    cases type : obj.type <;> simpa [ItemType.toChar] using this
  have plainVersion : ' ' ∉ 'v' :: natText obj.version.toNat := by
    simpa using not_mem_natText blank (by decide) obj.version.toNat
  have plainCid : ' ' ∉ 'c' :: natText obj.cid.toNat := by
    simpa using not_mem_natText blank (by decide) obj.cid.toNat
  have split := readLine_of_action plainLsn plainXid (show ' ' ∉ "N".toList by decide) obj.fields
  have fields : obj.fields = (obj.type.toChar :: intText obj.id.toInt) ++
      ' ' :: ('v' :: natText obj.version.toNat ++ ' ' :: ('c' :: natText obj.cid.toNat)) := by
    simp [Osmobj.fields]
  have line : lsn ++ ' ' :: xid ++ " N ".toList ++ obj.fields =
      lsn ++ ' ' :: xid ++ ' ' :: "N".toList ++ ' ' :: obj.fields := by simp
  rw [readLine, line, split, fields, List.splitOn_append_cons_self_of_not_mem plainId,
    List.splitOn_append_cons_self_of_not_mem plainVersion, List.splitOn_eq_singleton plainCid]
  simp only [↓reduceIte, obj.printed_grammar.ofFields]
  rfl

end Osmdbt
