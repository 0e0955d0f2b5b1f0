import Osmdbt.Timestamp
import Osmdbt.General.CText

/-! The replication state: its file format, and where the files of a sequence
number are stored. -/

namespace Osmdbt

open General

structure State where
  sequenceNumber : Nat
  timestamp : Timestamp
  deriving DecidableEq, Repr

def weekdays : List String := ["Thu", "Fri", "Sat", "Sun", "Mon", "Tue", "Wed"]
def months : List String := ["Jan", "Feb", "Mar", "Apr", "May", "Jun", "Jul", "Aug", "Sep", "Oct", "Nov", "Dec"]

/-- `#%a %b %d %H:%M:%S UTC %Y` -/
def commentFields (weekday month : String) (day hour minute second year : Nat) : Text :=
  '#' :: weekday.toList ++ ' ' :: month.toList ++ ' ' :: twoDigits day ++ ' ' :: twoDigits hour ++
    ':' :: twoDigits minute ++ ':' :: twoDigits second ++ " UTC ".toList ++ fourDigits year

/-- `strftime` on the broken-down time -/
def commentText (time : Timestamp) : Text :=
  let days := time.toNat / 86400
  let seconds := time.toNat % 86400
  let date := civilDate days
  commentFields (weekdays.getD (days % 7) "") (months.getD (date.2.1 - 1) "") date.2.2 (seconds / 3600)
    (seconds / 60 % 60) (seconds % 60) date.1

def commentLine (time : Timestamp) : Text := commentText time ++ ['\n']

/-- The colons of a timestamp are written with a backslash in front. -/
def escapeColons (text : Text) : Text := text.flatMap (fun c => if c = ':' then ['\\', ':'] else [c])

/-- `State::to_string` -/
def State.toText (state : State) (commentTimestamp : Timestamp) : Text :=
  (if commentTimestamp > 0 then commentLine commentTimestamp else []) ++
    "sequenceNumber=".toList ++ natText state.sequenceNumber ++
    "\ntimestamp=".toList ++ escapeColons (toIsoAll state.timestamp) ++ ['\n']

def removeBackslash (text : Text) : Text := text.filter (· ≠ '\\')

def State.fileFault (what filename : Text) : Fault :=
  .runtimeError (what ++ " in state file '".toList ++ filename ++ "'".toList)

/-- What the reader takes out of one line. -/
def State.readLine (filename : Text) (state : State) (line : Text) : Except Fault State :=
  match line with
  | [] => .ok state
  | c :: _ =>
    if c = Char.ofNat 0 ∨ c = '#' then .ok state
    else match splitString line '=' with
      | [name, value] =>
        if name = "sequenceNumber".toList then
          match strtoull decimal value with
          | (number, []) => .ok { state with sequenceNumber := number }
          | _ => .error (fileFault "Invalid sequenceNumber".toList filename)
        else if name = "timestamp".toList then do
          let timestamp ← parseTimestamp (removeBackslash value)
          return { state with timestamp }
        else .ok state
      | _ => .ok state

/-- The constructor of `State` on the content of an opened file. -/
def State.parse (filename data : Text) : Except Fault State := do
  let state ← (getlines data).foldlM (State.readLine filename) { sequenceNumber := 0, timestamp := 0 }
  if state.sequenceNumber = 0 then .error (fileFault "Missing sequenceNumber".toList filename)
  else if state.timestamp = 0 then .error (fileFault "Missing timestamp".toList filename)
  else return state

/-- `%09zu` -/
def paddedNumber (n : Nat) : Text := List.replicate (9 - (natText n).length) '0' ++ natText n

/-- `State::path` for a number with at most nine digits. -/
def State.path (state : State) : Text :=
  let digits := paddedNumber state.sequenceNumber
  digits.take 3 ++ '/' :: (digits.drop 3).take 3 ++ '/' :: digits.drop 6

def State.statePath (state : State) : Text := state.path ++ ".state.txt".toList
def State.oscPath (state : State) : Text := state.path ++ ".osc".toList

/-- Only the first component of the path. -/
def State.dir1Path (state : State) : Text := state.path.take 3

/-- Without `/nnn` at the end. -/
def State.dir2Path (state : State) : Text := state.path.take (state.path.length - 4)

example : (State.mk 1234567 0).oscPath = "001/234/567.osc".toList := by decide
example : (State.mk 1234567 0).dir2Path = "001/234".toList := by decide

theorem digits_single {text : Text} (digits : ∀ c ∈ text, decimal.isDigit c = true) : '\n' ∉ text :=
  fun member => Bool.noConfusion ((digits _ member).symm.trans (by decide : decimal.isDigit '\n' = false))

theorem twoDigits_single (n : Nat) : '\n' ∉ twoDigits n :=
  digits_single (by simp [twoDigits, isDigit_digitChar])

theorem fourDigits_single (n : Nat) : '\n' ∉ fourDigits n :=
  digits_single (by simp [fourDigits, isDigit_digitChar])

theorem getD_single {names : List String} (single : ∀ name ∈ names, '\n' ∉ name.toList) (i : Nat) :
    '\n' ∉ (names.getD i "").toList := by
  rw [List.getD_eq_getElem?_getD]
  cases found : names[i]? with
  | none => simp
  | some name => exact single name (List.mem_of_getElem? found)

private theorem commentFields_single {weekday month : String} (first : '\n' ∉ weekday.toList)
    (second : '\n' ∉ month.toList)
    (day hour minute seconds year : Nat) : '\n' ∉ commentFields weekday month day hour minute seconds year := by
  simp [commentFields, first, second, twoDigits_single, fourDigits_single]

theorem commentText_single (time : Timestamp) : '\n' ∉ commentText time :=
  commentFields_single (getD_single (by decide) _) (getD_single (by decide) _) _ _ _ _ _

theorem isoText_single (year month day hour minute second : Nat) :
    '\n' ∉ escapeColons (isoText year month day hour minute second) := by
  have plain : '\n' ∉ isoText year month day hour minute second := by
    simp [isoText, twoDigits_single, fourDigits_single]
  intro member
  obtain ⟨c, inside, here⟩ := List.mem_flatMap.mp member
  split at here
  · simp at here
  · obtain rfl : '\n' = c := by simpa using here
    exact plain inside

theorem readLine_comment (filename : Text) (state : State) (time : Timestamp) :
    State.readLine filename state (commentText time) = .ok state := by
  obtain ⟨rest, comment⟩ : ∃ rest, commentText time = '#' :: rest := ⟨_, rfl⟩
  simp [comment, State.readLine]

/-- A line that is no comment is read by its parts. -/
theorem readLine_parts {c : Char} (plain : c ≠ Char.ofNat 0 ∧ c ≠ '#') (filename line : Text) (state : State) :
    State.readLine filename state (c :: line) =
      match (c :: line).splitOn '=' with
      | [name, value] =>
        if name = "sequenceNumber".toList then
          match strtoull decimal value with
          | (number, []) => .ok { state with sequenceNumber := number }
          | _ => .error (State.fileFault "Invalid sequenceNumber".toList filename)
        else if name = "timestamp".toList then do
          let timestamp ← parseTimestamp (removeBackslash value)
          return { state with timestamp }
        else .ok state
      | _ => .ok state := by
  simp only [State.readLine, plain.1, plain.2, or_self, ↓reduceIte, splitString, reduceCtorEq]

theorem readLine_number {n : Nat} (small : n < 2 ^ 64) (filename : Text) (state : State) :
    State.readLine filename state ("sequenceNumber=".toList ++ natText n) =
      .ok { state with sequenceNumber := n } := by
  have parts : ("sequenceNumber".toList ++ '=' :: natText n).splitOn '=' = ["sequenceNumber".toList, natText n] := by
    rw [List.splitOn_append_cons_self_of_not_mem (by decide),
      List.splitOn_eq_singleton (not_mem_natText (by decide) (by decide) n)]
  have number : strtoull decimal (natText n) = (n, []) := by
    have stop : ∀ c ∈ ([] : Text).head?, decimal.isDigit c = false ∧ c ≠ 'x' ∧ c ≠ 'X' := by simp
    have read := strtoull_digits decimal_plain (decimal.print_ne_nil n) (decimal.print_isDigit n) (by decide) stop
      (by rwa [decimal.read_print])
    rwa [List.append_nil, decimal.read_print] at read
  refine (readLine_parts (c := 's') (by decide) filename ("equenceNumber=".toList ++ natText n) state).trans ?_
  rw [show 's' :: ("equenceNumber=".toList ++ natText n) = "sequenceNumber".toList ++ '=' :: natText n from rfl, parts]
  simp only [number, ↓reduceIte]

theorem read_zeros (k : Nat) (cs : Text) : decimal.read (List.replicate k '0' ++ cs) = decimal.read cs := by
  induction k with
  | zero => rfl
  | succ k ih => exact ih

theorem length_paddedNumber (n : Nat) : 9 ≤ (paddedNumber n).length := by
  simp only [paddedNumber, List.length_append, List.length_replicate]
  omega

private theorem paddedNumber_inj {m n : Nat} (same : paddedNumber m = paddedNumber n) : m = n := by
  have read := congrArg decimal.read same
  rwa [paddedNumber, paddedNumber, read_zeros, read_zeros, decimal.read_print, decimal.read_print] at read

theorem length_path (state : State) : 11 ≤ state.path.length := by
  have long := length_paddedNumber state.sequenceNumber
  simp only [State.path, List.length_append, List.length_cons, List.length_take, List.length_drop]
  omega

theorem State.path_inj {state other : State} (same : state.path = other.path) :
    state.sequenceNumber = other.sequenceNumber := by
  have long := length_paddedNumber state.sequenceNumber
  have long' := length_paddedNumber other.sequenceNumber
  have parts (digits : Text) : digits = digits.take 3 ++ ((digits.drop 3).take 3 ++ digits.drop 6) := by
    conv_lhs => rw [← List.take_append_drop 3 digits, ← List.take_append_drop 3 (digits.drop 3), List.drop_drop]
  apply paddedNumber_inj
  revert long long' same
  unfold State.path
  generalize paddedNumber state.sequenceNumber = digits
  generalize paddedNumber other.sequenceNumber = digits'
  intro same long long'
  simp only [List.append_assoc, List.cons_append] at same
  obtain ⟨front, rest⟩ := List.append_inj same (by simp only [List.length_take]; omega)
  obtain ⟨middle, back⟩ := List.append_inj (List.cons.inj rest).2
    (by simp only [List.length_take, List.length_drop]; omega)
  rw [parts digits, parts digits', front, middle, (List.cons.inj back).2]

end Osmdbt
