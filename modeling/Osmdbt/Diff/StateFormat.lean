import Osmdbt.Diff.State
import Osmdbt.Calendar
import Osmdbt.General.Insertion

/-! What the reader of state files accepts: every text with the two properties in it,
whatever else stands between them. -/

namespace Osmdbt

open General

/-- A text whose colons have or do not have a backslash in front of them. -/
inductive Escaped : Text → Text → Prop
  | nil : Escaped [] []
  | plain (c : Char) {text out : Text} : Escaped text out → Escaped (c :: text) (c :: out)
  | colon {text out : Text} : Escaped text out → Escaped (':' :: text) ('\\' :: ':' :: out)

theorem Escaped.refl (text : Text) : Escaped text text := by
  induction text with
  | nil => exact .nil
  | cons c _ ih => exact .plain c ih

theorem Escaped.append {text out text' out' : Text} (first : Escaped text out) (second : Escaped text' out') :
    Escaped (text ++ text') (out ++ out') := by
  induction first with
  | nil => exact second
  | plain c _ ih => exact .plain c ih
  | colon _ ih => exact .colon ih

theorem escaped_escapeColons (text : Text) : Escaped text (escapeColons text) := by
  induction text with
  | nil => exact .nil
  | cons c rest ih =>
    unfold escapeColons
    rw [List.flatMap_cons]
    split
    · rename_i colon
      subst colon
      exact .colon ih
    · exact .plain c ih

theorem removeBackslash_escaped {text out : Text} (escaped : Escaped text out) (plain : '\\' ∉ text) :
    removeBackslash out = text := by
  induction escaped with
  | nil => rfl
  | plain c _ ih =>
    obtain ⟨first, later⟩ := not_or.mp (mt List.mem_cons.mpr plain)
    rw [removeBackslash, List.filter_cons_of_pos (by simpa using Ne.symm first)]
    exact congrArg _ (ih later)
  | colon _ ih =>
    obtain ⟨_, later⟩ := not_or.mp (mt List.mem_cons.mpr plain)
    rw [removeBackslash, List.filter_cons_of_neg (by decide), List.filter_cons_of_pos (by decide)]
    exact congrArg _ (ih later)

private theorem not_mem_escaped {text out : Text} (escaped : Escaped text out) {c : Char}
    (plain : c ∉ text) (other : c ≠ '\\') :
    c ∉ out := by
  induction escaped with
  | nil => exact plain
  | plain d _ ih =>
    obtain ⟨first, later⟩ := not_or.mp (mt List.mem_cons.mpr plain)
    exact fun member => (List.mem_cons.mp member).elim first (ih later)
  | colon _ ih =>
    obtain ⟨first, later⟩ := not_or.mp (mt List.mem_cons.mpr plain)
    exact fun member => (List.mem_cons.mp member).elim other
      (fun member => (List.mem_cons.mp member).elim first (ih later))

/-- A front without colons is the same in every form. -/
theorem Escaped.front {front text out : Text} (plain : ':' ∉ front) (escaped : Escaped (front ++ text) out) :
    ∃ rest, out = front ++ rest ∧ Escaped text rest := by
  induction front generalizing out with
  | nil => exact ⟨out, rfl, escaped⟩
  | cons c front ih =>
    obtain ⟨other, later⟩ := not_or.mp (mt List.mem_cons.mpr plain)
    cases escaped with
    | plain _ escaped =>
      obtain ⟨rest, rfl, there⟩ := ih later escaped
      exact ⟨rest, rfl, there⟩
    | colon => exact absurd rfl other

/-- Two texts that differ at most in the backslashes in front of their colons. -/
def Reescaped (text out : Text) : Prop := ∃ plain, '\\' ∉ plain ∧ Escaped plain text ∧ Escaped plain out

private theorem not_mem_isoText {c : Char} (digit : decimal.isDigit c = false) (other : c ∉ ['-', ':', 'T', 'Z'])
    (year month day hour minute second : Nat) : c ∉ isoText year month day hour minute second := by
  have digits {text : Text} (all : ∀ d ∈ text, decimal.isDigit d = true) : c ∉ text :=
    fun member => Bool.noConfusion ((all _ member).symm.trans digit)
  have two (n : Nat) : c ∉ twoDigits n := digits (by simp [twoDigits, isDigit_digitChar])
  have four (n : Nat) : c ∉ fourDigits n := digits (by simp [fourDigits, isDigit_digitChar])
  simp_all [isoText]

theorem not_mem_toIsoAll {c : Char} (digit : decimal.isDigit c = false) (other : c ∉ ['-', ':', 'T', 'Z'])
    (timestamp : Timestamp) : c ∉ toIsoAll timestamp := not_mem_isoText digit other _ _ _ _ _ _

def State.numberLine (state : State) : Text := "sequenceNumber=".toList ++ natText state.sequenceNumber

/-- A line for the timestamp in one of its forms. -/
def timestampLine (timestamp : Text) : Text := "timestamp=".toList ++ timestamp

/-- The line with the timestamp is read back. -/
private theorem readLine_timestampLine {state : State} {value : Text}
    (escaped : Escaped (toIsoAll state.timestamp) value)
    (filename : Text) (before : State) :
    State.readLine filename before (timestampLine value) = .ok { before with timestamp := state.timestamp } := by
  have plain : '\\' ∉ toIsoAll state.timestamp := not_mem_toIsoAll (by decide) (by decide) state.timestamp
  have single : '=' ∉ value := not_mem_escaped escaped (not_mem_toIsoAll (by decide) (by decide)
    state.timestamp) (by decide)
  have parsed := parseTimestamp_toIsoAll state.timestamp
  rw [← removeBackslash_escaped escaped plain] at parsed
  have parts : ("timestamp".toList ++ '=' :: value).splitOn '=' = ["timestamp".toList, value] := by
    rw [List.splitOn_append_cons_self_of_not_mem (by decide), List.splitOn_eq_singleton single]
  have line : timestampLine value = 't' :: ("imestamp=".toList ++ value) := rfl
  rw [line, readLine_parts (by decide), show 't' :: ("imestamp=".toList ++ value) =
    "timestamp".toList ++ '=' :: value from rfl, parts]
  simp only
  rw [if_neg (by decide), if_pos trivial, parsed]
  rfl

/-- The lines that have to be ignored: empty ones, comments and other properties. -/
inductive Ignored : Text → Prop
  | empty : Ignored []
  | comment (rest : Text) : Ignored ('#' :: rest)
  | property {name : Text} (value : Text) : name ≠ "sequenceNumber".toList → name ≠ "timestamp".toList →
      Ignored (name ++ '=' :: value)

private theorem splitOn_property {name value first second : Text}
    (parts : (name ++ '=' :: value).splitOn '=' = [first, second]) : first = name := by
  by_cases inside : '=' ∈ name
  · obtain ⟨front, middle, rfl, single⟩ := List.eq_append_cons_of_mem inside
    obtain ⟨front', rest, same, single'⟩ := List.eq_append_cons_of_mem (show '=' ∈ middle ++ '=' :: value by simp)
    rw [List.append_assoc, List.cons_append, List.splitOn_append_cons_self_of_not_mem single, same,
      List.splitOn_append_cons_self_of_not_mem single'] at parts
    exact absurd (List.cons.inj (List.cons.inj parts).2).2 (List.splitOn_ne_nil '=' rest)
  · rw [List.splitOn_append_cons_self_of_not_mem inside] at parts
    exact (List.cons.inj parts).1.symm

private theorem readLine_ignored {line : Text} (ignored : Ignored line) (filename : Text) (state : State) :
    State.readLine filename state line = .ok state := by
  cases ignored with
  | empty => rfl
  | comment rest => rfl
  | @property name value notNumber notTimestamp =>
    obtain ⟨c, rest, split⟩ := List.exists_cons_of_ne_nil (show name ++ '=' :: value ≠ [] by simp)
    by_cases plain : c ≠ Char.ofNat 0 ∧ c ≠ '#'
    · rw [split, readLine_parts plain, ← split]
      generalize parts : (name ++ '=' :: value).splitOn '=' = fields
      split
      · rw [splitOn_property parts, if_neg notNumber, if_neg notTimestamp]
      · rfl
    · rw [split, State.readLine, if_pos (by tauto)]

def commentLines (commentTimestamp : Timestamp) : List Text :=
  if commentTimestamp > 0 then [commentText commentTimestamp] else []

/-- A text made from the lines of `State::to_string`: the two properties in either order, the colons of the
timestamp escaped or not, and further lines put anywhere. -/
inductive Rendering (state : State) (commentTimestamp : Timestamp) : Text → Prop
  | text {comment properties lines : List Text} {number written timestamp : Text}
      (source : getlines (state.toText commentTimestamp) = comment ++ [number, written])
      (escaped : Reescaped written timestamp)
      (order : properties = [number, timestamp] ∨ properties = [timestamp, number])
      (inserted : Inserted Ignored (comment ++ properties) lines) (single : ∀ line ∈ lines, '\n' ∉ line) :
      Rendering state commentTimestamp (lines.flatMap (fun line => line ++ ['\n']))

theorem toText_lines (state : State) (commentTimestamp : Timestamp) : state.toText commentTimestamp =
    (commentLines commentTimestamp ++ [state.numberLine,
      timestampLine (escapeColons (toIsoAll state.timestamp))]).flatMap
      (fun line => line ++ ['\n']) := by
  have comment : (if commentTimestamp > 0 then commentLine commentTimestamp else []) =
      (commentLines commentTimestamp).flatMap (fun line => line ++ ['\n']) := by
    unfold commentLines
    split
    · exact (List.flatMap_singleton _ _).symm
    · rfl
  have texts (a b c d e : Text) : a ++ (b ++ c ++ ['\n'] ++ (d ++ e ++ ['\n'])) =
      a ++ b ++ c ++ ('\n' :: d) ++ e ++ ['\n'] := by
    simp only [List.append_assoc, List.cons_append, List.nil_append]
  rw [List.flatMap_append, List.flatMap_cons, List.flatMap_singleton, ← comment]
  exact (texts _ _ _ _ _).symm

theorem toText_single (state : State) (commentTimestamp : Timestamp) :
    ∀ line ∈ commentLines commentTimestamp ++
      [state.numberLine, timestampLine (escapeColons (toIsoAll state.timestamp))], '\n' ∉ line := by
  intro line member
  rcases List.mem_append.mp member with comment | property
  · unfold commentLines at comment
    split at comment
    · obtain rfl := List.mem_singleton.mp comment
      exact commentText_single commentTimestamp
    · cases comment
  · have both {first second : Text} (single : '\n' ∉ first) (single' : '\n' ∉ second) : '\n' ∉ first ++ second :=
      fun inside => (List.mem_append.mp inside).elim single single'
    rcases List.mem_pair.mp property with rfl | rfl
    · exact both (by decide) (not_mem_natText (by decide) (by decide) _)
    · exact both (by decide) (isoText_single _ _ _ _ _ _)

theorem getlines_toText (state : State) (commentTimestamp : Timestamp) :
    getlines (state.toText commentTimestamp) =
      commentLines commentTimestamp ++ [state.numberLine,
        timestampLine (escapeColons (toIsoAll state.timestamp))] := by
  rw [toText_lines, getlines_lines (toText_single state commentTimestamp)]

/-- What is written is one of the renderings. -/
theorem rendering_toText (state : State) (commentTimestamp : Timestamp) :
    Rendering state commentTimestamp (state.toText commentTimestamp) := by
  have plain : '\\' ∉ "timestamp=".toList ++ toIsoAll state.timestamp := fun inside =>
    (List.mem_append.mp inside).elim (by decide) (not_mem_toIsoAll (by decide) (by decide) state.timestamp)
  have escaped : Escaped ("timestamp=".toList ++ toIsoAll state.timestamp)
      (timestampLine (escapeColons (toIsoAll state.timestamp))) :=
    (Escaped.refl _).append (escaped_escapeColons _)
  rw [toText_lines]
  exact .text (getlines_toText state commentTimestamp) ⟨_, plain, escaped, escaped⟩ (.inl rfl) (.refl _)
    (toText_single state commentTimestamp)

/-- The timestamp line of a rendering. -/
theorem Reescaped.timestamp {time : Timestamp} {line : Text}
    (escaped : Reescaped (timestampLine (escapeColons (toIsoAll time))) line) :
    ∃ value, line = timestampLine value ∧ Escaped (toIsoAll time) value := by
  obtain ⟨text, plain, written, rendered⟩ := escaped
  have plain' : '\\' ∉ "timestamp=".toList ++ toIsoAll time := fun inside =>
    (List.mem_append.mp inside).elim (by decide) (not_mem_toIsoAll (by decide) (by decide) time)
  have own := (Escaped.refl "timestamp=".toList).append (escaped_escapeColons (toIsoAll time))
  obtain rfl : "timestamp=".toList ++ toIsoAll time = text :=
    (removeBackslash_escaped own plain').symm.trans (removeBackslash_escaped written plain)
  exact rendered.front (by decide)

theorem State.parse_folded {filename data : Text} {state : State} (positive : 0 < state.sequenceNumber)
    (folded : (getlines data).foldlM (State.readLine filename) { sequenceNumber := 0, timestamp := 0 } = .ok state) :
    State.parse filename data =
      if state.timestamp = 0 then .error (fileFault "Missing timestamp".toList filename) else .ok state := by
  unfold State.parse
  rw [folded]
  change (if state.sequenceNumber = 0 then _ else _) = _
  rw [if_neg positive.ne']
  rfl

/-- What can be read has its lines read. -/
theorem State.parse_lines {filename data : Text} {state : State} (parsed : State.parse filename data = .ok state) :
    (getlines data).foldlM (State.readLine filename) { sequenceNumber := 0, timestamp := 0 } = .ok state := by
  unfold State.parse at parsed
  revert parsed
  generalize (getlines data).foldlM (State.readLine filename) { sequenceNumber := 0, timestamp := 0 } = folded
  intro parsed
  cases folded with
  | error fault => cases parsed
  | ok last =>
    simp only [bind, Except.bind, pure, Except.pure] at parsed
    split at parsed
    · cases parsed
    · split at parsed
      · cases parsed
      · exact congrArg Except.ok (Except.ok.inj parsed)

/-- Both orders of the two properties leave the state behind. -/
private theorem readLines_properties {state : State} (small : state.sequenceNumber < 2 ^ 64) {timestamp : Text}
    (escaped : Escaped (toIsoAll state.timestamp) timestamp) {properties : List Text}
    (order : properties = [state.numberLine, timestampLine timestamp] ∨
      properties = [timestampLine timestamp, state.numberLine])
    (filename : Text) (before : State) : properties.foldlM (State.readLine filename) before = .ok state := by
  have number (before : State) : State.readLine filename before state.numberLine =
      .ok { before with sequenceNumber := state.sequenceNumber } := readLine_number small filename before
  have dated (before : State) := readLine_timestampLine escaped filename before
  rcases order with rfl | rfl
  all_goals simp only [List.foldlM_cons, List.foldlM_nil, number, dated, bind, Except.bind, pure, Except.pure]

private theorem readLines_comment (filename : Text) (before : State) (commentTimestamp : Timestamp) :
    (commentLines commentTimestamp).foldlM (State.readLine filename) before = .ok before := by
  unfold commentLines
  split
  · rw [List.foldlM_cons, readLine_comment]
    rfl
  · rfl

/-- The lines of a rendering set both parts of the state. -/
theorem Rendering.readLines {state : State} (small : state.sequenceNumber < 2 ^ 64) {commentTimestamp : Timestamp}
    {text : Text} (rendering : Rendering state commentTimestamp text) (filename : Text) :
    (getlines text).foldlM (State.readLine filename) { sequenceNumber := 0, timestamp := 0 } = .ok state := by
  cases rendering with
  | @text comment properties lines number written timestamp source escaped order inserted single =>
    obtain ⟨same, pair⟩ := List.append_inj' ((getlines_toText state commentTimestamp).symm.trans source) rfl
    subst same
    obtain ⟨rfl, rest⟩ := List.cons.inj pair
    obtain ⟨rfl, _⟩ := List.cons.inj rest
    obtain ⟨value, rfl, value'⟩ := escaped.timestamp
    rw [getlines_lines single,
      inserted.foldlM_eq (fun line extra before => readLine_ignored extra filename before), List.foldlM_append,
      readLines_comment]
    exact readLines_properties small value' order filename _

/-- A state is read back from its renderings unless its timestamp is the one the reader takes for missing. -/
theorem Rendering.parse_eq {state : State} (positive : 0 < state.sequenceNumber)
    (small : state.sequenceNumber < 2 ^ 64)
    {commentTimestamp : Timestamp} {text : Text} (rendering : Rendering state commentTimestamp text)
    (filename : Text) :
    State.parse filename text =
      if state.timestamp = 0 then .error (State.fileFault "Missing timestamp".toList filename) else .ok state :=
  State.parse_folded positive (rendering.readLines small filename)

theorem State.parse_toText_eq {state : State} (positive : 0 < state.sequenceNumber)
    (small : state.sequenceNumber < 2 ^ 64)
    (filename : Text) (now : Timestamp) : State.parse filename (state.toText now) =
      if state.timestamp = 0 then .error (fileFault "Missing timestamp".toList filename) else .ok state :=
  (rendering_toText state now).parse_eq positive small filename

/-- A state with a number and a timestamp is read back from all its renderings. -/
theorem State.parse_rendering {state : State} (positive : 0 < state.sequenceNumber)
    (small : state.sequenceNumber < 2 ^ 64)
    (dated : state.timestamp ≠ 0) {commentTimestamp : Timestamp} {text : Text}
    (rendering : Rendering state commentTimestamp text)
    (filename : Text) : State.parse filename text = .ok state := by
  rw [rendering.parse_eq positive small filename, if_neg dated]

/-- A text with other properties, the two of a state the other way round, and one colon escaped. -/
def decorated : List Text :=
  ["txnMax=5=6".toList, [], "timestamp=2020-03-18T14\\:18:49Z".toList, "#end".toList,
    "sequenceNumber=18446744073709551615".toList]

theorem State.parse_rendering_decorated :
    State.parse "state.txt".toList (decorated.flatMap (fun line => line ++ ['\n'])) =
      .ok ⟨18446744073709551615, 1584541129⟩ := by
  have written : getlines ((State.mk 18446744073709551615 1584541129).toText 0) =
      [] ++ ["sequenceNumber=18446744073709551615".toList, "timestamp=2020-03-18T14\\:18\\:49Z".toList] := by
    decide +kernel
  have escaped : Reescaped "timestamp=2020-03-18T14\\:18\\:49Z".toList "timestamp=2020-03-18T14\\:18:49Z".toList := by
    have front := (Escaped.refl "timestamp=2020-03-18T14".toList).append
      (.colon (Escaped.refl "18".toList))
    exact ⟨"timestamp=2020-03-18T14:18:49Z".toList, by decide, front.append (.colon (.refl "49Z".toList)),
      front.append (.plain ':' (.refl "49Z".toList))⟩
  have inserted : Inserted Ignored (["timestamp=2020-03-18T14\\:18:49Z".toList,
      "sequenceNumber=18446744073709551615".toList]) decorated := by
    refine .insert (@Ignored.property "txnMax".toList "5=6".toList (by decide) (by decide))
      (.insert .empty (.keep _ ?_))
    exact .insert (.comment _) (.keep _ .nil)
  have single : ∀ line ∈ decorated, '\n' ∉ line := by simp [decorated]
  exact @State.parse_rendering ⟨18446744073709551615, 1584541129⟩ (by decide) (by decide) (by decide) 0 _
    (.text written escaped (.inr rfl) inserted single) _

end Osmdbt
