import Osmdbt.Diff.NumberRange
import Osmdbt.Log.NameOrder

/-! The names of the files and directories of a sequence number. -/

namespace Osmdbt

open General

/-- Three digits. -/
def Group (text : Text) : Prop := text.length = 3 ∧ decimal.Printed text

/-- `ddd/ddd/ddd` -/
def IsPath (path : Text) : Prop :=
  ∃ front middle back, Group front ∧ Group middle ∧ Group back ∧ path = front ++ '/' :: (middle ++ '/' :: back)

def withoutSlashes (path : Text) : Text := path.filter (· ≠ '/')

/-- What is in front of the last slash. -/
def directoryPart (path : Text) : Text := ((path.reverse.dropWhile (· ≠ '/')).drop 1).reverse

theorem directoryPart_slash {name : Text} (plain : '/' ∉ name) (directory : Text) :
    directoryPart (directory ++ '/' :: name) = directory := by
  have skipped : (name.reverse ++ '/' :: directory.reverse).dropWhile (· ≠ '/') = '/' :: directory.reverse := by
    rw [List.dropWhile_append_of_pos (fun c member => ?_)]
    · simp
    · exact decide_eq_true (fun same => plain (same ▸ List.mem_reverse.mp member))
  rw [directoryPart, List.reverse_append, List.reverse_cons, List.append_assoc, List.singleton_append, skipped]
  simp

/-- What is in front of each slash: the directories on the way. -/
def directoryParts : Text → List Text
  | [] => []
  | c :: rest => (if c = '/' then [[]] else []) ++ (directoryParts rest).map (c :: ·)

private theorem directoryParts_plain {name : Text} (plain : '/' ∉ name) : directoryParts name = [] := by
  induction name with
  | nil => rfl
  | cons c rest ih =>
    obtain ⟨other, plain⟩ := not_or.mp (mt List.mem_cons.mpr plain)
    rw [directoryParts, if_neg (Ne.symm other), ih plain]
    rfl

theorem directoryParts_slash {name : Text} (plain : '/' ∉ name) (rest : Text) :
    directoryParts (name ++ '/' :: rest) = name :: (directoryParts rest).map (fun part => name ++ '/' :: part) := by
  induction name with
  | nil => rfl
  | cons c name ih =>
    obtain ⟨other, plain⟩ := not_or.mp (mt List.mem_cons.mpr plain)
    rw [List.cons_append, directoryParts, if_neg (Ne.symm other), ih plain, List.map_cons, List.map_map]
    rfl

private theorem mem_directoryParts {path part : Text} (member : part ∈ directoryParts path) :
    ∃ rest, path = part ++ '/' :: rest := by
  induction path generalizing part with
  | nil => cases member
  | cons c path ih =>
    rw [directoryParts, List.mem_append, List.mem_map] at member
    rcases member with here | ⟨inner, inside, rfl⟩
    · split at here
      · rename_i slash
        obtain rfl := List.mem_singleton.mp here
        exact ⟨path, by rw [slash]; rfl⟩
      · cases here
    · obtain ⟨rest, rfl⟩ := ih inside
      exact ⟨rest, rfl⟩

theorem Group.plain {text : Text} (group : Group text) : '/' ∉ text := by
  intro member
  obtain ⟨d, small, same⟩ := group.2 _ member
  have none : ∀ d < 10, '/' ≠ decimal.char d := by decide
  exact none d small same

theorem Group.filter {text : Text} (group : Group text) : text.filter (· ≠ '/') = text :=
  List.filter_eq_self.mpr (fun _ member => decide_eq_true (fun same => group.plain (same ▸ member)))

/-- The groups of a number, and its paths put together from them. -/
structure Grouped (state : State) (front middle back : Text) : Prop where
  groups : Group front ∧ Group middle ∧ Group back
  number : decimal.read (front ++ (middle ++ back)) = state.sequenceNumber
  path : state.path = front ++ '/' :: (middle ++ '/' :: back)
  dir1 : state.dir1Path = front
  dir2 : state.dir2Path = front ++ '/' :: middle

theorem State.grouped {state : State} (small : state.sequenceNumber ≤ 999999999) :
    ∃ front middle back, Grouped state front middle back := by
  have nine := paddedNumber_length.mpr small
  have printed : decimal.Printed (paddedNumber state.sequenceNumber) := by
    intro c member
    rcases List.mem_append.mp member with zero | digit
    · exact ⟨0, by decide, (List.mem_replicate.mp zero).2⟩
    · exact decimal.print_printed _ c digit
  have number : decimal.read (paddedNumber state.sequenceNumber) = state.sequenceNumber := by
    rw [paddedNumber, read_zeros]
    exact decimal.read_print _
  have path : state.path = (paddedNumber state.sequenceNumber).take
    3 ++ '/' :: (((paddedNumber state.sequenceNumber).drop 3).take 3 ++
      '/' :: (paddedNumber state.sequenceNumber).drop 6) := by
    simp only [State.path, List.append_assoc, List.cons_append]
  revert nine printed number path
  generalize paddedNumber state.sequenceNumber = digits
  intro nine printed number path
  have front : (digits.take 3).length = 3 := by rw [List.length_take, nine]; rfl
  have middle : ((digits.drop 3).take 3).length = 3 := by rw [List.length_take, List.length_drop, nine]; rfl
  have back : (digits.drop 6).length = 3 := by rw [List.length_drop, nine]
  refine ⟨digits.take 3, (digits.drop 3).take 3, digits.drop 6,
    ⟨⟨⟨front, ?_⟩, ⟨middle, ?_⟩, ⟨back, ?_⟩⟩, ?_, path, ?_, ?_⟩⟩
  · exact fun c member => printed c (List.mem_of_mem_take member)
  · exact fun c member => printed c (List.mem_of_mem_drop (List.mem_of_mem_take member))
  · exact fun c member => printed c (List.mem_of_mem_drop member)
  · rwa [← List.drop_drop (i := 3) (j := 3), List.take_append_drop, List.take_append_drop]
  · rw [State.dir1Path, path, List.take_append_of_le_length front.ge, List.take_of_length_le front.le]
  · have split : state.path = (digits.take 3 ++ '/' :: (digits.drop 3).take 3) ++ '/' :: digits.drop 6 := by
      rw [path, List.append_assoc, List.cons_append]
    have length : (digits.take 3 ++ '/' :: (digits.drop 3).take 3).length = state.path.length - 4 := by
      rw [State.path_length small, List.length_append, List.length_cons, front, middle]
    rw [State.dir2Path, ← length, split, List.take_left]

section Grouped

variable {state other : State} {front middle back front' middle' back' : Text}

theorem Grouped.isPath (grouped : Grouped state front middle back) : IsPath state.path :=
  ⟨front, middle, back, grouped.groups.1, grouped.groups.2.1, grouped.groups.2.2, grouped.path⟩

theorem Grouped.read (grouped : Grouped state front middle back) :
    decimal.read (withoutSlashes state.path) = state.sequenceNumber := by
  obtain ⟨first, second, third⟩ := grouped.groups
  rw [withoutSlashes, grouped.path, List.filter_append, List.filter_cons_of_neg (by decide), List.filter_append,
    List.filter_cons_of_neg (by decide), first.filter, second.filter, third.filter, grouped.number]

theorem Grouped.printed (grouped : Grouped state front middle back) : decimal.Printed (front ++ (middle ++ back)) := by
  intro c member
  rcases List.mem_append.mp member with here | here
  · exact grouped.groups.1.2 c here
  rcases List.mem_append.mp here with here | here
  · exact grouped.groups.2.1.2 c here
  · exact grouped.groups.2.2.2 c here

/-- The slashes are at the same places, so they do not matter for the order. -/
theorem Grouped.lt (grouped : Grouped state front middle back) (grouped' : Grouped other front' middle' back')
    (less : state.sequenceNumber < other.sequenceNumber) : state.path < other.path := by
  obtain ⟨⟨first, _⟩, ⟨second, _⟩, third, _⟩ := grouped.groups
  obtain ⟨⟨first', _⟩, ⟨second', _⟩, third', _⟩ := grouped'.groups
  have lengths : (front ++ (middle ++ back)).length = (front' ++ (middle' ++ back')).length := by
    simp only [List.length_append, first, second, third, first', second', third']
  have numbers : front ++ (middle ++ back) < front' ++ (middle' ++ back') := by
    rw [Digits.lt_iff_read decimal_ordered lengths grouped.printed grouped'.printed, grouped.number, grouped'.number]
    exact less
  rw [Digits.append_lt_append_iff (first.trans first'.symm), Digits.append_lt_append_iff
    (second.trans second'.symm)] at numbers
  rw [grouped.path, grouped'.path, Digits.append_lt_append_iff (first.trans first'.symm), List.cons_lt_cons_iff,
    Digits.append_lt_append_iff (second.trans second'.symm), List.cons_lt_cons_iff]
  tauto

/-- The last group is the number modulo 1000. -/
theorem Grouped.thousands (grouped : Grouped state front middle back) :
    decimal.read (front ++ middle) = state.sequenceNumber / 1000 := by
  have small : decimal.read back < 10 ^ back.length := decimal.read_lt back
  have split : decimal.read (front ++ middle) * 10 ^ back.length + decimal.read back = state.sequenceNumber := by
    rw [← grouped.number, ← List.append_assoc]
    exact (decimal.read_append (front ++ middle) back).symm
  rw [grouped.groups.2.2.1] at small split
  omega

theorem Grouped.dir2_iff (grouped : Grouped state front middle back) (grouped' : Grouped other front' middle' back') :
    state.dir2Path = other.dir2Path ↔ state.sequenceNumber / 1000 = other.sequenceNumber / 1000 := by
  obtain ⟨first, second, _⟩ := grouped.groups
  obtain ⟨first', second', _⟩ := grouped'.groups
  have lengths : front.length = front'.length := first.1.trans first'.1.symm
  rw [grouped.dir2, grouped'.dir2, ← grouped.thousands, ← grouped'.thousands]
  constructor
  · intro same
    obtain ⟨rfl, rest⟩ := List.append_inj same lengths
    rw [(List.cons.inj rest).2]
  · intro same
    have whole : front ++ middle = front' ++ middle' := by
      refine Digits.eq_of_read (D := decimal) ?_ ?_ ?_ same
      · rw [List.length_append, List.length_append, lengths, second.1, second'.1]
      · exact fun c member => (List.mem_append.mp member).elim (first.2 c) (second.2 c)
      · exact fun c member => (List.mem_append.mp member).elim (first'.2 c) (second'.2 c)
    obtain ⟨rfl, rfl⟩ := List.append_inj whole lengths
    rfl

/-- A file beside the path has the directory of the path. -/
theorem Grouped.directory (grouped : Grouped state front middle back) {suffix : Text} (plain : '/' ∉ suffix) :
    directoryPart (state.path ++ suffix) = state.dir2Path := by
  have split : state.path ++ suffix = state.dir2Path ++ '/' :: (back ++ suffix) := by
    rw [grouped.path, grouped.dir2]
    simp only [List.append_assoc, List.cons_append]
  rw [split]
  refine directoryPart_slash (fun member => ?_) _
  exact (List.mem_append.mp member).elim grouped.groups.2.2.plain plain

/-- The two directories on the way to a file beside the path. -/
theorem Grouped.parts (grouped : Grouped state front middle back) {suffix : Text} (plain : '/' ∉ suffix) :
    directoryParts (state.path ++ suffix) = [state.dir1Path, state.dir2Path] := by
  obtain ⟨first, second, third⟩ := grouped.groups
  have last : '/' ∉ back ++ suffix := fun member => (List.mem_append.mp member).elim third.plain plain
  have split : state.path ++ suffix = front ++ '/' :: (middle ++ '/' :: (back ++ suffix)) := by
    rw [grouped.path]
    simp only [List.append_assoc, List.cons_append]
  rw [split, directoryParts_slash first.plain, directoryParts_slash second.plain, directoryParts_plain last,
    grouped.dir1, grouped.dir2]
  rfl

end Grouped

theorem State.path_plain (state : State) : '.' ∉ state.path := by
  have digits : '.' ∉ paddedNumber state.sequenceNumber := by
    intro dot
    rcases List.mem_append.mp dot with zero | digit
    · exact absurd (List.mem_replicate.mp zero).2 (by decide)
    · exact not_mem_natText (by decide) (by decide) _ digit
  intro dot
  rcases List.mem_append.mp dot with before | after
  · rcases List.mem_append.mp before with front | middle
    · exact digits (List.mem_of_mem_take front)
    · exact digits (List.mem_of_mem_drop (List.mem_of_mem_take (List.mem_of_ne_of_mem (by decide) middle)))
  · exact digits (List.mem_of_mem_drop (List.mem_of_ne_of_mem (by decide) after))

/-- No directory on the way to a file of any number has a dot in its name. -/
theorem State.parts_plain {state : State} {suffix part : Text} (plain : '/' ∉ suffix)
    (member : part ∈ directoryParts (state.path ++ suffix)) : '.' ∉ part := by
  obtain ⟨rest, split⟩ := mem_directoryParts member
  rcases List.append_eq_append_iff.mp split with ⟨more, _, inside⟩ | ⟨more, front, _⟩
  · exact absurd (inside ▸ by simp) plain
  · exact fun dot => state.path_plain (front ▸ List.mem_append_left _ dot)

/-- The paths of sequence numbers up to 999999999. -/
theorem State.paths_encode {state other : State} (small : state.sequenceNumber ≤ 999999999)
    (small' : other.sequenceNumber ≤ 999999999) :
    (IsPath state.path ∧ decimal.read (withoutSlashes state.path) = state.sequenceNumber) ∧
    (state.sequenceNumber < other.sequenceNumber → state.path < other.path) ∧
    (state.sequenceNumber ≠ other.sequenceNumber → state.oscPath ≠ other.oscPath ∧ state.statePath ≠ other.statePath) ∧
    (directoryPart state.oscPath = state.dir2Path ∧ directoryPart state.statePath = state.dir2Path ∧
      directoryPart state.dir2Path = state.dir1Path) ∧
    (state.dir2Path = other.dir2Path ↔ state.sequenceNumber / 1000 = other.sequenceNumber / 1000) := by
  obtain ⟨front, middle, back, grouped⟩ := State.grouped small
  obtain ⟨front', middle', back', grouped'⟩ := State.grouped small'
  refine ⟨⟨grouped.isPath, grouped.read⟩, grouped.lt grouped', fun different =>
    ⟨fun same => ?_, fun same => ?_⟩, ⟨?_, ?_, ?_⟩,
    grouped.dir2_iff grouped'⟩
  · exact different (State.path_inj (List.append_cancel_right same))
  · exact different (State.path_inj (List.append_cancel_right same))
  · exact grouped.directory (by decide)
  · exact grouped.directory (by decide)
  · rw [grouped.dir2, grouped.dir1]
    exact directoryPart_slash grouped.groups.2.1.plain front

theorem State.paths_encode_thousand : (State.mk 999 0).path < (State.mk 1000 0).path ∧
    directoryPart (State.mk 1000 0).oscPath = "000/001".toList ∧
      (State.mk 999 0).dir2Path ≠ (State.mk 1000 0).dir2Path := by
  have encoded := @State.paths_encode (State.mk 999 0) (State.mk 1000 0) (by decide) (by decide)
  have encoded' := @State.paths_encode (State.mk 1000 0) (State.mk 999 0) (by decide) (by decide)
  exact ⟨encoded.2.1 (by decide), encoded'.2.2.2.1.1.trans (by decide), fun same =>
    absurd (encoded.2.2.2.2.mp same) (by decide)⟩

end Osmdbt
