import Osmdbt.Base
import Osmdbt.General.CText

/-! `lsn_type`: a log sequence number, its text with a slash as PostgreSQL prints
it, and the form with a dash that stands in the names of log files. -/

namespace Osmdbt

open General

def lsnError (lsn : Text) : Fault := .runtimeError ("Error parsing LSN '".toList ++ lsn ++ "'".toList)

/-- The constructor of `lsn_type` on a C string; the result is the 64-bit value. -/
def parseLsn (lsn : Text) : Except Fault Nat :=
  match strtoull hexadecimal lsn with
  | (upper, sep :: rest) =>
    if sep = '-' ∨ sep = '/' then
      match strtoull hexadecimal rest with
      | (lower, []) => .ok ((upper * 2 ^ 32 + lower) % 2 ^ 64)
      | _ => .error (lsnError lsn)
    else .error (lsnError lsn)
  | (_, []) => .error (lsnError lsn)

/-- `lsn_type::str` with the separator in between. -/
def lsnText (sep : Char) (lsn : Nat) : Text :=
  hexadecimal.print (lsn / 2 ^ 32) ++ sep :: hexadecimal.print (lsn % 2 ^ 32)

def lsnStr (lsn : Nat) : Text := lsnText '/' lsn

/-- `std::transform` in get-log: every slash becomes a dash. -/
def dashed (lsn : Text) : Text := lsn.map (fun c => if c = '/' then '-' else c)

theorem hexadecimal_char_upper {d : Nat} (bound : d < 16) :
    ('0' ≤ hexadecimal.char d ∧ hexadecimal.char d ≤ '9') ∨
      ('A' ≤ hexadecimal.char d ∧ hexadecimal.char d ≤ 'F') := by
  have all : ∀ d < 16, ('0' ≤ hexadecimal.char d ∧ hexadecimal.char d ≤ '9') ∨
      ('A' ≤ hexadecimal.char d ∧ hexadecimal.char d ≤ 'F') := by decide
  exact all d bound

private theorem read_half (n : Nat) (small : n < 2 ^ 64) (rest : Text)
    (stop : ∀ c ∈ rest.head?, hexadecimal.isDigit c = false ∧ c ≠ 'x' ∧ c ≠ 'X') :
    strtoull hexadecimal (hexadecimal.print n ++ rest) = (n, rest) := by
  have same := strtoull_digits hexadecimal_plain (hexadecimal.print_ne_nil n) (hexadecimal.print_isDigit n)
    (by decide) stop (by simpa using small)
  simpa using same

/-- The text of a 64-bit value is read back, with either separator. -/
theorem parseLsn_lsnText {sep : Char} (separator : sep = '-' ∨ sep = '/') {lsn : Nat} (small : lsn < 2 ^ 64) :
    parseLsn (lsnText sep lsn) = .ok lsn := by
  have stop : ∀ c ∈ (sep :: hexadecimal.print (lsn % 2 ^ 32)).head?,
      hexadecimal.isDigit c = false ∧ c ≠ 'x' ∧ c ≠ 'X' := by
    intro c member
    obtain rfl : sep = c := by simpa using member
    rcases separator with rfl | rfl <;> decide
  have upper := read_half (lsn / 2 ^ 32) (by omega) _ stop
  have lower := read_half (lsn % 2 ^ 32) (by omega) [] (by simp)
  rw [List.append_nil] at lower
  have value : (lsn / 2 ^ 32 * 2 ^ 32 + lsn % 2 ^ 32) % 2 ^ 64 = lsn := by omega
  simp only [parseLsn, lsnText, upper, lower, separator, ↓reduceIte, value]

private theorem slash_not_digit : hexadecimal.isDigit '/' = false := by decide

theorem dashed_lsnStr (lsn : Nat) : dashed (lsnStr lsn) = lsnText '-' lsn := by
  have keep (n : Nat) : (hexadecimal.print n).map (fun c => if c = '/' then '-' else c) = hexadecimal.print n := by
    have same : (hexadecimal.print n).map (fun c => if c = '/' then '-' else c) = (hexadecimal.print n).map id := by
      apply List.map_congr_left
      intro c member
      have digit := hexadecimal.print_isDigit n c member
      exact if_neg (fun slash => by simp [slash, slash_not_digit] at digit)
    rw [same, List.map_id]
  simp [dashed, lsnStr, lsnText, keep]

/-- One to eight hexadecimal digits of either case: one half of a position. -/
structure Half where
  digits : Text
  length : 1 ≤ digits.length ∧ digits.length ≤ 8
  digit : ∀ c ∈ digits, hexadecimal.isDigit c = true

namespace Half

variable (half : Half)

def value : Nat := hexadecimal.read half.digits

/-- The same number in upper case without leading zeros. -/
def canonical : Text := hexadecimal.stripZeros (half.digits.map Char.toUpper)

theorem nonempty : half.digits ≠ [] := List.length_pos_iff.mp half.length.1

theorem value_lt : half.value < 2 ^ 32 :=
  calc half.value < hexadecimal.base ^ half.digits.length := hexadecimal.read_lt half.digits
    _ ≤ hexadecimal.base ^ 8 := Nat.pow_le_pow_right (by decide) half.length.2
    _ = 2 ^ 32 := by decide

end Half

theorem hexadecimal_toUpper {c : Char} (digit : hexadecimal.isDigit c = true) :
    ∃ d < hexadecimal.base, hexadecimal.value c = some d ∧ c.toUpper = hexadecimal.char d := by
  have all : ∀ n < 103, hexadecimal.isDigit (Char.ofNat n) = true →
      ∃ d < 16, hexadecimal.value (Char.ofNat n) = some d ∧ (Char.ofNat n).toUpper = hexadecimal.char d := by
    decide +kernel
  have known := all c.toNat (by have := (hexadecimal_digit_le digit).2; omega)
  rw [Char.ofNat_toNat] at known
  exact known digit

private theorem printed_toUpper {cs : Text} (digits : ∀ c ∈ cs, hexadecimal.isDigit c = true) :
    hexadecimal.Printed (cs.map Char.toUpper) := by
  intro c member
  obtain ⟨lower, inside, rfl⟩ := List.mem_map.mp member
  obtain ⟨d, bound, _, upper⟩ := hexadecimal_toUpper (digits lower inside)
  exact ⟨d, bound, upper⟩

private theorem read_toUpper {cs : Text} (digits : ∀ c ∈ cs, hexadecimal.isDigit c = true) :
    hexadecimal.read (cs.map Char.toUpper) = hexadecimal.read cs := by
  induction cs with
  | nil => rfl
  | cons c cs ih =>
    obtain ⟨d, bound, value, upper⟩ := hexadecimal_toUpper (digits c (by simp))
    have tail := ih (fun other member => digits other (by simp [member]))
    rw [List.map_cons, hexadecimal.read_cons, hexadecimal.read_cons, tail, List.length_map, upper, value,
      hexadecimal.value_char d bound]

theorem Half.print_value (half : Half) : hexadecimal.print half.value = half.canonical := by
  rw [Half.canonical, ← hexadecimal.print_read_strip (printed_toUpper half.digit), read_toUpper half.digit]
  rfl

/-- The position two halves denote. -/
def position (upper lower : Half) : Nat := upper.value * 2 ^ 32 + lower.value

/-- What holds of every 64-bit value: its text is read back with either separator, and fits
the 20 bytes of the buffer with the terminating zero; the halves come from the shift and the mask. -/
structure ValueText (v : UInt64) : Prop where
  slash : parseLsn (lsnStr v.toNat) = .ok v.toNat
  dash : parseLsn (dashed (lsnStr v.toNat)) = .ok v.toNat
  buffer : (lsnStr v.toNat).length < 20
  halves : lsnStr v.toNat = hexadecimal.print (v >>> 32).toNat ++ '/' :: hexadecimal.print (v &&& 0xffffffff).toNat

/-- What holds of every text of two halves. -/
structure HalvesText (upper lower : Half) : Prop where
  slash : parseLsn (upper.digits ++ '/' :: lower.digits) = .ok (position upper lower)
  dash : parseLsn (upper.digits ++ '-' :: lower.digits) = .ok (position upper lower)
  shift : (UInt64.ofNat upper.value <<< 32 + UInt64.ofNat lower.value).toNat = position upper lower
  halves : position upper lower / 2 ^ 32 = upper.value ∧ position upper lower % 2 ^ 32 = lower.value
  canonical : lsnStr (position upper lower) = upper.canonical ++ '/' :: lower.canonical
  inverse : parseLsn (upper.canonical ++ '/' :: lower.canonical) = .ok (position upper lower)

theorem position_halves (upper lower : Half) :
    position upper lower / 2 ^ 32 = upper.value ∧ position upper lower % 2 ^ 32 = lower.value := by
  have small := lower.value_lt
  unfold position
  omega

theorem position_lt (upper lower : Half) : position upper lower < 2 ^ 64 := by
  have := upper.value_lt
  have := lower.value_lt
  unfold position
  omega

theorem lsnText_position (sep : Char) (upper lower : Half) :
    lsnText sep (position upper lower) = upper.canonical ++ sep :: lower.canonical := by
  rw [lsnText, (position_halves upper lower).1, (position_halves upper lower).2, upper.print_value, lower.print_value]

/-- The two halves are read whether a dash or a slash stands between them. -/
theorem parseLsn_halves {sep : Char} (separator : sep = '-' ∨ sep = '/') (upper lower : Half) :
    parseLsn (upper.digits ++ sep :: lower.digits) = .ok (position upper lower) := by
  have upperSmall := upper.value_lt
  have lowerSmall := lower.value_lt
  have stop : ∀ c ∈ (sep :: lower.digits).head?, hexadecimal.isDigit c = false ∧ c ≠ 'x' ∧ c ≠ 'X' := by
    intro c member
    obtain rfl : sep = c := by simpa using member
    rcases separator with rfl | rfl <;> decide
  have last : ∀ c ∈ ([] : Text).head?, hexadecimal.isDigit c = false ∧ c ≠ 'x' ∧ c ≠ 'X' := by simp
  have readUpper := strtoull_digits hexadecimal_plain upper.nonempty upper.digit (by decide) stop
    (show upper.value < 2 ^ 64 by omega)
  have readLower := strtoull_digits hexadecimal_plain lower.nonempty lower.digit (by decide) last
    (show lower.value < 2 ^ 64 by omega)
  rw [List.append_nil] at readLower
  have value : (upper.value * 2 ^ 32 + lower.value) % 2 ^ 64 = position upper lower :=
    Nat.mod_eq_of_lt (position_lt upper lower)
  simp only [parseLsn, readUpper, readLower, separator, ↓reduceIte]
  exact congrArg _ value

private theorem lsnStr_length {lsn : Nat} (small : lsn < 2 ^ 64) : (lsnStr lsn).length ≤ 17 := by
  have upper : (hexadecimal.print (lsn / 2 ^ 32)).length ≤ 8 :=
    hexadecimal.length_print_le (show lsn / 2 ^ 32 < 16 ^ 8 by omega) (by decide)
  have lower : (hexadecimal.print (lsn % 2 ^ 32)).length ≤ 8 :=
    hexadecimal.length_print_le (show lsn % 2 ^ 32 < 16 ^ 8 by omega) (by decide)
  simp only [lsnStr, lsnText, List.length_append, List.length_cons]
  omega

private theorem valueText (v : UInt64) : ValueText v := by
  have small := v.toNat_lt
  refine ⟨parseLsn_lsnText (.inr rfl) small, ?_, lt_of_le_of_lt (lsnStr_length small) (by decide), ?_⟩
  · rw [dashed_lsnStr]
    exact parseLsn_lsnText (.inl rfl) small
  · have upper : (v >>> 32).toNat = v.toNat / 2 ^ 32 := by
      rw [UInt64.toNat_shiftRight]
      exact Nat.shiftRight_eq_div_pow _ _
    have lower : (v &&& 0xffffffff).toNat = v.toNat % 2 ^ 32 := by
      rw [UInt64.toNat_and]
      exact Nat.and_two_pow_sub_one_eq_mod _ 32
    rw [upper, lower]
    rfl

private theorem shift_halves {upper lower : Nat} (upperSmall : upper < 2 ^ 32) (lowerSmall : lower < 2 ^ 32) :
    (UInt64.ofNat upper <<< 32 + UInt64.ofNat lower).toNat = upper * 2 ^ 32 + lower := by
  have shifted : (UInt64.ofNat upper <<< 32).toNat = upper * 2 ^ 32 := by
    have amount : (32 : UInt64).toNat % 64 = 32 := by decide
    rw [UInt64.toNat_shiftLeft, amount, UInt64.toNat_ofNat', Nat.mod_eq_of_lt (show upper < 2 ^ 64 by omega),
      Nat.shiftLeft_eq, Nat.mod_eq_of_lt (by omega)]
  rw [UInt64.toNat_add, shifted, UInt64.toNat_ofNat', Nat.mod_eq_of_lt (show lower < 2 ^ 64 by omega),
    Nat.mod_eq_of_lt (by omega)]

private theorem halvesText (upper lower : Half) : HalvesText upper lower where
  slash := parseLsn_halves (.inr rfl) upper lower
  dash := parseLsn_halves (.inl rfl) upper lower
  shift := shift_halves upper.value_lt lower.value_lt
  halves := position_halves upper lower
  canonical := lsnText_position '/' upper lower
  inverse := by
    rw [← lsnText_position]
    exact parseLsn_lsnText (.inr rfl) (position_lt upper lower)

private theorem position_lt_iff (upper lower upper' lower' : Half) : position upper lower < position upper' lower' ↔
    upper.value < upper'.value ∨ upper.value = upper'.value ∧ lower.value < lower'.value := by
  have := lower.value_lt
  have := lower'.value_lt
  unfold position
  omega

/-- LSNs and their texts: every value has one, every text of two halves denotes the value of
its halves, the canonical texts are the values one to one, in the order of the halves. -/
theorem lsn_texts : (∀ v, ValueText v) ∧ (∀ upper lower, HalvesText upper lower) ∧
    ∀ upper lower upper' lower' : Half, position upper lower < position upper' lower' ↔
      upper.value < upper'.value ∨ upper.value = upper'.value ∧ lower.value < lower'.value :=
  ⟨valueText, halvesText, position_lt_iff⟩

/-- What `c_str` shows of a string: a zero ends it. -/
def cString (s : Text) : Text := s.takeWhile (· ≠ '\x00')

/-- The constructor of `lsn_type` on a C++ string. -/
def parseLsnString (lsn : Text) : Except Fault Nat := parseLsn (cString lsn)

/-- One to eight hexadecimal digits, a dash or a slash, one to eight hexadecimal digits. -/
def LsnGrammar (lsn : Text) : Prop :=
  ∃ upper lower : Half, ∃ sep, (sep = '-' ∨ sep = '/') ∧ lsn = upper.digits ++ sep :: lower.digits

def KeepsGrammar (lsn : Text) : Prop := (∃ value, parseLsnString lsn = .ok value) ↔ LsnGrammar lsn

/-- Two halves that are empty or whatever `strtoull` takes for a number, with a separator
between them that is not the sign of the whole. -/
def Lenient (lsn : Text) : Prop := ¬ IsScanned hexadecimal lsn ∧
  ∃ first sep second, lsn = first ++ sep :: second ∧ (sep = '-' ∨ sep = '/') ∧
    (first = [] ∨ IsScanned hexadecimal first) ∧ (second = [] ∨ IsScanned hexadecimal second)

private theorem parseLsn_ok {lsn : Text} : (∃ value, parseLsn lsn = .ok value) ↔
    ∃ sep rest, (strtoull hexadecimal lsn).2 = sep :: rest ∧ (sep = '-' ∨ sep = '/') ∧
      (strtoull hexadecimal rest).2 = [] := by
  unfold parseLsn
  rcases strtoull hexadecimal lsn with ⟨upper, _ | ⟨sep, rest⟩⟩
  · simp
  · by_cases separator : sep = '-' ∨ sep = '/'
    · rcases second : strtoull hexadecimal rest with ⟨lower, _ | ⟨c, tail⟩⟩ <;> simp [separator, second]
    · simp [separator]

theorem taken_whole {text : Text} (scanned : text = [] ∨ IsScanned hexadecimal text) :
    (strtoull hexadecimal text).2 = [] := by
  rcases scanned with rfl | scanned
  · rfl
  · have last : ∀ c ∈ ([] : Text).head?, hexadecimal.isDigit c = false ∧ c ≠ 'x' ∧ c ≠ 'X' := by simp
    have whole := strtoull_scanned hexadecimal_plain (by decide) scanned last
    rwa [List.append_nil] at whole

theorem of_taken_whole {text : Text} (whole : (strtoull hexadecimal text).2 = []) :
    text = [] ∨ IsScanned hexadecimal text := by
  rcases strtoull_cases hexadecimal text with none | ⟨taken, split, scanned⟩
  · rw [none] at whole
    exact .inl whole
  · rw [whole, List.append_nil] at split
    exact .inr (split ▸ scanned)

/-- A text that starts with a separator is read as a number only as a whole. -/
private theorem taken_nothing {sep : Char} {second : Text} (separator : sep = '-' ∨ sep = '/')
    (form : second = [] ∨ IsScanned hexadecimal second) (unsigned : ¬ IsScanned hexadecimal (sep :: second)) :
    (strtoull hexadecimal (sep :: second)).2 = sep :: second := by
  rcases strtoull_cases hexadecimal (sep :: second) with none | ⟨text, split, blanks, signed, start,
    digits, rfl, scanned⟩
  · rw [none]
  exfalso
  generalize (strtoull hexadecimal (sep :: second)).2 = rest at split
  have solid : isSpace sep = false ∧ sep ≠ '+' ∧ ¬ (sep = '0' ∨ hexadecimal.isDigit sep = true) := by
    rcases separator with rfl | rfl <;> decide
  cases blanks with
  | cons c blanks =>
    have blank := scanned.blanks c (by simp)
    obtain rfl : sep = c := (List.cons.inj split).1
    simp [solid.1] at blank
  | nil =>
    simp only [List.nil_append, List.append_assoc] at split
    rcases scanned.sign with rfl | rfl | rfl
    · obtain ⟨c, tail, same, form⟩ := scanned.first rest
      rw [List.nil_append, same] at split
      exact solid.2.2 ((List.cons.inj split).1 ▸ form)
    · obtain ⟨rfl, (same : second = start ++ (digits ++ rest))⟩ := List.cons.inj split
      have positive := scanned.head hexadecimal_plain rest
      rw [← same] at positive
      rcases form with rfl | number
      · have := List.length_pos_iff.mpr scanned.nonempty
        have lengths := congrArg List.length same
        simp only [List.length_nil, List.length_append] at lengths
        omega
      · exact unsigned (number.negative positive)
    · exact solid.2.1 (List.cons.inj split).1

private theorem parseLsn_lenient (lsn : Text) : (∃ value, parseLsn lsn = .ok value) ↔ Lenient lsn := by
  rw [parseLsn_ok]
  constructor
  · rintro ⟨sep, rest, first, separator, second⟩
    refine ⟨fun whole => ?_, ?_⟩
    · rw [taken_whole (.inr whole)] at first
      cases first
    · rcases strtoull_cases hexadecimal lsn with none | ⟨text, split, scanned⟩
      · rw [none] at first
        exact ⟨[], sep, rest, first, separator, .inl rfl, of_taken_whole second⟩
      · rw [first] at split
        exact ⟨text, sep, rest, split, separator, .inr scanned, of_taken_whole second⟩
  · rintro ⟨unsigned, first, sep, second, rfl, separator, front, back⟩
    have stop : ∀ c ∈ (sep :: second).head?, hexadecimal.isDigit c = false ∧ c ≠ 'x' ∧ c ≠ 'X' := by
      intro c member
      obtain rfl : sep = c := by simpa using member
      rcases separator with rfl | rfl <;> decide
    refine ⟨sep, second, ?_, separator, taken_whole back⟩
    rcases front with rfl | scanned
    · exact taken_nothing separator back unsigned
    · exact strtoull_scanned hexadecimal_plain (by decide) scanned stop

private theorem cString_of_grammar {lsn : Text} (grammar : LsnGrammar lsn) : cString lsn = lsn := by
  obtain ⟨upper, lower, sep, separator, rfl⟩ := grammar
  rw [cString, List.takeWhile_eq_self_iff]
  intro c member
  have digit : c = sep ∨ hexadecimal.isDigit c = true := by
    rcases List.mem_append.mp member with inside | inside
    · exact .inr (upper.digit c inside)
    · exact (List.mem_cons.mp inside).imp_right (lower.digit c)
  have zero : ¬ ('\x00' = sep ∨ hexadecimal.isDigit '\x00' = true) := by
    rcases separator with rfl | rfl <;> decide
  exact decide_eq_true (fun same => zero (same ▸ digit))

/-- The constructor keeps to the grammar exactly on the texts that are in it and on those
that are not even lenient. -/
theorem parseLsn_grammar (lsn : Text) : KeepsGrammar lsn ↔ LsnGrammar lsn ∨ ¬ Lenient (cString lsn) := by
  have accepted := parseLsn_lenient (cString lsn)
  unfold KeepsGrammar parseLsnString
  by_cases grammar : LsnGrammar lsn
  · obtain ⟨upper, lower, sep, separator, same⟩ := id grammar
    have read : ∃ value, parseLsn (cString lsn) = .ok value := by
      rw [cString_of_grammar grammar, same]
      exact ⟨_, parseLsn_halves separator upper lower⟩
    exact iff_of_true (iff_of_true read grammar) (.inl grammar)
  · rw [accepted]
    simp only [grammar, iff_false, false_or]

theorem LsnGrammar.shape {lsn : Text} (grammar : LsnGrammar lsn) :
    1 ≤ (lsn.takeWhile hexadecimal.isDigit).length ∧ (lsn.takeWhile hexadecimal.isDigit).length ≤ 8 ∧
      1 ≤ (lsn.dropWhile hexadecimal.isDigit).tail.length ∧ (lsn.dropWhile hexadecimal.isDigit).tail.length ≤ 8 ∧
        (lsn.dropWhile hexadecimal.isDigit).tail.all hexadecimal.isDigit = true := by
  obtain ⟨upper, lower, sep, separator, rfl⟩ := grammar
  have stop : ∀ c ∈ (sep :: lower.digits).head?, hexadecimal.isDigit c = false := by
    intro c member
    obtain rfl : sep = c := by simpa using member
    rcases separator with rfl | rfl <;> decide
  obtain ⟨taken, left⟩ := hexadecimal.span_digits upper.digit stop
  rw [taken, left]
  exact ⟨upper.length.1, upper.length.2, lower.length.1, lower.length.2, List.all_eq_true.mpr lower.digit⟩

private theorem not_keepsGrammar {lsn : Text} {value : Nat} (read : parseLsnString lsn = .ok value)
    (outside : ¬ LsnGrammar lsn) :
    ¬ KeepsGrammar lsn :=
  fun keeps => outside (keeps.mp ⟨value, read⟩)

/-- Missing halves, blanks, signs, the prefix, too many digits, and what follows a zero. -/
theorem parseLsn_grammar_fails : ¬ KeepsGrammar "/".toList ∧ ¬ KeepsGrammar " 1/ 2".toList ∧
    ¬ KeepsGrammar "+1/-2".toList ∧
    ¬ KeepsGrammar "0x1-0x2".toList ∧ ¬ KeepsGrammar "123456789/0".toList ∧ ¬ KeepsGrammar "1/2\x00z".toList := by
  refine ⟨?_, ?_, ?_, ?_, ?_, ?_⟩ <;>
    exact not_keepsGrammar rfl (fun grammar => absurd grammar.shape (by decide))

end Osmdbt
