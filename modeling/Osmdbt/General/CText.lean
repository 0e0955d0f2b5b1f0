import Osmdbt.General.Numeral

/-! The C and C++ library functions on character strings that log files, file
names and state files are written and read with. -/

namespace Osmdbt.General

/-- `isspace` in the C locale -/
def isSpace (c : Char) : Bool :=
  c = ' ' ∨ c = '\t' ∨ c = '\n' ∨ c = '\x0b' ∨ c = '\x0c' ∨ c = '\r'

/-- The optional sign in front of a numeral. -/
def sign : List Char → Bool × List Char
  | '-' :: rest => (true, rest)
  | '+' :: rest => (false, rest)
  | rest => (false, rest)

theorem sign_of_plain {s : List Char} (plain : ∀ c ∈ s.head?, c ≠ '-' ∧ c ≠ '+') : sign s = (false, s) := by
  unfold sign
  split
  · exact absurd rfl (plain '-' (by simp)).1
  · exact absurd rfl (plain '+' (by simp)).2
  · rfl

/-- `std::strtoll` in base 10: leading blanks and a sign are skipped, reading
stops at the first other character, and the result saturates at 64 bits. -/
def strtoll (s : List Char) : Int :=
  let (negative, rest) := sign (s.dropWhile isSpace)
  let n : Int := decimal.read (rest.takeWhile decimal.isDigit)
  max (-2 ^ 63) (min (if negative then -n else n) (2 ^ 63 - 1))

/-- `std::to_string` of an unsigned integer -/
abbrev natText (n : Nat) : List Char := decimal.print n

/-- `std::to_string` of a signed integer -/
def intText (z : Int) : List Char :=
  if z < 0 then '-' :: natText z.natAbs else natText z.natAbs

theorem decimal_not_space {c : Char} (digit : decimal.isDigit c = true) :
    isSpace c = false ∧ c ≠ '-' ∧ c ≠ '+' := by
  have range : '0' ≤ c ∧ c ≤ '9' := by
    by_contra outside
    simp [Digits.isDigit, decimal, outside] at digit
  have lower : 48 ≤ c.toNat := range.1
  have other : ∀ d : Char, d.toNat < 48 → c ≠ d := by
    intro d below same
    subst d
    omega
  refine ⟨?_, other _ (by decide), other _ (by decide)⟩
  simp [isSpace, other ' ' (by decide), other '\t' (by decide), other '\n' (by decide),
    other '\x0b' (by decide), other '\x0c' (by decide), other '\r' (by decide)]

private theorem strtoll_digits {cs : List Char} (digits : ∀ c ∈ cs, decimal.isDigit c = true)
    (nonempty : cs ≠ []) :
    cs.dropWhile isSpace = cs ∧ sign cs = (false, cs) ∧ cs.takeWhile decimal.isDigit = cs := by
  have whole := decimal.takeWhile_digits digits
  cases cs with
  | nil => exact absurd rfl nonempty
  | cons c cs =>
    obtain ⟨solid, unsigned⟩ := decimal_not_space (digits c (by simp))
    exact ⟨by simp [solid], sign_of_plain (by simpa using unsigned), whole⟩

theorem strtoll_unsigned {cs : List Char} (nonempty : cs ≠ []) (digits : ∀ c ∈ cs, decimal.isDigit c = true) :
    strtoll cs = min (decimal.read cs : Int) (2 ^ 63 - 1) := by
  obtain ⟨solid, unsigned, whole⟩ := strtoll_digits digits nonempty
  simp only [strtoll, solid, unsigned, whole, Bool.false_eq_true, ↓reduceIte]
  omega

theorem strtoll_negative {cs : List Char} (digits : ∀ c ∈ cs, decimal.isDigit c = true) :
    strtoll ('-' :: cs) = max (-2 ^ 63) (-(decimal.read cs : Int)) := by
  have blank : ('-' :: cs).dropWhile isSpace = '-' :: cs := by
    simp [isSpace]
  simp only [strtoll, blank, sign, decimal.takeWhile_digits digits, ↓reduceIte]
  omega

theorem natText_eq_intText (n : Nat) : natText n = intText n := by
  simp [intText]

/-- No character of a decimal text is a separator of the log format. -/
theorem not_mem_intText {c : Char} (other : decimal.isDigit c = false) (notMinus : c ≠ '-') (z : Int) :
    c ∉ intText z := by
  have absent : c ∉ natText z.natAbs := by
    intro member
    have digit := decimal.print_isDigit _ c member
    simp [other] at digit
  unfold intText
  split
  · simp [notMinus, absent]
  · exact absent

theorem not_mem_natText {c : Char} (other : decimal.isDigit c = false) (notMinus : c ≠ '-') (n : Nat) :
    c ∉ natText n := by
  rw [natText_eq_intText]
  exact not_mem_intText other notMinus n

/-- The characters of an alphabet are no blanks and no signs. -/
def Plain (D : Digits) : Prop := ∀ c, D.isDigit c = true → isSpace c = false ∧ c ≠ '-' ∧ c ≠ '+'

theorem decimal_plain : Plain decimal := fun _ => decimal_not_space

theorem hexadecimal_digit_le {c : Char} (digit : hexadecimal.isDigit c = true) :
    48 ≤ c.toNat ∧ c.toNat ≤ 102 := by
  by_contra outside
  have first : ¬ ('0' ≤ c ∧ c ≤ '9') := fun range => outside
    ⟨range.1, le_trans (show c.toNat ≤ 57 from range.2) (by decide)⟩
  have second : ¬ ('A' ≤ c ∧ c ≤ 'F') := fun range => outside
    ⟨le_trans (by decide) (show 65 ≤ c.toNat from range.1), le_trans (show c.toNat ≤ 70 from range.2) (by decide)⟩
  have third : ¬ ('a' ≤ c ∧ c ≤ 'f') := fun range => outside
    ⟨le_trans (by decide) (show 97 ≤ c.toNat from range.1), range.2⟩
  simp [Digits.isDigit, hexadecimal, first, second, third] at digit

theorem hexadecimal_plain : Plain hexadecimal := by
  intro c digit
  have bounds := hexadecimal_digit_le digit
  have other : ∀ d : Char, d.toNat < 48 → c ≠ d := by
    intro d below same
    subst d
    omega
  refine ⟨?_, other _ (by decide), other _ (by decide)⟩
  simp [isSpace, other ' ' (by decide), other '\t' (by decide), other '\n' (by decide),
    other '\x0b' (by decide), other '\x0c' (by decide), other '\r' (by decide)]

/-- In base 16 the numeral may start with `0x`. -/
def skipPrefix (D : Digits) : List Char → List Char
  | '0' :: x :: c :: rest =>
    if D.base = 16 ∧ (x = 'x' ∨ x = 'X') ∧ D.isDigit c then c :: rest else '0' :: x :: c :: rest
  | s => s

/-- `std::strtoull`: the value and what is left behind the numeral. Without a
numeral nothing is read; a minus sign negates modulo `2 ^ 64`. -/
def strtoull (D : Digits) (s : List Char) : Nat × List Char :=
  let (negative, unsigned) := sign (s.dropWhile isSpace)
  let numeral := skipPrefix D unsigned
  let ds := numeral.takeWhile D.isDigit
  if ds = [] then (0, s)
  else
    let n := D.read ds
    (if 2 ^ 64 ≤ n then 2 ^ 64 - 1 else if negative then (2 ^ 64 - n) % 2 ^ 64 else n,
      numeral.dropWhile D.isDigit)

theorem skipPrefix_eq_self {D : Digits} {s : List Char} (second : ∀ c ∈ s.tail.head?, c ≠ 'x' ∧ c ≠ 'X') :
    skipPrefix D s = s := by
  unfold skipPrefix
  split
  · rename_i x c rest
    have other := second x (by simp)
    simp [other]
  · rfl

/-- A numeral below `2 ^ 64` is read up to the first character that is no digit. -/
theorem strtoull_digits {D : Digits} (plain : Plain D) {cs rest : List Char} (nonempty : cs ≠ [])
    (digits : ∀ c ∈ cs, D.isDigit c = true) (notX : D.isDigit 'x' = false ∧ D.isDigit 'X' = false)
    (stop : ∀ c ∈ rest.head?, D.isDigit c = false ∧ c ≠ 'x' ∧ c ≠ 'X') (small : D.read cs < 2 ^ 64) :
    strtoull D (cs ++ rest) = (D.read cs, rest) := by
  obtain ⟨taken, left⟩ := D.span_digits digits (fun c member => (stop c member).1)
  obtain ⟨c, tail, rfl⟩ := List.exists_cons_of_ne_nil nonempty
  obtain ⟨solid, positive⟩ := plain c (digits c (by simp))
  have unsigned : sign ((c :: tail ++ rest).dropWhile isSpace) = (false, c :: tail ++ rest) := by
    rw [List.cons_append, List.dropWhile_cons_of_neg (by simp [solid])]
    exact sign_of_plain (by simpa using positive)
  have whole : skipPrefix D (c :: tail ++ rest) = c :: tail ++ rest := by
    apply skipPrefix_eq_self
    intro d second
    cases tail with
    | nil => exact (stop d (by simpa using second)).2
    | cons e tail =>
      obtain rfl : e = d := by simpa using second
      have digit := digits e (by simp)
      constructor
      · rintro rfl; simp [notX.1] at digit
      · rintro rfl; simp [notX.2] at digit
  simp only [strtoull, unsigned, whole, taken, left, nonempty, ↓reduceIte, Bool.false_eq_true,
    if_neg (not_le.mpr small)]

/-- What `strtoull` takes for a number: blanks, a sign, in base 16 a `0x`, and digits. -/
structure Scanned (D : Digits) (blanks sign start digits : List Char) : Prop where
  blanks : ∀ c ∈ blanks, isSpace c = true
  sign : sign = [] ∨ sign = ['-'] ∨ sign = ['+']
  start : start = [] ∨ D.base = 16 ∧ (start = ['0', 'x'] ∨ start = ['0', 'X'])
  nonempty : digits ≠ []
  digits : ∀ c ∈ digits, D.isDigit c = true

/-- The whole text is one number for `strtoull`. -/
def IsScanned (D : Digits) (text : List Char) : Prop :=
  ∃ blanks sign start digits, text = blanks ++ (sign ++ (start ++ digits)) ∧ Scanned D blanks sign start digits

private theorem sign_cases (s : List Char) : ∃ taken, s = taken ++ (sign s).2 ∧
    (taken = [] ∨ taken = ['-'] ∨ taken = ['+']) := by
  unfold sign
  split
  · exact ⟨['-'], rfl, .inr (.inl rfl)⟩
  · exact ⟨['+'], rfl, .inr (.inr rfl)⟩
  · exact ⟨[], rfl, .inl rfl⟩

private theorem skipPrefix_cases (D : Digits) (s : List Char) :
    ∃ taken, s = taken ++ skipPrefix D s ∧ (taken = [] ∨ D.base = 16 ∧ (taken = ['0', 'x'] ∨ taken = ['0', 'X'])) := by
  unfold skipPrefix
  split
  · rename_i x c rest
    split
    · rename_i condition
      obtain ⟨base, letter, _⟩ := condition
      rcases letter with rfl | rfl
      · exact ⟨['0', 'x'], rfl, .inr ⟨base, .inl rfl⟩⟩
      · exact ⟨['0', 'X'], rfl, .inr ⟨base, .inr rfl⟩⟩
    · exact ⟨[], rfl, .inl rfl⟩
  · exact ⟨[], rfl, .inl rfl⟩

/-- Either there is no number and nothing is read, or a number is taken up to a character
that is no digit. -/
theorem strtoull_cases (D : Digits) (s : List Char) : strtoull D s = (0, s) ∨
    ∃ text, s = text ++ (strtoull D s).2 ∧ IsScanned D text := by
  obtain ⟨signed, signSplit, signForm⟩ := sign_cases (s.dropWhile isSpace)
  obtain ⟨start, startSplit, startForm⟩ := skipPrefix_cases D (sign (s.dropWhile isSpace)).2
  generalize numeral : skipPrefix D (sign (s.dropWhile isSpace)).2 = left at startSplit
  by_cases empty : left.takeWhile D.isDigit = []
  · left
    simp only [strtoull, numeral, empty, ↓reduceIte]
  · right
    have remaining : (strtoull D s).2 = left.dropWhile D.isDigit := by
      simp only [strtoull, numeral, empty, ↓reduceIte]
    refine ⟨s.takeWhile isSpace ++ (signed ++ (start ++ left.takeWhile D.isDigit)), ?_, _, _, _, _, rfl, ?_⟩
    · calc s = s.takeWhile isSpace ++ s.dropWhile isSpace := List.takeWhile_append_dropWhile.symm
        _ = s.takeWhile isSpace ++ (signed ++ (start ++ (left.takeWhile D.isDigit ++ left.dropWhile D.isDigit))) := by
          rw [@List.takeWhile_append_dropWhile _ D.isDigit left, ← startSplit, ← signSplit]
        _ = _ := by simp only [remaining, List.append_assoc]
    · exact ⟨fun c member => List.mem_takeWhile_imp member, signForm, startForm, empty, fun c member =>
        List.mem_takeWhile_imp member⟩

private theorem dropWhile_blanks {blanks s : List Char} (spaces : ∀ c ∈ blanks, isSpace c = true)
    (solid : ∀ c ∈ s.head?, isSpace c = false) : (blanks ++ s).dropWhile isSpace = s := by
  rw [List.dropWhile_append_of_pos spaces]
  cases s with
  | nil => rfl
  | cons c s => exact List.dropWhile_cons_of_neg (by simpa using solid c)

private theorem sign_taken {signed s : List Char} (form : signed = [] ∨ signed = ['-'] ∨ signed = ['+'])
    (plain : ∀ c ∈ s.head?, c ≠ '-' ∧ c ≠ '+') : (sign (signed ++ s)).2 = s := by
  rcases form with rfl | rfl | rfl
  · rw [List.nil_append, sign_of_plain plain]
  · rfl
  · rfl

section Taken

variable {D : Digits} {blanks signed start digits rest : List Char}

/-- Digits are taken whole, with the prefix or without, when no digit and no `x` follows. -/
private theorem skipPrefix_taken (notX : D.isDigit 'x' = false ∧ D.isDigit 'X' = false)
    (scanned : Scanned D blanks signed start digits)
    (stop : ∀ c ∈ rest.head?, D.isDigit c = false ∧ c ≠ 'x' ∧ c ≠ 'X') :
    skipPrefix D (start ++ (digits ++ rest)) = digits ++ rest := by
  obtain ⟨c, tail, rfl⟩ := List.exists_cons_of_ne_nil scanned.nonempty
  have digit := scanned.digits c (by simp)
  rcases scanned.start with rfl | ⟨base, rfl | rfl⟩
  · apply skipPrefix_eq_self
    intro d second
    cases tail with
    | nil => exact (stop d (by simpa using second)).2
    | cons e tail =>
      obtain rfl : e = d := by simpa using second
      have other := scanned.digits e (by simp)
      constructor
      · rintro rfl; simp [notX.1] at other
      · rintro rfl; simp [notX.2] at other
  · simp [skipPrefix, base, digit]
  · simp [skipPrefix, base, digit]

theorem Scanned.first (scanned : Scanned D blanks signed start digits) (rest : List Char) :
    ∃ c tail, start ++ (digits ++ rest) = c :: tail ∧ (c = '0' ∨ D.isDigit c = true) := by
  obtain ⟨c, tail, rfl⟩ := List.exists_cons_of_ne_nil scanned.nonempty
  rcases scanned.start with rfl | ⟨_, rfl | rfl⟩
  · exact ⟨c, tail ++ rest, rfl, .inr (scanned.digits c (by simp))⟩
  · exact ⟨'0', _, rfl, .inl rfl⟩
  · exact ⟨'0', _, rfl, .inl rfl⟩

theorem Scanned.head (plain : Plain D) (scanned : Scanned D blanks signed start digits) (rest : List Char) :
    ∀ c ∈ (start ++ (digits ++ rest)).head?, isSpace c = false ∧ c ≠ '-' ∧ c ≠ '+' := by
  obtain ⟨c, tail, same, form⟩ := scanned.first rest
  intro d member
  obtain rfl : c = d := by simpa [same] using member
  rcases form with rfl | digit
  · decide
  · exact plain c digit

/-- A whole number is taken when no digit and no `x` follows. -/
theorem strtoull_scanned (plain : Plain D) (notX : D.isDigit 'x' = false ∧ D.isDigit 'X' = false) {text : List Char}
    (scanned : IsScanned D text) (stop : ∀ c ∈ rest.head?, D.isDigit c = false ∧ c ≠ 'x' ∧ c ≠ 'X') :
    (strtoull D (text ++ rest)).2 = rest := by
  obtain ⟨blanks, signed, start, digits, rfl, form⟩ := scanned
  have head := form.head plain rest
  have solid : ∀ c ∈ (signed ++ (start ++ (digits ++ rest))).head?, isSpace c = false := by
    rcases form.sign with rfl | rfl | rfl
    · exact fun c member => (head c member).1
    · simp [isSpace]
    · simp [isSpace]
  have unsigned := sign_taken form.sign (fun c member => (head c member).2)
  obtain ⟨taken, left⟩ := D.span_digits form.digits (fun c member => (stop c member).1)
  have numeral : skipPrefix D (sign ((blanks ++ (signed ++ (start ++ digits)) ++ rest).dropWhile isSpace)).2 =
      digits ++ rest := by
    simp only [List.append_assoc]
    rw [dropWhile_blanks form.blanks solid, unsigned, skipPrefix_taken notX form stop]
  simp only [strtoull, numeral, taken, left, form.nonempty, ↓reduceIte]

end Taken

theorem IsScanned.negative {D : Digits} {text : List Char} (scanned : IsScanned D text)
    (unsigned : ∀ c ∈ text.head?, isSpace c = false ∧ c ≠ '-' ∧ c ≠ '+') : IsScanned D ('-' :: text) := by
  obtain ⟨blanks, signed, start, digits, rfl, form⟩ := scanned
  have noBlanks : blanks = [] := by
    cases blanks with
    | nil => rfl
    | cons c blanks => simp [form.blanks c] at unsigned
  subst noBlanks
  have noSign : signed = [] := by
    rcases form.sign with none | rfl | rfl
    · exact none
    · exact absurd rfl (unsigned '-' (by simp)).2.1
    · exact absurd rfl (unsigned '+' (by simp)).2.2
  subst noSign
  exact ⟨[], ['-'], start, digits, rfl, { form with sign := .inr (.inl rfl) }⟩

/-- `osmium::split_string`: every separator splits, the empty string has no parts. -/
def splitString (s : List Char) (sep : Char) : List (List Char) :=
  if s = [] then [] else s.splitOn sep

/-- The lines `std::getline` reads one after the other: a newline at the very
end does not start another line. -/
def getlines (s : List Char) : List (List Char) :=
  let parts := s.splitOn '\n'
  if parts.getLast? = some [] then parts.dropLast else parts

@[simp] theorem getlines_nil : getlines [] = [] := by
  simp [getlines]

/-- What stands in front of a newline is split into its lines. -/
theorem getlines_append (text rest : List Char) : getlines (text ++ '\n' :: rest) =
    text.splitOn '\n' ++ getlines rest := by
  have parts := List.splitOn_ne_nil '\n' rest
  have last : (text.splitOn '\n' ++ rest.splitOn '\n').getLast? = (rest.splitOn '\n').getLast? :=
    List.getLast?_append_of_ne_nil _ parts
  unfold getlines
  simp only [List.splitOn_append_cons_self, last]
  split
  · exact List.dropLast_append_of_ne_nil parts
  · rfl

theorem getlines_line {line : List Char} (single : '\n' ∉ line) (rest : List Char) :
    getlines (line ++ '\n' :: rest) = line :: getlines rest := by
  rw [getlines_append, List.splitOn_eq_singleton single, List.singleton_append]

/-- Text made of terminated lines is read line by line. -/
theorem getlines_lines {lines : List (List Char)} (single : ∀ line ∈ lines, '\n' ∉ line) :
    getlines (lines.flatMap (fun line => line ++ ['\n'])) = lines := by
  induction lines with
  | nil => simp
  | cons line rest ih =>
    rw [List.flatMap_cons, List.append_assoc, List.singleton_append,
      getlines_line (single line (by simp)), ih (fun other member => single other (by simp [member]))]

end Osmdbt.General
