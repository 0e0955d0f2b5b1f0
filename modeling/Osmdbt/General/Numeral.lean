import Mathlib.Data.List.TakeWhile
import Mathlib.Data.Nat.Digits.Lemmas
import Mathlib.Tactic.Ring

/-! Positional numerals over an alphabet of digits: printing without leading
zeros, reading a text of digits, and the round trip between the two. -/

namespace Osmdbt.General

/-- A base with a printed form for each digit and a reading of characters. -/
structure Digits where
  base : Nat
  char : Nat → Char
  value : Char → Option Nat
  two_le : 2 ≤ base
  value_char : ∀ d, d < base → value (char d) = some d
  value_lt : ∀ c d, value c = some d → d < base

namespace Digits

variable (D : Digits)

def isDigit (c : Char) : Bool := (D.value c).isSome

/-- The numeral of `n`, most significant digit first. -/
def print (n : Nat) : List Char :=
  if n = 0 then [D.char 0] else (Nat.digits D.base n).reverse.map D.char

/-- The number a text of digits denotes. -/
def read (cs : List Char) : Nat :=
  cs.foldl (fun n c => n * D.base + (D.value c).getD 0) 0

theorem base_pos : 0 < D.base := lt_of_lt_of_le (by decide) D.two_le

theorem isDigit_char {d : Nat} (bound : d < D.base) : D.isDigit (D.char d) = true := by
  simp [isDigit, D.value_char d bound]

theorem print_isDigit (n : Nat) : ∀ c ∈ D.print n, D.isDigit c = true := by
  intro c member
  by_cases zero : n = 0
  · simp only [print, zero, ↓reduceIte, List.mem_singleton] at member
    exact member ▸ D.isDigit_char D.base_pos
  · simp only [print, zero, ↓reduceIte, List.mem_map, List.mem_reverse] at member
    obtain ⟨d, digit, rfl⟩ := member
    exact D.isDigit_char (Nat.digits_lt_base D.two_le digit)

theorem print_ne_nil (n : Nat) : D.print n ≠ [] := by
  by_cases zero : n = 0
  · simp [print, zero]
  · simpa [print, zero] using Nat.digits_ne_nil_iff_ne_zero.mpr zero

private theorem read_map_char (ds : List Nat) (bound : ∀ d ∈ ds, d < D.base) (start : Nat) :
    (ds.map D.char).foldl (fun n c => n * D.base + (D.value c).getD 0) start =
      ds.foldl (fun n d => n * D.base + d) start := by
  induction ds generalizing start with
  | nil => rfl
  | cons d ds ih =>
    simp only [List.map_cons, List.foldl_cons, D.value_char d (bound d (by simp)), Option.getD_some]
    exact ih (fun other member => bound other (by simp [member])) _

private theorem foldl_reverse_digits (ds : List Nat) :
    ds.reverse.foldl (fun n d => n * D.base + d) 0 = Nat.ofDigits D.base ds := by
  induction ds with
  | nil => rfl
  | cons d ds ih =>
    rw [List.reverse_cons, List.foldl_append, ih, Nat.ofDigits_cons]
    simp [Nat.mul_comm, Nat.add_comm]

/-- Reading a printed number gives the number back. -/
@[simp] theorem read_print (n : Nat) : D.read (D.print n) = n := by
  by_cases zero : n = 0
  · simp [read, print, zero, D.value_char 0 D.base_pos]
  · have bound : ∀ d ∈ (Nat.digits D.base n).reverse, d < D.base :=
      fun d member => Nat.digits_lt_base D.two_le (List.mem_reverse.mp member)
    simp only [read, print, zero, ↓reduceIte]
    rw [D.read_map_char _ bound, D.foldl_reverse_digits, Nat.ofDigits_digits]

theorem length_print_le {n k : Nat} (bound : n < D.base ^ k) (positive : 0 < k) :
    (D.print n).length ≤ k := by
  by_cases zero : n = 0
  · simpa [print, zero] using Nat.one_le_of_lt positive
  · simpa [print, zero] using (Nat.digits_length_le_iff D.two_le n).mpr bound

private theorem foldl_bound (cs : List Char) (start : Nat) :
    cs.foldl (fun n c => n * D.base + (D.value c).getD 0) start < (start + 1) * D.base ^ cs.length := by
  induction cs generalizing start with
  | nil => simp
  | cons c cs ih =>
    have digit : (D.value c).getD 0 < D.base := by
      cases found : D.value c with
      | none => simpa using D.base_pos
      | some d => simpa using D.value_lt c d found
    have step : start * D.base + (D.value c).getD 0 + 1 ≤ (start + 1) * D.base := by
      rw [Nat.add_mul]; omega
    calc (c :: cs).foldl (fun n c => n * D.base + (D.value c).getD 0) start
        < (start * D.base + (D.value c).getD 0 + 1) * D.base ^ cs.length := ih _
      _ ≤ (start + 1) * D.base * D.base ^ cs.length := Nat.mul_le_mul_right _ step
      _ = (start + 1) * D.base ^ (c :: cs).length := by rw [List.length_cons]; ring

/-- A text of `k` digits denotes a number below `base ^ k`. -/
theorem read_lt (cs : List Char) : D.read cs < D.base ^ cs.length := by
  simpa [read] using D.foldl_bound cs 0

private theorem foldl_start (cs : List Char) (start : Nat) :
    cs.foldl (fun n c => n * D.base + (D.value c).getD 0) start = start * D.base ^ cs.length + D.read cs := by
  induction cs generalizing start with
  | nil => simp [read]
  | cons c cs ih =>
    have here : D.read (c :: cs) = (0 * D.base + (D.value c).getD 0) * D.base ^ cs.length + D.read cs := ih _
    rw [List.foldl_cons, ih, here, List.length_cons]
    ring

theorem read_cons (c : Char) (cs : List Char) :
    D.read (c :: cs) = (D.value c).getD 0 * D.base ^ cs.length + D.read cs := by
  have whole : D.read (c :: cs) = (0 * D.base + (D.value c).getD 0) * D.base ^ cs.length + D.read cs :=
    D.foldl_start cs (0 * D.base + (D.value c).getD 0)
  rwa [Nat.zero_mul, Nat.zero_add] at whole

theorem read_append (cs ds : List Char) : D.read (cs ++ ds) = D.read cs * D.base ^ ds.length + D.read ds := by
  have whole := D.foldl_start ds (D.read cs)
  rwa [read, ← List.foldl_append] at whole

/-- The printed forms of the digits are in order. -/
def Ordered : Prop := ∀ d e, d < e → e < D.base → D.char d < D.char e

/-- Digits in the form in which they are printed. -/
def Printed (cs : List Char) : Prop := ∀ c ∈ cs, ∃ d < D.base, c = D.char d

theorem print_printed (n : Nat) : D.Printed (D.print n) := by
  intro c member
  by_cases zero : n = 0
  · simp only [print, zero, ↓reduceIte, List.mem_singleton] at member
    exact ⟨0, D.base_pos, member⟩
  · simp only [print, zero, ↓reduceIte, List.mem_map, List.mem_reverse] at member
    obtain ⟨d, digit, rfl⟩ := member
    exact ⟨d, Nat.digits_lt_base D.two_le digit, rfl⟩

variable {D}

theorem lt_iff_read (ordered : D.Ordered) {cs ds : List Char} (same : cs.length = ds.length) (first : D.Printed cs)
    (second : D.Printed ds) : cs < ds ↔ D.read cs < D.read ds := by
  induction cs generalizing ds with
  | nil =>
    obtain rfl := List.length_eq_zero_iff.mp same.symm
    simp
  | cons c cs ih =>
    obtain _ | ⟨c', ds⟩ := ds
    · cases same
    have tails : cs.length = ds.length := Nat.succ.inj same
    have tail := ih tails (fun c member => first c (List.mem_cons_of_mem _ member))
      (fun c member => second c (List.mem_cons_of_mem _ member))
    obtain ⟨d, dBound, rfl⟩ := first c (List.mem_cons_self ..)
    obtain ⟨e, eBound, rfl⟩ := second c' (List.mem_cons_self ..)
    have small := D.read_lt cs
    have small' := D.read_lt ds
    rw [List.cons_lt_cons_iff, D.read_cons, D.read_cons, D.value_char d dBound, D.value_char e eBound, tail, tails,
      Option.getD_some, Option.getD_some]
    rw [tails] at small
    rcases lt_trichotomy d e with less | rfl | greater
    · have whole : d * D.base ^ ds.length + D.base ^ ds.length ≤ e * D.base ^ ds.length := by
        rw [← Nat.succ_mul]
        exact Nat.mul_le_mul_right _ less
      exact iff_of_true (.inl (ordered d e less eBound)) (by omega)
    · simp
    · have whole : e * D.base ^ ds.length + D.base ^ ds.length ≤ d * D.base ^ ds.length := by
        rw [← Nat.succ_mul]
        exact Nat.mul_le_mul_right _ greater
      have above := ordered e d greater dBound
      refine iff_of_false ?_ (by omega)
      rintro (below | ⟨equal, _⟩)
      · exact Char.lt_asymm above below
      · exact Char.lt_irrefl _ (equal ▸ above)

theorem eq_of_read {cs ds : List Char} (same : cs.length = ds.length) (first : D.Printed cs) (second : D.Printed ds)
    (numbers : D.read cs = D.read ds) : cs = ds := by
  induction cs generalizing ds with
  | nil => exact (List.length_eq_zero_iff.mp same.symm).symm
  | cons c cs ih =>
    obtain _ | ⟨c', ds⟩ := ds
    · cases same
    have tails : cs.length = ds.length := Nat.succ.inj same
    obtain ⟨d, dBound, rfl⟩ := first c (List.mem_cons_self ..)
    obtain ⟨e, eBound, rfl⟩ := second c' (List.mem_cons_self ..)
    have small := D.read_lt cs
    have small' := D.read_lt ds
    rw [D.read_cons, D.read_cons, D.value_char d dBound, D.value_char e eBound, tails, Option.getD_some,
      Option.getD_some] at numbers
    rw [tails] at small
    have digits : d = e := by
      have quotients := congrArg (· / D.base ^ ds.length) numbers
      have positive := Nat.pow_pos (n := ds.length) D.base_pos
      simp only [Nat.mul_comm _ (D.base ^ ds.length), Nat.mul_add_div positive, Nat.div_eq_of_lt small,
        Nat.div_eq_of_lt small', Nat.add_zero] at quotients
      exact quotients
    subst digits
    rw [ih tails (fun c member => first c (List.mem_cons_of_mem _ member))
      (fun c member => second c (List.mem_cons_of_mem _ member)) (by omega)]

/-- Blocks of the same length are compared first. -/
theorem append_lt_append_iff {a b x y : List Char} (same : a.length = b.length) :
    a ++ x < b ++ y ↔ a < b ∨ a = b ∧ x < y := by
  induction a generalizing b with
  | nil =>
    obtain rfl := List.length_eq_zero_iff.mp same.symm
    simp
  | cons c a ih =>
    obtain _ | ⟨d, b⟩ := b
    · cases same
    rw [List.cons_append, List.cons_append, List.cons_lt_cons_iff, List.cons_lt_cons_iff, ih (Nat.succ.inj same),
      List.cons.injEq]
    tauto

theorem length_print_mono {m n : Nat} (le : m ≤ n) : (D.print m).length ≤ (D.print n).length := by
  have bound : n < D.base ^ (D.print n).length := by
    simpa using D.read_lt (D.print n)
  exact D.length_print_le (lt_of_le_of_lt le bound) (List.length_pos_iff.mpr (D.print_ne_nil n))

/-- Numerals of different lengths: the shorter one is compared with the first digits of
the longer one, when what follows it is below every digit. -/
theorem print_append_lt_iff (ordered : D.Ordered) {m n : Nat} (less : m < n) {c : Char}
    (low : ∀ d < D.base, c < D.char d)
    (x y : List Char) : D.print m ++ c :: x < D.print n ++ y ↔
      m ≤ n / D.base ^ ((D.print n).length - (D.print m).length) := by
  have shorter := length_print_mono (D := D) less.le
  obtain ⟨front, back, split, front', back'⟩ : ∃ front back, D.print n = front ++ back ∧
      (D.print m).length = front.length ∧ back.length = (D.print n).length - (D.print m).length :=
    ⟨(D.print n).take (D.print m).length, (D.print n).drop (D.print m).length, (List.take_append_drop _ _).symm,
      by rw [List.length_take]; omega, List.length_drop⟩
  have printed := D.print_printed n
  rw [split] at printed
  have whole : n = D.read front * D.base ^ back.length + D.read back := by
    rw [← D.read_append, ← split, D.read_print]
  have quotient : n / D.base ^ back.length = D.read front := by
    rw [whole, Nat.add_comm, Nat.add_mul_div_right _ _ (Nat.pow_pos D.base_pos), Nat.div_eq_of_lt (D.read_lt back),
      Nat.zero_add]
  have numbers := lt_iff_read ordered front' (D.print_printed m)
    (fun c member => printed c (List.mem_append_left _ member))
  rw [D.read_print] at numbers
  rw [← back', quotient, split, List.append_assoc, append_lt_append_iff front', numbers]
  constructor
  · rintro (below | ⟨same, _⟩)
    · exact below.le
    · rw [← same, D.read_print]
  · intro le
    rcases lt_or_eq_of_le le with below | same
    · exact .inl below
    · refine .inr ⟨?_, ?_⟩
      · refine eq_of_read front' (D.print_printed m) (fun c member => printed c (List.mem_append_left _ member)) ?_
        rw [D.read_print, same]
      · cases back with
        | nil =>
          rw [List.length_nil, Nat.pow_zero, Nat.mul_one] at whole
          have none : D.read [] = 0 := rfl
          omega
        | cons e back =>
          obtain ⟨d, bound, rfl⟩ := printed e (by simp)
          exact List.cons_lt_cons_iff.mpr (.inl (low d bound))

variable (D)

/-- A text of digits followed by something else is split at the first non-digit. -/
theorem span_digits {cs rest : List Char} (digits : ∀ c ∈ cs, D.isDigit c = true)
    (stop : ∀ c ∈ rest.head?, D.isDigit c = false) :
    (cs ++ rest).takeWhile D.isDigit = cs ∧ (cs ++ rest).dropWhile D.isDigit = rest := by
  induction cs with
  | nil =>
    cases rest with
    | nil => simp
    | cons c rest => simp [stop c (by simp)]
  | cons c cs ih =>
    have tail := ih (fun other member => digits other (by simp [member]))
    simp [digits c (by simp), tail]

theorem takeWhile_digits {cs : List Char} (digits : ∀ c ∈ cs, D.isDigit c = true) :
    cs.takeWhile D.isDigit = cs :=
  List.takeWhile_eq_self_iff.mpr digits

/-- A numeral without its leading zeros. -/
def stripZeros (cs : List Char) : List Char :=
  if cs.dropWhile (· = D.char 0) = [] then [D.char 0] else cs.dropWhile (· = D.char 0)

theorem read_zeros (cs : List Char) : D.read (cs.dropWhile (· = D.char 0)) = D.read cs := by
  induction cs with
  | nil => rfl
  | cons c cs ih =>
    by_cases zero : c = D.char 0
    · rw [List.dropWhile_cons_of_pos (by simpa using zero), ih, D.read_cons, zero, D.value_char 0 D.base_pos]
      simp
    · rw [List.dropWhile_cons_of_neg (by simpa using zero)]

/-- A numeral that does not start with a zero is the one that is printed. -/
private theorem print_read {c : Char} {cs : List Char} (printed : D.Printed (c :: cs)) (lead : c ≠ D.char 0) :
    D.print (D.read (c :: cs)) = c :: cs := by
  obtain ⟨d, bound, rfl⟩ := printed c (List.mem_cons_self ..)
  have positive : 0 < d := Nat.pos_of_ne_zero (fun zero => lead (zero ▸ rfl))
  have large : D.base ^ cs.length ≤ D.read (D.char d :: cs) := by
    rw [D.read_cons, D.value_char d bound, Option.getD_some]
    exact (Nat.le_mul_of_pos_left _ positive).trans (Nat.le_add_right _ _)
  have short : (D.print (D.read (D.char d :: cs))).length ≤ (D.char d :: cs).length :=
    D.length_print_le (D.read_lt _) (by simp)
  have long : cs.length < (D.print (D.read (D.char d :: cs))).length := by
    have below := D.read_lt (D.print (D.read (D.char d :: cs)))
    rw [D.read_print] at below
    exact (Nat.pow_lt_pow_iff_right D.two_le).mp (large.trans_lt below)
  refine eq_of_read ?_ (D.print_printed _) printed (D.read_print _)
  rw [List.length_cons] at short ⊢
  omega

theorem print_read_strip {cs : List Char} (printed : D.Printed cs) : D.print (D.read cs) = D.stripZeros cs := by
  rw [← D.read_zeros, stripZeros]
  cases rest : cs.dropWhile (· = D.char 0) with
  | nil => simp [read, print]
  | cons c tail =>
    have lead : c ≠ D.char 0 := by
      have head := List.head_dropWhile_not (· = D.char 0) (by rw [rest]; exact List.cons_ne_nil _ _)
      simpa [rest] using head
    rw [if_neg (List.cons_ne_nil _ _)]
    refine D.print_read (fun other member => printed other ?_) lead
    exact (List.dropWhile_suffix _).subset (rest ▸ member)

end Digits

/-- Decimal digits. -/
def decimal : Digits where
  base := 10
  char d := Char.ofNat (48 + d)
  value c := if '0' ≤ c ∧ c ≤ '9' then some (c.toNat - 48) else none
  two_le := by decide
  value_char := by decide
  value_lt c d found := by
    simp only [Char.le_def, UInt32.le_iff_toNat_le, Option.ite_none_right_eq_some,
      Option.some.injEq] at found
    have upper : c.val.toNat ≤ 57 := found.1.2
    have same : c.val.toNat - 48 = d := found.2
    omega

/-- Hexadecimal digits: printed upper case, read in either case. -/
def hexadecimal : Digits where
  base := 16
  char d := if d < 10 then Char.ofNat (48 + d) else Char.ofNat (55 + d)
  value c :=
    if '0' ≤ c ∧ c ≤ '9' then some (c.toNat - 48)
    else if 'A' ≤ c ∧ c ≤ 'F' then some (c.toNat - 55)
    else if 'a' ≤ c ∧ c ≤ 'f' then some (c.toNat - 87)
    else none
  two_le := by decide
  value_char := by decide
  value_lt c d found := by
    simp only [Char.le_def, UInt32.le_iff_toNat_le] at found
    split at found
    · rename_i range
      have upper : c.val.toNat ≤ 57 := range.2
      have same : c.val.toNat - 48 = d := Option.some.inj found
      omega
    · split at found
      · rename_i range
        have upper : c.val.toNat ≤ 70 := range.2
        have same : c.val.toNat - 55 = d := Option.some.inj found
        omega
      · split at found
        · rename_i range
          have upper : c.val.toNat ≤ 102 := range.2
          have same : c.val.toNat - 87 = d := Option.some.inj found
          omega
        · cases found

end Osmdbt.General
