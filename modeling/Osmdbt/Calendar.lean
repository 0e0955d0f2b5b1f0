import Osmdbt.Timestamp
import Mathlib.Order.Monotone.Basic
import Mathlib.Data.Nat.Find

/-! The calendar behind the timestamps: the civil date and the day number undo each
other, dates are ordered like the days, and a printed timestamp is read back. -/

namespace Osmdbt

open General

/-- Years start in March, and an era has 400 of them. -/
def yearOfEra (dayOfEra : Nat) : Nat :=
  (dayOfEra - dayOfEra / 1460 + dayOfEra / 36524 - dayOfEra / 146096) / 365

/-- The days of an era before one of its years. -/
def yearStart (year : Nat) : Nat := 365 * year + year / 4 - year / 100

/-- The last year of an era has a leap day. -/
def yearEnd (year : Nat) : Nat := if year = 399 then 146097 else yearStart (year + 1)

theorem yearOfEra_mono : Monotone yearOfEra := by
  have step (n : Nat) : n - n / 1460 + n / 36524 - n / 146096 ≤
      (n + 1) - (n + 1) / 1460 + (n + 1) / 36524 - (n + 1) / 146096 := by
    have cycle : (n + 1) / 1460 ≤ n / 1460 + 1 := by omega
    have century : n / 36524 ≤ (n + 1) / 36524 := by omega
    have era : (n + 1) / 146096 = n / 146096 ∨ (n + 1) / 146096 = n / 146096 + 1 ∧ (n + 1) % 146096 = 0 := by omega
    rcases era with same | ⟨next, first⟩
    · omega
    · have also : (n + 1) / 36524 = n / 36524 + 1 := by omega
      omega
  exact fun a b le => Nat.div_le_div_right (monotone_nat_of_le_succ step le)

private theorem yearOfEra_ends : ∀ year < 400, yearOfEra (yearStart year) = year ∧
    yearOfEra (yearEnd year - 1) = year ∧
    yearEnd year ≤ yearStart year + 366 := by decide +kernel

private theorem yearOfEra_spec {dayOfEra : Nat} (inside : dayOfEra < 146097) :
    yearOfEra dayOfEra < 400 ∧ yearStart (yearOfEra dayOfEra) ≤ dayOfEra ∧
      dayOfEra ≤ yearStart (yearOfEra dayOfEra) + 365 := by
  obtain ⟨year, small, from', before⟩ : ∃ year < 400, yearStart year ≤ dayOfEra ∧ dayOfEra < yearEnd year := by
    refine ⟨Nat.findGreatest (fun year => yearStart year ≤ dayOfEra) 399,
      Nat.lt_succ_of_le (Nat.findGreatest_le 399),
      Nat.findGreatest_spec (P := fun year => yearStart year ≤ dayOfEra) (Nat.zero_le 399) (Nat.zero_le _), ?_⟩
    unfold yearEnd
    split
    · exact inside
    · rename_i notLast
      have below := Nat.findGreatest_le (P := fun year => yearStart year ≤ dayOfEra) 399
      refine not_le.mp (Nat.findGreatest_is_greatest (P := fun year => yearStart year ≤ dayOfEra) (n := 399)
        (Nat.lt_succ_self _) (show _ + 1 ≤ 399 from ?_))
      omega
  obtain ⟨first, last, length⟩ := yearOfEra_ends year small
  have lower : year ≤ yearOfEra dayOfEra := first ▸ yearOfEra_mono from'
  have upper : yearOfEra dayOfEra ≤ year := last ▸ yearOfEra_mono (Nat.le_sub_one_of_lt before)
  obtain rfl := le_antisymm upper lower
  exact ⟨small, from', by omega⟩

/-- The year of a day counted from 1970-01-01. -/
def marchYear (days : Nat) : Nat := yearOfEra ((days + 719468) % 146097) + (days + 719468) / 146097 * 400

def dayOfYear (days : Nat) : Nat :=
  (days + 719468) % 146097 - yearStart (yearOfEra ((days + 719468) % 146097))

def monthIndex (dayOfYear : Nat) : Nat := (5 * dayOfYear + 2) / 153
def dayOfMonth (dayOfYear : Nat) : Nat := dayOfYear - (153 * monthIndex dayOfYear + 2) / 5 + 1

theorem civilDate_eq (days : Nat) : civilDate days =
    if monthIndex (dayOfYear days) < 10 then
      (marchYear days, monthIndex (dayOfYear days) + 3, dayOfMonth (dayOfYear days))
    else (marchYear days + 1, monthIndex (dayOfYear days) - 9, dayOfMonth (dayOfYear days)) := rfl

theorem era_spec (days : Nat) : yearOfEra ((days + 719468) % 146097) < 400 ∧
    yearStart (yearOfEra ((days + 719468) % 146097)) ≤ (days + 719468) % 146097 ∧
    (days + 719468) % 146097 ≤ yearStart (yearOfEra ((days + 719468) % 146097)) + 365 :=
  yearOfEra_spec (Nat.mod_lt _ (by decide))

theorem dayOfYear_le (days : Nat) : dayOfYear days ≤ 365 := by
  have spec := era_spec days
  unfold dayOfYear
  omega

theorem month_spec : ∀ day ≤ 365, monthIndex day ≤ 11 ∧ (153 * monthIndex day + 2) / 5 ≤ day ∧
    1 ≤ dayOfMonth day ∧ dayOfMonth day ≤ 31 ∧
    dayOfMonth day ≤ monLengths.getD ((if monthIndex day < 10 then monthIndex day + 3 else monthIndex day - 9) - 1)
        0 := by
  decide +kernel

/-- The days before a year, from the start of the first era. -/
private theorem marchYear_days (days : Nat) : days + 719468 =
    marchYear days / 400 * 146097 + yearStart (marchYear days % 400) + dayOfYear days := by
  have spec := era_spec days
  unfold marchYear dayOfYear
  have split : (yearOfEra ((days + 719468) % 146097) + (days + 719468) / 146097 * 400) / 400 =
    (days + 719468) / 146097 ∧
      (yearOfEra ((days + 719468) % 146097) + (days + 719468) / 146097 * 400) % 400 =
        yearOfEra ((days + 719468) % 146097) := by omega
  rw [split.1, split.2]
  omega

/-- The day number of the civil date of a day is that day. -/
private theorem dayNumber_civilDate (days : Nat) :
    dayNumber (civilDate days).1 (civilDate days).2.1 (civilDate days).2.2 = days := by
  have whole := marchYear_days days
  obtain ⟨months, start, _⟩ := month_spec _ (dayOfYear_le days)
  have general (year month : Nat) (sameYear : (if month ≤ 2 then year - 1 else year) = marchYear days)
      (sameMonth : (if month ≤ 2 then month + 9 else month - 3) = monthIndex (dayOfYear days)) :
      dayNumber year month (dayOfMonth (dayOfYear days)) = days := by
    simp only [dayNumber, sameYear, sameMonth, dayOfMonth]
    unfold yearStart at whole
    omega
  rw [civilDate_eq]
  split <;> dsimp only
  · exact general _ _ (if_neg (by omega)) (by rw [if_neg (by omega)]; omega)
  · exact general _ _ (by rw [if_pos (by omega)]; omega) (by rw [if_pos (by omega)]; omega)

/-- What `gmtime_r` can give for a day of a 32-bit timestamp. -/
theorem civilDate_range {days : Nat} (small : days < 49711) :
    1900 ≤ (civilDate days).1 ∧ (civilDate days).1 < 10000 ∧ 1 ≤ (civilDate days).2.1 ∧ (civilDate days).2.1 ≤ 12 ∧
      1 ≤ (civilDate days).2.2 ∧ (civilDate days).2.2 ≤ 31 ∧
      (civilDate days).2.2 ≤ monLengths.getD ((civilDate days).2.1 - 1) 0 := by
  obtain ⟨months, _, first, last, length⟩ := month_spec _ (dayOfYear_le days)
  have spec := era_spec days
  have years : 1900 ≤ marchYear days ∧ marchYear days < 9000 := by
    have early : yearOfEra 135080 = 369 := by decide
    have era : (days + 719468) / 146097 = 4 ∧ 135080 ≤ (days + 719468) % 146097 ∨
      (days + 719468) / 146097 = 5 := by omega
    unfold marchYear
    rcases era with ⟨four, late⟩ | five
    · have year := yearOfEra_mono late
      omega
    · omega
  rw [civilDate_eq]
  split <;> dsimp only
  · rename_i early
    rw [if_pos early] at length
    exact ⟨years.1, by omega, by omega, by omega, first, last, length⟩
  · rename_i late
    rw [if_neg late] at length
    refine ⟨by omega, by omega, by omega, by omega, first, last, length⟩

/-- Dates are ordered like the days. -/
private theorem civilDate_lt {a b : Nat} (less : a < b) : (civilDate a).1 < (civilDate b).1 ∨
    (civilDate a).1 = (civilDate b).1 ∧
    ((civilDate a).2.1 < (civilDate b).2.1 ∨ (civilDate a).2.1 = (civilDate b).2.1 ∧
      (civilDate a).2.2 < (civilDate b).2.2) := by
  have years : marchYear a < marchYear b ∨ marchYear a = marchYear b ∧ dayOfYear a < dayOfYear b := by
    have first := era_spec a
    have second := era_spec b
    unfold marchYear dayOfYear
    rcases lt_or_ge ((a + 719468) / 146097) ((b + 719468) / 146097) with eras | eras
    · omega
    · have same : (a + 719468) / 146097 = (b + 719468) / 146097 := by omega
      have days : (a + 719468) % 146097 < (b + 719468) % 146097 := by omega
      have mono := yearOfEra_mono days.le
      rcases lt_or_eq_of_le mono with below | equal
      · omega
      · rw [equal] at first ⊢
        omega
  have month := month_spec _ (dayOfYear_le a)
  have month' := month_spec _ (dayOfYear_le b)
  have months : marchYear a < marchYear b ∨ marchYear a = marchYear b ∧
      (monthIndex (dayOfYear a) < monthIndex (dayOfYear b) ∨ monthIndex (dayOfYear a) = monthIndex (dayOfYear b) ∧
        dayOfMonth (dayOfYear a) < dayOfMonth (dayOfYear b)) := by
    refine years.imp_right (And.imp_right (fun days => ?_))
    have mono : monthIndex (dayOfYear a) ≤ monthIndex (dayOfYear b) := Nat.div_le_div_right (by omega)
    rcases lt_or_eq_of_le mono with below | equal
    · exact .inl below
    · refine .inr ⟨equal, ?_⟩
      unfold dayOfMonth
      rw [← equal] at month' ⊢
      omega
  rw [civilDate_eq, civilDate_eq]
  split <;> split <;> dsimp only <;> omega

theorem decimal_ordered : decimal.Ordered := by
  have all : ∀ e < 10, ∀ d < e, decimal.char d < decimal.char e := by decide
  exact fun d e less bound => all e bound d less

theorem digitChar_printed (n : Nat) : ∃ d < decimal.base, digitChar n = decimal.char d :=
  ⟨n % 10, Nat.mod_lt n (by decide), rfl⟩

theorem twoDigits_printed (n : Nat) : decimal.Printed (twoDigits n) := by
  simp [Digits.Printed, twoDigits, digitChar_printed]

theorem fourDigits_printed (n : Nat) : decimal.Printed (fourDigits n) := by
  simp [Digits.Printed, fourDigits, digitChar_printed]

theorem value_digitChar (n : Nat) : (decimal.value (digitChar n)).getD 0 = n % 10 := by
  rw [digitChar, decimal.value_char (n % 10) (Nat.mod_lt n (by decide))]
  rfl

theorem read_twoDigits {n : Nat} (small : n < 100) : decimal.read (twoDigits n) = n := by
  simp only [Digits.read, twoDigits, List.foldl_cons, List.foldl_nil, value_digitChar]
  have base : decimal.base = 10 := rfl
  rw [base]
  omega

theorem read_fourDigits {n : Nat} (small : n < 10000) : decimal.read (fourDigits n) = n := by
  simp only [Digits.read, fourDigits, List.foldl_cons, List.foldl_nil, value_digitChar]
  have base : decimal.base = 10 := rfl
  rw [base]
  omega

private theorem twoDigits_lt {m n : Nat} (less : m < n) (small : n < 100) : twoDigits m < twoDigits n := by
  have same : (twoDigits m).length = (twoDigits n).length := rfl
  rw [Digits.lt_iff_read decimal_ordered same (twoDigits_printed m) (twoDigits_printed n), read_twoDigits small,
    read_twoDigits (less.trans small)]
  exact less

private theorem fourDigits_lt {m n : Nat} (less : m < n) (small : n < 10000) : fourDigits m < fourDigits n := by
  have same : (fourDigits m).length = (fourDigits n).length := rfl
  rw [Digits.lt_iff_read decimal_ordered same (fourDigits_printed m) (fourDigits_printed n), read_fourDigits small,
    read_fourDigits (less.trans small)]
  exact less

/-- A block that is larger, or the same in front of more that is larger. -/
theorem block_lt {a b x y : Text} {c : Char} (same : a.length = b.length) (less : a < b ∨ a = b ∧ x < y) :
    a ++ c :: x < b ++ c :: y := by
  rw [Digits.append_lt_append_iff same]
  refine less.imp_right (And.imp_right (fun rest => ?_))
  exact List.cons_lt_cons_iff.mpr (.inr ⟨rfl, rest⟩)

private theorem isoText_lt {year month day hour minute second year' month' day' hour' minute' second' : Nat}
    (small : year' < 10000 ∧ month' < 100 ∧ day' < 100 ∧ hour' < 100 ∧ minute' < 100 ∧ second' < 100)
    (less : year < year' ∨ year = year' ∧ (month < month' ∨ month = month' ∧ (day < day' ∨ day = day' ∧
      (hour < hour' ∨ hour = hour' ∧ (minute < minute' ∨ minute = minute' ∧ second < second'))))) :
    isoText year month day hour minute second < isoText year' month' day' hour' minute' second' := by
  obtain ⟨years, months, days, hours, minutes, seconds⟩ := small
  have block {m n : Nat} {x y : Text} {c : Char} (bound : n < 100) (later : m < n ∨ m = n ∧ x < y) :
      twoDigits m ++ c :: x < twoDigits n ++ c :: y :=
    block_lt rfl (later.imp (fun below => twoDigits_lt below bound) (And.imp_left (congrArg twoDigits)))
  have last {m n : Nat} (below : m < n) (bound : n < 100) : twoDigits m ++ ['Z'] < twoDigits n ++ ['Z'] :=
    block bound (.inl below)
  simp only [isoText, List.append_assoc, List.cons_append]
  refine block_lt rfl (less.imp (fun below => fourDigits_lt below years)
    (And.imp (congrArg fourDigits) (fun less => ?_)))
  refine block months (less.imp_right (And.imp_right (fun less => ?_)))
  refine block days (less.imp_right (And.imp_right (fun less => ?_)))
  refine block hours (less.imp_right (And.imp_right (fun less => ?_)))
  refine block minutes (less.imp_right (And.imp_right (fun less => ?_)))
  exact last less seconds

/-- Later timestamps have larger texts. -/
theorem toIsoAll_lt {first second : Timestamp} (less : first < second) : toIsoAll first < toIsoAll second := by
  have bound := second.toNat_lt
  have numbers : first.toNat < second.toNat := less
  obtain ⟨_, year, _, month, _, day, _⟩ := civilDate_range (show second.toNat / 86400 < 49711 by omega)
  unfold toIsoAll
  refine isoText_lt ⟨year, by omega, by omega, by omega, by omega, by omega⟩ ?_
  rcases lt_or_ge (first.toNat / 86400) (second.toNat / 86400) with days | days
  · refine (civilDate_lt days).imp_right (And.imp_right (fun months => ?_))
    exact months.imp_right (And.imp_right Or.inl)
  · have same : first.toNat / 86400 = second.toNat / 86400 := by omega
    rw [same]
    refine .inr ⟨rfl, .inr ⟨rfl, .inr ⟨rfl, ?_⟩⟩⟩
    omega

theorem length_toIsoAll (timestamp : Timestamp) : (toIsoAll timestamp).length = 20 := by
  have general (year month day hour minute second : Nat) :
    (isoText year month day hour minute second).length = 20 := rfl
  exact general _ _ _ _ _ _

private theorem parseTimestamp_isoText {year month day hour minute second : Nat} (years : 1900 ≤ year ∧ year < 10000)
    (months : 1 ≤ month ∧ month ≤ 12) (days : 1 ≤ day ∧ day ≤ 31) (length : day ≤ monLengths.getD (month - 1) 0)
    (times : hour ≤ 23 ∧ minute ≤ 59 ∧ second ≤ 59) :
    parseTimestamp (isoText year month day hour minute second) =
      .ok (UInt32.ofInt (((dayNumber year month day * 24 + hour) * 60 + minute) * 60 + second)) := by
  have two {n : Nat} (small : n < 100) : decimal.read [digitChar (n / 10), digitChar n] = n := read_twoDigits small
  have four : decimal.read [digitChar (year / 1000), digitChar (year / 100), digitChar (year / 10),
      digitChar year] = year :=
    read_fourDigits years.2
  have second' : second ≤ 60 := by omega
  simp only [isoText, fourDigits, twoDigits, List.cons_append, List.nil_append, parseTimestamp, List.all_cons,
    List.all_nil, isDigit_digitChar, Bool.and_self, ↓reduceIte, four, two (show month < 100 by omega),
    two (show day < 100 by omega), two (show hour < 100 by omega), two (show minute < 100 by omega),
    two (show second < 100 by omega), years.1, months.1, months.2, days.1, length, times.1, times.2.1,
      second', and_self]

/-- Every timestamp is read back from its text. -/
theorem parseTimestamp_toIsoAll (timestamp : Timestamp) : parseTimestamp (toIsoAll timestamp) = .ok timestamp := by
  have bound := timestamp.toNat_lt
  obtain ⟨year, year', month, month', day, day', length⟩ :=
    civilDate_range (show timestamp.toNat / 86400 < 49711 by omega)
  unfold toIsoAll
  rw [parseTimestamp_isoText ⟨year, year'⟩ ⟨month, month'⟩ ⟨day, day'⟩ length (by omega), dayNumber_civilDate]
  have seconds : ((((timestamp.toNat / 86400 : Nat) : Int) * 24 + ((timestamp.toNat % 86400 / 3600 : Nat) :
    Int)) * 60 +
      ((timestamp.toNat % 86400 / 60 % 60 : Nat) : Int)) * 60 + ((timestamp.toNat % 86400 % 60 : Nat) : Int) =
      (timestamp.toNat : Int) := by omega
  rw [seconds]
  exact congrArg Except.ok (ofInt_toNat timestamp)

end Osmdbt
