import Osmdbt.Base
import Osmdbt.General.Numeral

/-! The ISO form of `osmium::Timestamp`, as it stands in the names of log files
and in state files. -/

namespace Osmdbt

open General

/-- The civil date of a day counted from 1970-01-01, as `gmtime_r` gives it. -/
def civilDate (days : Nat) : Nat × Nat × Nat :=
  -- years start in March here, so that a leap day is the last day of a year
  let shifted := days + 719468
  let era := shifted / 146097
  let dayOfEra := shifted % 146097
  let yearOfEra := (dayOfEra - dayOfEra / 1460 + dayOfEra / 36524 - dayOfEra / 146096) / 365
  let dayOfYear := dayOfEra - (365 * yearOfEra + yearOfEra / 4 - yearOfEra / 100)
  let month := (5 * dayOfYear + 2) / 153
  let day := dayOfYear - (153 * month + 2) / 5 + 1
  let year := yearOfEra + era * 400
  if month < 10 then (year, month + 3, day) else (year + 1, month - 9, day)

/-- The day number of a civil date from 1900 on, as `timegm` counts it. -/
def dayNumber (year month day : Nat) : Int :=
  let shifted := if month ≤ 2 then year - 1 else year
  let yearOfEra := shifted % 400
  let dayOfYear := (153 * (if month ≤ 2 then month + 9 else month - 3) + 2) / 5 + day - 1
  let dayOfEra := yearOfEra * 365 + yearOfEra / 4 - yearOfEra / 100 + dayOfYear
  (shifted / 400 * 146097 + dayOfEra : Nat) - 719468

def digitChar (n : Nat) : Char := decimal.char (n % 10)
def twoDigits (n : Nat) : Text := [digitChar (n / 10), digitChar n]
def fourDigits (n : Nat) : Text := [digitChar (n / 1000), digitChar (n / 100), digitChar (n / 10), digitChar n]

/-- `yyyy-mm-ddThh:mm:ssZ` -/
def isoText (year month day hour minute second : Nat) : Text :=
  fourDigits year ++ '-' :: twoDigits month ++ '-' :: twoDigits day ++
    'T' :: twoDigits hour ++ ':' :: twoDigits minute ++ ':' :: twoDigits second ++ ['Z']

/-- `Timestamp::to_iso_all` -/
def toIsoAll (timestamp : Timestamp) : Text :=
  let date := civilDate (timestamp.toNat / 86400)
  let seconds := timestamp.toNat % 86400
  isoText date.1 date.2.1 date.2.2 (seconds / 3600) (seconds / 60 % 60) (seconds % 60)

def monLengths : List Nat := [31, 29, 31, 30, 31, 30, 31, 31, 30, 31, 30, 31]

def invalidTimestamp (s : Text) : Fault :=
  .runtimeError ("can not parse timestamp: '".toList ++ s ++ "'".toList)

/-- The constructor of `Timestamp` on `yyyy-mm-ddThh:mm:ssZ`. -/
def parseTimestamp (s : Text) : Except Fault Timestamp :=
  match s with
  | [y1, y2, y3, y4, '-', mo1, mo2, '-', d1, d2, 'T', h1, h2, ':', mi1, mi2, ':', s1, s2, 'Z'] =>
    if [y1, y2, y3, y4, mo1, mo2, d1, d2, h1, h2, mi1, mi2, s1, s2].all decimal.isDigit then
      let year := decimal.read [y1, y2, y3, y4]
      let month := decimal.read [mo1, mo2]
      let day := decimal.read [d1, d2]
      let hour := decimal.read [h1, h2]
      let minute := decimal.read [mi1, mi2]
      let second := decimal.read [s1, s2]
      if 1900 ≤ year ∧ 1 ≤ month ∧ month ≤ 12 ∧ 1 ≤ day ∧ day ≤ monLengths.getD (month - 1) 0 ∧
          hour ≤ 23 ∧ minute ≤ 59 ∧ second ≤ 60 then
        .ok (UInt32.ofInt (((dayNumber year month day * 24 + hour) * 60 + minute) * 60 + second))
      else .error (invalidTimestamp s)
    else .error (invalidTimestamp s)
  | _ => .error (invalidTimestamp s)

example : toIsoAll 1584541129 = "2020-03-18T14:18:49Z".toList := by decide
example : parseTimestamp "2020-03-18T14:18:49Z".toList = .ok 1584541129 := by decide +kernel

theorem isDigit_digitChar (n : Nat) : decimal.isDigit (digitChar n) = true :=
  decimal.isDigit_char (Nat.mod_lt n (by decide))

end Osmdbt
