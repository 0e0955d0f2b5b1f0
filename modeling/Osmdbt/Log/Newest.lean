import Osmdbt.Log.LogName

/-! catchup finds the newest position in the names get-log gave, whatever digits
PostgreSQL printed and in whatever order the directory is listed. -/

namespace Osmdbt

open General

/-- A position as PostgreSQL prints it: two hexadecimal numbers of up to 32 bits. -/
structure PgLsn where
  upper : Text
  lower : Text
  upperLength : 1 ≤ upper.length ∧ upper.length ≤ 8
  lowerLength : 1 ≤ lower.length ∧ lower.length ≤ 8
  digits : ∀ c ∈ upper ++ lower, isUpperHex c = true

namespace PgLsn

variable (lsn : PgLsn)

def text : Text := lsn.upper ++ '/' :: lsn.lower

/-- The position the text denotes. -/
def value : Nat := hexadecimal.read lsn.upper * 2 ^ 32 + hexadecimal.read lsn.lower

/-- The name get-log gives to a log that ends there. -/
def logName (time : Timestamp) : Text := replicationLogName lsn.text time

theorem isUpperHex_digit {c : Char} (upper : isUpperHex c = true) : hexadecimal.isDigit c = true := by
  have range : ('0' ≤ c ∧ c ≤ '9') ∨ ('A' ≤ c ∧ c ≤ 'F') := by simpa [isUpperHex] using upper
  rcases range with decimal | letter
  · simp [Digits.isDigit, hexadecimal, decimal]
  · by_cases decimal : '0' ≤ c ∧ c ≤ '9'
    · simp [Digits.isDigit, hexadecimal, decimal]
    · simp [Digits.isDigit, hexadecimal, decimal, letter]

def upperHalf : Half where
  digits := lsn.upper
  length := lsn.upperLength
  digit c member := isUpperHex_digit (lsn.digits c (List.mem_append_left _ member))

def lowerHalf : Half where
  digits := lsn.lower
  length := lsn.lowerLength
  digit c member := isUpperHex_digit (lsn.digits c (List.mem_append_right _ member))

theorem nonempty : lsn.upper ≠ [] ∧ lsn.lower ≠ [] := ⟨lsn.upperHalf.nonempty, lsn.lowerHalf.nonempty⟩

theorem value_lt : lsn.value < 2 ^ 64 := position_lt lsn.upperHalf lsn.lowerHalf

private theorem dashed_text : dashed lsn.text = lsn.upper ++ '-' :: lsn.lower := by
  have keep {half : Text} (digits : ∀ c ∈ half, isUpperHex c = true) :
      half.map (fun c => if c = '/' then '-' else c) = half := by
    conv_rhs => rw [← List.map_id half]
    apply List.map_congr_left
    intro c member
    refine if_neg (fun slash => ?_)
    have digit := digits c member
    rw [slash] at digit
    exact Bool.noConfusion ((by decide : isUpperHex '/' = false).symm.trans digit)
  simp [dashed, text, keep (fun c member => lsn.digits c (List.mem_append_left _ member)),
    keep (fun c member => lsn.digits c (List.mem_append_right _ member))]

private theorem lsnOfName_logName (time : Timestamp) : lsnOfName (lsn.logName time) = .ok lsn.value := by
  have matched : matchLogName (lsn.logName time) = some (lsn.upper ++ '-' :: lsn.lower) := by
    unfold logName replicationLogName createReplicationLogName
    rw [dashed_text]
    exact matchLogName_dated (toIsoAll_accepted time) lsn.nonempty lsn.digits
  rw [lsnOfName, matched]
  exact parseLsn_halves (.inl rfl) lsn.upperHalf lsn.lowerHalf

end PgLsn

/-- One entry of the directory moves the maximum by the position in its name. -/
private theorem getLsn_values {files : List Text} (value : Text → Nat)
    (named : ∀ name ∈ files, isLog name = true → lsnOfName name = .ok (value name)) :
    getLsn files = .ok (((files.filter isLog).map value).foldl max 0) := by
  suffices general : ∀ start, files.foldlM (fun lsn fileName =>
      if isLog fileName then do
        let newLsn ← lsnOfName fileName
        return if newLsn > lsn then newLsn else lsn
      else (.ok lsn : Except Fault Nat)) start = .ok (((files.filter isLog).map value).foldl max start) from general 0
  induction files with
  | nil => exact fun start => rfl
  | cons name rest ih =>
    intro start
    have tail := ih (fun other member => named other (List.mem_cons_of_mem _ member))
    rw [List.foldlM_cons]
    by_cases log : isLog name = true
    · have larger : (if value name > start then value name else start) = max start (value name) := by
        split <;> omega
      rw [if_pos log, named name (by simp) log, List.filter_cons_of_pos log, List.map_cons, List.foldl_cons, ← larger]
      exact tail _
    · rw [if_neg log, List.filter_cons_of_neg log]
      exact tail start

/-- Numbers below a bound have a maximum below it. -/
private theorem foldl_max_lt {values : List Nat} {bound : Nat} (small : ∀ value ∈ values, value < bound) :
    ∀ {start : Nat}, start < bound → values.foldl max start < bound := by
  induction values with
  | nil => exact fun below => below
  | cons value rest ih =>
    intro start below
    rw [List.foldl_cons]
    exact ih (fun other member => small other (List.mem_cons_of_mem _ member))
      (max_lt below (small value (List.mem_cons_self ..)))

/-- Only the names of logs count, each with the position it denotes. -/
theorem getLsn_perm {ι : Type*} {logs : List ι} {nameOf : ι → Text} {valueOf : ι → Nat} {others listing : List Text}
    (named : ∀ log ∈ logs, isLog (nameOf log) = true ∧ lsnOfName (nameOf log) = .ok (valueOf log))
    (plain : ∀ name ∈ others, isLog name = false) (listed : listing.Perm (logs.map nameOf ++ others)) :
    getLsn listing = .ok ((logs.map valueOf).foldl max 0) := by
  have read : ∀ name ∈ listing, isLog name = true → lsnOfName name = .ok ((lsnOfName name).toOption.getD 0) := by
    intro name member log
    rcases List.mem_append.mp (listed.mem_iff.mp member) with given | other
    · obtain ⟨own, inside, rfl⟩ := List.mem_map.mp given
      rw [(named own inside).2]
      rfl
    · rw [plain name other] at log
      cases log
  have logsKept : (logs.map nameOf).filter isLog = logs.map nameOf := by
    rw [List.filter_eq_self]
    intro name member
    obtain ⟨own, inside, rfl⟩ := List.mem_map.mp member
    exact (named own inside).1
  have othersDropped : others.filter isLog = [] := by
    rw [List.filter_eq_nil_iff]
    intro name member
    simp [plain name member]
  have kept : (listing.filter isLog).Perm (logs.map nameOf) := by
    have filtered := listed.filter isLog
    rwa [List.filter_append, logsKept, othersDropped, List.append_nil] at filtered
  have values : (logs.map nameOf).map (fun name => (lsnOfName name).toOption.getD 0) = logs.map valueOf := by
    rw [List.map_map]
    apply List.map_congr_left
    intro log inside
    rw [Function.comp_apply, (named log inside).2]
    rfl
  rw [getLsn_values _ read, (kept.map _).foldl_eq, values]

/-- However the directory is listed: with files named by get-log and any other
entries, catchup gets the largest position, and its text denotes the same one. -/
theorem getLsn_newest (logs : List (PgLsn × Timestamp)) (others listing : List Text)
    (plain : ∀ name ∈ others, isLog name = false)
    (listed : listing.Perm (logs.map (fun log => log.1.logName log.2) ++ others)) :
    getLsn listing = .ok ((logs.map (fun log => log.1.value)).foldl max 0) ∧
      parseLsn (lsnStr ((logs.map (fun log => log.1.value)).foldl max 0)) =
        .ok ((logs.map (fun log => log.1.value)).foldl max 0) := by
  have named : ∀ log ∈ logs, isLog (log.1.logName log.2) = true ∧ lsnOfName (log.1.logName log.2) = .ok log.1.value :=
    fun log _ => ⟨isLog_replicationLogName _ _, log.1.lsnOfName_logName log.2⟩
  have small : ∀ value ∈ logs.map (fun log => log.1.value), value < 2 ^ 64 := by
    intro value member
    obtain ⟨log, _, rfl⟩ := List.mem_map.mp member
    exact log.1.value_lt
  exact ⟨getLsn_perm named plain listed, parseLsn_lsnText (.inr rfl) (foldl_max_lt small (by decide))⟩

/-- `0/9` and `0/10`, of which the second is the larger one. -/
def earlyLsn : PgLsn := ⟨['0'], ['9'], by decide, by decide, List.all_eq_true.mp (by decide)⟩
def lateLsn : PgLsn := ⟨['0'], ['1', '0'], by decide, by decide, List.all_eq_true.mp (by decide)⟩

theorem getLsn_newest_two :
    getLsn ["osmdbt.log.done".toList, lateLsn.logName 1584541129, "state.txt".toList,
      earlyLsn.logName 1584541130] = .ok 16 ∧
      parseLsn (lsnStr 16) = .ok 16 := by
  have mixed (late early done state : Text) : [done, late, state, early].Perm ([late, early] ++ [done, state]) := by
    refine (List.Perm.swap late done _).trans (.cons late ?_)
    exact ((List.Perm.cons done (.swap early state [])).trans (.swap early done [state]))
  have newest := getLsn_newest [(lateLsn, 1584541129), (earlyLsn, 1584541130)]
    ["osmdbt.log.done".toList, "state.txt".toList] _ (by decide) (mixed _ _ _ _)
  have value : ([(lateLsn, (1584541129 : Timestamp)), (earlyLsn, 1584541130)].map (fun log => log.1.value)).foldl
      max 0 = 16 := by
    decide
  rwa [value] at newest

end Osmdbt
