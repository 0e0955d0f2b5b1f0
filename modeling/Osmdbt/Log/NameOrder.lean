import Osmdbt.Log.LogName
import Osmdbt.Calendar

/-! The order in which create-diff takes the log files is the order of their names.
It is the order of time, and within a second the order of the LSN texts, in which
`0/9` comes after `0/10`. -/

namespace Osmdbt

open General

private theorem hexadecimal_ordered : hexadecimal.Ordered := by
  have all : ∀ e < 16, ∀ d < e, hexadecimal.char d < hexadecimal.char e := by decide
  exact fun d e less bound => all e bound d less

/-- A number is at most the one made of as many first digits of a larger one. -/
def Leads (m n : Nat) : Prop := m ≤ n / 16 ^ ((hexadecimal.print n).length - (hexadecimal.print m).length)

instance (m n : Nat) : Decidable (Leads m n) := inferInstanceAs (Decidable (_ ≤ _))

/-- The first half in which two positions differ decides. -/
def LsnTextsOrdered (first second : Nat) : Prop :=
  if first / 2 ^ 32 = second / 2 ^ 32 then Leads (first % 2 ^ 32) (second % 2 ^ 32)
  else Leads (first / 2 ^ 32) (second / 2 ^ 32)

/-- Two numerals in front of a character below all digits. -/
theorem half_lt_iff {m n : Nat} (less : m < n) {c : Char} (low : ∀ d < 16, c < hexadecimal.char d) (x y : Text) :
    hexadecimal.print m ++ c :: x < hexadecimal.print n ++ c :: y ↔ Leads m n :=
  Digits.print_append_lt_iff hexadecimal_ordered less low x (c :: y)

theorem common_lt_iff {block x y : Text} : block ++ x < block ++ y ↔ x < y := by
  rw [Digits.append_lt_append_iff rfl]
  exact ⟨fun rest => (rest.resolve_left (List.lt_irrefl _)).2, fun rest => .inr ⟨rfl, rest⟩⟩

private theorem lsnTexts_lt_iff {first second : Nat} (less : first < second) :
    lsnText '-' first ++ ".log".toList < lsnText '-' second ++ ".log".toList ↔ LsnTextsOrdered first second := by
  have dash : ∀ d < 16, '-' < hexadecimal.char d := by decide
  have dot : ∀ d < 16, '.' < hexadecimal.char d := by decide
  simp only [lsnText, List.append_assoc, List.cons_append]
  unfold LsnTextsOrdered
  by_cases same : first / 2 ^ 32 = second / 2 ^ 32
  · have lower : first % 2 ^ 32 < second % 2 ^ 32 := by omega
    rw [if_pos same, same, common_lt_iff, List.cons_lt_cons_iff, ← half_lt_iff lower dot "log".toList "log".toList]
    exact ⟨fun rest => (rest.resolve_left (Char.lt_irrefl _)).2, fun rest => .inr ⟨rfl, rest⟩⟩
  · have upper : first / 2 ^ 32 < second / 2 ^ 32 := by omega
    rw [if_neg same]
    exact half_lt_iff upper dash _ _

theorem replicationLogName_parts (lsn : Nat) (time : Timestamp) : replicationLogName (lsnStr lsn) time =
    "osm-repl-".toList ++ (toIsoAll time ++ ("-lsn-".toList ++ (lsnText '-' lsn ++ ".log".toList))) := by
  have general (date text : Text) : "osm-repl-".toList ++ date ++ '-' :: ("lsn-".toList ++ text) ++ ".log".toList =
      "osm-repl-".toList ++ (date ++ ("-lsn-".toList ++ (text ++ ".log".toList))) := by simp
  unfold replicationLogName createReplicationLogName
  rw [dashed_lsnStr]
  exact general _ _

theorem datedTexts_lt_iff {date date' x y : Text} (same : date.length = date'.length) :
    "osm-repl-".toList ++ (date ++ ("-lsn-".toList ++ x)) < "osm-repl-".toList ++ (date' ++ ("-lsn-".toList ++ y)) ↔
      date < date' ∨ date = date' ∧ x < y := by
  rw [common_lt_iff, Digits.append_lt_append_iff same, common_lt_iff]

theorem replicationLogName_earlier {lsn lsn' : Nat} {time time' : Timestamp} (earlier : time < time') :
    replicationLogName (lsnStr lsn) time < replicationLogName (lsnStr lsn') time' := by
  have length : (toIsoAll time).length = (toIsoAll time').length := by
    rw [length_toIsoAll, length_toIsoAll]
  rw [replicationLogName_parts, replicationLogName_parts, datedTexts_lt_iff length]
  exact .inl (toIsoAll_lt earlier)

/-- Of two logs with increasing positions and times the first one is taken first exactly
when it is from an earlier second, or the text of its position is smaller, too. -/
theorem replicationLogName_lt_iff {lsn lsn' : Nat} {time time' : Timestamp} (positions : lsn < lsn')
    (times : time ≤ time') :
    replicationLogName (lsnStr lsn) time < replicationLogName (lsnStr lsn') time' ↔
      time < time' ∨ LsnTextsOrdered lsn lsn' := by
  have length : (toIsoAll time).length = (toIsoAll time').length := by
    rw [length_toIsoAll, length_toIsoAll]
  have seconds : time < time' ∨ time = time' :=
    (Nat.lt_or_eq_of_le (show time.toNat ≤ time'.toNat from times)).imp id UInt32.toNat_inj.mp
  rw [replicationLogName_parts, replicationLogName_parts, datedTexts_lt_iff length, lsnTexts_lt_iff positions]
  rcases seconds with earlier | rfl
  · exact iff_of_true (.inl (toIsoAll_lt earlier)) (.inl earlier)
  · constructor
    · rintro (wrong | ⟨_, ordered⟩)
      · exact absurd wrong (List.lt_irrefl _)
      · exact .inr ordered
    · rintro (wrong | ordered)
      · exact absurd wrong (UInt32.lt_irrefl _)
      · exact .inr ⟨rfl, ordered⟩

theorem replicationLogName_lt_iff_same_second :
    replicationLogName (lsnStr 16) 1584541129 < replicationLogName (lsnStr 17) 1584541129 ↔
      (1584541129 : Timestamp) < 1584541129 ∨ LsnTextsOrdered 16 17 :=
  replicationLogName_lt_iff (by decide) (by decide)

/-- `0/9` and `0/10` in the same second. -/
theorem replicationLogName_order_fails : ¬ ∀ (lsn lsn' : Nat) (time time' : Timestamp), lsn < lsn' → time ≤ time' →
    replicationLogName (lsnStr lsn) time < replicationLogName (lsnStr lsn') time' := by
  intro ordered
  have wrong := ordered 9 16 1584541129 1584541129 (by decide) (by decide)
  rw [replicationLogName_parts, replicationLogName_parts, datedTexts_lt_iff rfl] at wrong
  rcases wrong with earlier | ⟨_, texts⟩
  · exact List.lt_irrefl _ earlier
  · exact absurd texts (by decide)

end Osmdbt
