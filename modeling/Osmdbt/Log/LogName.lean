import Osmdbt.Log.Lsn
import Osmdbt.Timestamp

/-! Names of log files: how get-log builds them, how every tool recognises the
suffix, and how catchup reads the LSN back out of them. -/

namespace Osmdbt

open General

/-- `create_replication_log_name` -/
def createReplicationLogName (name : Text) (time : Timestamp) : Text :=
  "osm-repl-".toList ++ toIsoAll time ++ '-' :: name ++ ".log".toList

/-- The name get-log gives to a log with the commit LSN `lsn`. -/
def replicationLogName (lsn : Text) (time : Timestamp) : Text :=
  createReplicationLogName ("lsn-".toList ++ dashed lsn) time

/-- `std::filesystem::path::extension` of a file name. -/
def extension (fileName : Text) : Text :=
  let suffix := fileName.reverse.takeWhile (· ≠ '.')
  if fileName = "..".toList ∨ fileName.length ≤ suffix.length + 1 then []
  else '.' :: suffix.reverse

def isLog (fileName : Text) : Bool := extension fileName = ".log".toList

/-- One position of a fixed pattern. -/
inductive Glyph where
  | digit
  | char (c : Char)

def Glyph.accepts : Glyph → Char → Bool
  | .digit, c => decimal.isDigit c
  | .char d, c => c = d

def literal (s : String) : List Glyph := s.toList.map .char

/-- The rest of a text behind a pattern. -/
def dropGlyphs : List Glyph → Text → Option Text
  | [], s => some s
  | _ :: _, [] => none
  | glyph :: glyphs, c :: s => if glyph.accepts c then dropGlyphs glyphs s else none

def datePattern : List Glyph :=
  [.digit, .digit, .digit, .digit, .char '-', .digit, .digit, .char '-', .digit, .digit, .char 'T',
    .digit, .digit, .char ':', .digit, .digit, .char ':', .digit, .digit, .char 'Z']

/-- `[0-9A-F]` -/
def isUpperHex (c : Char) : Bool := ('0' ≤ c ∧ c ≤ '9') ∨ ('A' ≤ c ∧ c ≤ 'F')

/-- `std::regex_match` of `get_lsn`; the result is the one sub-match. -/
def matchLogName (fileName : Text) : Option Text :=
  match dropGlyphs (literal "osm-repl-" ++ datePattern ++ literal "-lsn-") fileName with
  | none => none
  | some rest =>
    match rest.takeWhile isUpperHex, rest.dropWhile isUpperHex with
    | u :: upper, '-' :: rest =>
      match rest.takeWhile isUpperHex, rest.dropWhile isUpperHex with
      | l :: lower, ['.', 'l', 'o', 'g'] => some (u :: upper ++ '-' :: l :: lower)
      | _, _ => none
    | _, _ => none

def invalidLogFile (fileName : Text) : Fault :=
  .runtimeError ("Invalid log file format: '".toList ++ fileName ++ "'".toList)

/-- The LSN in the name of a log file. -/
def lsnOfName (fileName : Text) : Except Fault Nat :=
  match matchLogName fileName with
  | some lsn => parseLsn lsn
  | none => .error (invalidLogFile fileName)

/-- The loop of `get_lsn` over the listing of the log directory. -/
def getLsn (files : List Text) : Except Fault Nat :=
  files.foldlM (fun lsn fileName =>
    if isLog fileName then do
      let newLsn ← lsnOfName fileName
      return if newLsn > lsn then newLsn else lsn
    else .ok lsn) 0

theorem extension_append {stem suffix : Text} (nonempty : stem ≠ []) (plain : '.' ∉ suffix)
    (named : suffix ≠ []) : extension (stem ++ '.' :: suffix) = '.' :: suffix := by
  have tail : (stem ++ '.' :: suffix).reverse.takeWhile (· ≠ '.') = suffix.reverse := by
    rw [List.reverse_append, List.reverse_cons, List.append_assoc,
      List.takeWhile_append_of_pos (by simpa using fun c member => ne_of_mem_of_not_mem member plain)]
    simp
  have stemLength := List.length_pos_iff.mpr nonempty
  have suffixLength := List.length_pos_iff.mpr named
  have long : ¬ (stem ++ '.' :: suffix).length ≤ suffix.reverse.length + 1 := by
    simp only [List.length_append, List.length_cons, List.length_reverse]
    omega
  have notDots : stem ++ '.' :: suffix ≠ "..".toList := by
    intro same
    have lengths : stem.length + (suffix.length + 1) = 2 := by
      simpa using congrArg List.length same
    omega
  simp only [extension, tail, notDots, long, or_self, ↓reduceIte, List.reverse_reverse]

/-- The three suffixes a log file has during its life. -/
theorem isLog_new (fileName : Text) : isLog (fileName ++ ".new".toList) = false := by
  unfold isLog
  by_cases empty : fileName = []
  · subst empty; decide
  · rw [show ".new".toList = '.' :: "new".toList from rfl, extension_append empty (by decide) (by decide)]
    decide

theorem isLog_done (fileName : Text) : isLog (fileName ++ ".done".toList) = false := by
  unfold isLog
  by_cases empty : fileName = []
  · subst empty; decide
  · rw [show ".done".toList = '.' :: "done".toList from rfl, extension_append empty (by decide) (by decide)]
    decide

theorem isLog_replicationLogName (lsn : Text) (time : Timestamp) : isLog (replicationLogName lsn time) = true := by
  unfold isLog replicationLogName createReplicationLogName
  rw [show ".log".toList = '.' :: "log".toList from rfl, extension_append (by simp) (by decide) (by decide)]
  decide

theorem dropGlyphs_append {glyphs : List Glyph} {s : Text}
    (accepted : List.Forall₂ (fun g c => g.accepts c = true) glyphs s)
    (more : List Glyph) (rest : Text) : dropGlyphs (glyphs ++ more) (s ++ rest) = dropGlyphs more rest := by
  induction accepted with
  | nil => rfl
  | cons here _ ih => simpa [dropGlyphs, here] using ih

theorem literal_accepts (s : Text) : List.Forall₂ (fun g c => g.accepts c = true) (s.map Glyph.char) s := by
  induction s with
  | nil => exact .nil
  | cons c s ih => exact .cons (by simp [Glyph.accepts]) ih

private theorem isoText_accepted (year month day hour minute second : Nat) :
    List.Forall₂ (fun g c => g.accepts c = true) datePattern (isoText year month day hour minute second) := by
  simp [datePattern, isoText, fourDigits, twoDigits, Glyph.accepts, isDigit_digitChar]

theorem toIsoAll_accepted (time : Timestamp) :
    List.Forall₂ (fun g c => g.accepts c = true) datePattern (toIsoAll time) :=
  isoText_accepted _ _ _ _ _ _

theorem isUpperHex_print (n : Nat) : ∀ c ∈ hexadecimal.print n, isUpperHex c = true := by
  have digit (d : Nat) (bound : d < 16) : isUpperHex (hexadecimal.char d) = true := by
    rcases hexadecimal_char_upper bound with range | range <;> simp [isUpperHex, range]
  intro c member
  by_cases zero : n = 0
  · simp only [Digits.print, zero, ↓reduceIte, List.mem_singleton] at member
    exact member ▸ digit 0 (by decide)
  · simp only [Digits.print, zero, ↓reduceIte, List.mem_map, List.mem_reverse] at member
    obtain ⟨d, inside, rfl⟩ := member
    exact digit d (Nat.digits_lt_base (by decide) inside)

private theorem hex_prefix {hex rest : Text} (digits : ∀ c ∈ hex, isUpperHex c = true)
    (stop : ∀ c ∈ rest.head?, isUpperHex c = false) :
    (hex ++ rest).takeWhile isUpperHex = hex ∧ (hex ++ rest).dropWhile isUpperHex = rest := by
  rw [List.takeWhile_append_of_pos digits, List.dropWhile_append_of_pos digits]
  cases rest with
  | nil => simp
  | cons c rest => simp [stop c (by simp)]

/-- The expression of `get_lsn` takes two runs of upper-case digits out of a name. -/
theorem matchLogName_dated {date upper lower : Text}
    (dated : List.Forall₂ (fun g c => g.accepts c = true) datePattern date) (present : upper ≠ [] ∧ lower ≠ [])
    (hex : ∀ c ∈ upper ++ lower, isUpperHex c = true) :
    matchLogName ("osm-repl-".toList ++ date ++ '-' :: ("lsn-".toList ++ (upper ++ '-' :: lower)) ++
      ".log".toList) = some (upper ++ '-' :: lower) := by
  have parts : "osm-repl-".toList ++ date ++ '-' :: ("lsn-".toList ++ (upper ++ '-' :: lower)) ++ ".log".toList =
      "osm-repl-".toList ++ (date ++ ("-lsn-".toList ++ (upper ++ '-' :: (lower ++ ".log".toList)))) := by
    simp
  have dropped : dropGlyphs (literal "osm-repl-" ++ datePattern ++ literal "-lsn-")
      ("osm-repl-".toList ++ (date ++ ("-lsn-".toList ++
        (upper ++ '-' :: (lower ++ ".log".toList))))) = some (upper ++ '-' :: (lower ++ ".log".toList)) := by
    rw [List.append_assoc, literal, dropGlyphs_append (literal_accepts _), dropGlyphs_append dated, literal,
      ← List.append_nil (List.map Glyph.char _), dropGlyphs_append (literal_accepts _)]
    rfl
  have dash : ∀ c ∈ ('-' :: (lower ++ ".log".toList)).head?, isUpperHex c = false := by simp [isUpperHex]
  have dot : ∀ c ∈ ".log".toList.head?, isUpperHex c = false := by simp [isUpperHex]
  have first := hex_prefix (fun c member => hex c (List.mem_append_left _ member)) dash
  have second := hex_prefix (fun c member => hex c (List.mem_append_right _ member)) dot
  obtain ⟨u, upper, rfl⟩ := List.exists_cons_of_ne_nil present.1
  obtain ⟨l, lower, rfl⟩ := List.exists_cons_of_ne_nil present.2
  rw [parts]
  simp only [matchLogName, dropped, first.1, first.2, second.1, second.2]
  rfl

/-- The expression matches every name get-log gives. -/
private theorem matchLogName_replicationLogName (lsn : Nat) (time : Timestamp) :
    matchLogName (replicationLogName (lsnStr lsn) time) = some (lsnText '-' lsn) := by
  have general (upper lower : Text) (present : upper ≠ [] ∧ lower ≠ [])
      (hex : ∀ c ∈ upper ++ lower, isUpperHex c = true) (same : dashed (lsnStr lsn) = upper ++ '-' :: lower) :
      matchLogName (replicationLogName (lsnStr lsn) time) = some (upper ++ '-' :: lower) := by
    unfold replicationLogName createReplicationLogName
    rewrite [same]
    exact matchLogName_dated (toIsoAll_accepted time) present hex
  refine general _ _ ⟨hexadecimal.print_ne_nil _, hexadecimal.print_ne_nil _⟩ ?_ (dashed_lsnStr lsn)
  intro c member
  rcases List.mem_append.mp member with inside | inside
  · exact isUpperHex_print _ c inside
  · exact isUpperHex_print _ c inside

theorem lsnOfName_replicationLogName {lsn : Nat} (small : lsn < 2 ^ 64) (time : Timestamp) :
    lsnOfName (replicationLogName (lsnStr lsn) time) = .ok lsn := by
  rw [lsnOfName, matchLogName_replicationLogName]
  exact parseLsn_lsnText (.inl rfl) small

private theorem getLsn_fold {files : List Text} {start lsn : Nat}
    (success : files.foldlM (fun lsn fileName =>
      if isLog fileName then do
        let newLsn ← lsnOfName fileName
        return if newLsn > lsn then newLsn else lsn
      else (.ok lsn : Except Fault Nat)) start = .ok lsn) :
    start ≤ lsn ∧ (lsn = start ∨ ∃ fileName ∈ files, isLog fileName ∧ lsnOfName fileName = .ok lsn) ∧
      ∀ fileName ∈ files, isLog fileName → ∃ own ≤ lsn, lsnOfName fileName = .ok own := by
  induction files generalizing start with
  | nil =>
    obtain rfl : start = lsn := Except.ok.inj success
    simp
  | cons fileName rest ih =>
    rw [List.foldlM_cons] at success
    by_cases log : isLog fileName
    · cases own : lsnOfName fileName with
      | error fault => simp [log, own, bind, Except.bind] at success
      | ok newLsn =>
        simp only [log, own, bind, Except.bind, pure, Except.pure, ↓reduceIte] at success
        obtain ⟨grown, source, bounded⟩ := ih success
        have both : start ≤ lsn ∧ newLsn ≤ lsn := by
          split at grown <;> omega
        refine ⟨both.1, ?_, ?_⟩
        · rcases source with same | ⟨found, member, found'⟩
          · split at same
            · exact .inr ⟨fileName, by simp, log, same ▸ own⟩
            · exact .inl same
          · exact .inr ⟨found, List.mem_cons_of_mem _ member, found'⟩
        · intro other member otherLog
          rcases List.mem_cons.mp member with rfl | inside
          · exact ⟨newLsn, both.2, own⟩
          · exact bounded other inside otherLog
    · simp only [log, Bool.false_eq_true, ↓reduceIte] at success
      obtain ⟨grown, source, bounded⟩ := ih success
      refine ⟨grown, source.imp_right (fun ⟨found, member, rest⟩ => ⟨found, List.mem_cons_of_mem _ member, rest⟩), ?_⟩
      intro other member otherLog
      rcases List.mem_cons.mp member with rfl | inside
      · exact absurd otherLog log
      · exact bounded other inside otherLog

/-- `get_lsn` finds the largest LSN among the names with the suffix `.log`, or
zero when there is none. -/
theorem getLsn_spec {files : List Text} {lsn : Nat} (success : getLsn files = .ok lsn) :
    (lsn = 0 ∨ ∃ fileName ∈ files, isLog fileName ∧ lsnOfName fileName = .ok lsn) ∧
      ∀ fileName ∈ files, isLog fileName → ∃ own ≤ lsn, lsnOfName fileName = .ok own :=
  (getLsn_fold success).2

end Osmdbt
