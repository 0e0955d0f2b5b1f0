import Osmdbt.General.CText
import Mathlib.Data.List.Perm.Subperm
import Mathlib.Algebra.Order.BigOperators.Group.List

/-! Connection strings: settings `key=value` with blanks between them, values
optionally in single quotes, a backslash in front of a character that is meant as it is. -/

namespace Osmdbt.General.Conninfo

abbrev Settings := List (List Char × List Char)

/-- A value without quotes, up to the next blank. -/
def bareValue : List Char → List Char × List Char
  | [] => ([], [])
  | [c] => if isSpace c ∨ c = '\\' then ([], []) else ([c], [])
  | c :: d :: rest =>
    if isSpace c then ([], d :: rest)
    else if c = '\\' then (d :: (bareValue rest).1, (bareValue rest).2)
    else (c :: (bareValue (d :: rest)).1, (bareValue (d :: rest)).2)

/-- The rest of a value behind its opening quote; the closing one has to come. -/
def quotedValue : List Char → Option (List Char × List Char)
  | [] => none
  | [c] => if c = '\x27' then some ([], []) else none
  | c :: d :: rest =>
    if c = '\x27' then some ([], d :: rest)
    else if c = '\\' then (quotedValue rest).map (fun (value, left) => (d :: value, left))
    else (quotedValue (d :: rest)).map (fun (value, left) => (c :: value, left))

def value (s : List Char) : Option (List Char × List Char) :=
  if s.head? = some '\x27' then quotedValue s.tail else some (bareValue s)

def isName (c : Char) : Bool := c ≠ '=' ∧ isSpace c = false

/-- The settings of a text, in their order; `none` where a `=` or a closing quote is missing. -/
def settings : Nat → List Char → Option Settings
  | 0, _ => none
  | fuel + 1, s =>
    let start := s.dropWhile isSpace
    if start = [] then some []
    else
      let behind := (start.dropWhile isName).dropWhile isSpace
      if behind.head? ≠ some '=' then none
      else
        (value (behind.tail.dropWhile isSpace)).bind (fun (value, left) =>
          (settings fuel left).map (fun more => (start.takeWhile isName, value) :: more))

/-- Every setting takes at least one character. -/
def parse (s : List Char) : Option Settings := settings (s.length + 1) s

/-- The last of several settings with one key counts. -/
def settingOf (read : Settings) (key : List Char) : Option (List Char) := read.reverse.lookup key

example : parse "host=a port = 'x \\' y'user=b\\ c".toList =
    some [("host".toList, "a".toList), ("port".toList, "x ' y".toList), ("user".toList, "b c".toList)] := by decide

/-- Neither blanks nor backslashes. -/
def Unescaped (value : List Char) : Prop := ∀ c ∈ value, isSpace c = false ∧ c ≠ '\\'

/-- A value that is written without quotes and escapes. -/
structure Bare (value : List Char) : Prop where
  unescaped : Unescaped value
  unquoted : value.head? ≠ some '\x27'

/-- The characters that settings take: their keys and values, a `=` and a separator for each. -/
def cost (read : Settings) : Nat := (read.map (fun setting => setting.1.length + setting.2.length + 2)).sum

theorem unescaped_cons {c : Char} {value : List Char} (solid : isSpace c = false) (notEscape : c ≠ '\\')
    (rest : Unescaped value) : Unescaped (c :: value) := by
  intro d member
  rcases List.mem_cons.mp member with rfl | inside
  · exact ⟨solid, notEscape⟩
  · exact rest d inside

/-- A bare value takes its own characters and the blank behind it, and more if something is escaped. -/
private theorem bareValue_cases (s : List Char) :
    (s = (bareValue s).1 ∧ (bareValue s).2 = [] ∧ Unescaped (bareValue s).1) ∨
    (∃ c, isSpace c = true ∧ s = (bareValue s).1 ++ c :: (bareValue s).2 ∧ Unescaped (bareValue s).1) ∨
    ((bareValue s).1.length + (bareValue s).2.length < s.length ∧
      ((bareValue s).2 ≠ [] → (bareValue s).1.length + (bareValue s).2.length + 1 < s.length)) := by
  have none : Unescaped [] := fun _ wrong => absurd wrong List.not_mem_nil
  induction s using bareValue.induct with
  | case1 => exact .inl ⟨rfl, rfl, none⟩
  | case2 c ends =>
    rw [bareValue, if_pos ends]
    rcases ends with blank | rfl
    · exact .inr (.inl ⟨c, blank, rfl, none⟩)
    · exact .inr (.inr ⟨Nat.one_pos, fun wrong => absurd rfl wrong⟩)
  | case3 c ends =>
    rw [bareValue, if_neg ends]
    obtain ⟨blank, escape⟩ := not_or.mp ends
    exact .inl ⟨rfl, rfl, unescaped_cons (Bool.eq_false_of_not_eq_true blank) escape none⟩
  | case4 c d rest blank =>
    rw [bareValue, if_pos blank]
    exact .inr (.inl ⟨c, blank, rfl, none⟩)
  | case5 d rest blank ih =>
    rw [bareValue, if_neg blank, if_pos rfl]
    simp only [List.length_cons]
    rcases ih with ⟨whole, empty, _⟩ | ⟨b, _, split, _⟩ | ⟨less, least⟩
    · rw [empty]
      have length := congrArg List.length whole
      exact .inr (.inr ⟨by simp only [List.length_nil]; omega, fun wrong => absurd rfl wrong⟩)
    · have length := congrArg List.length split
      rw [List.length_append, List.length_cons] at length
      exact .inr (.inr ⟨by omega, fun _ => by omega⟩)
    · exact .inr (.inr ⟨by omega, fun some => by have := least some; omega⟩)
  | case6 c d rest blank escape ih =>
    rw [bareValue, if_neg blank, if_neg escape]
    have solid := Bool.eq_false_of_not_eq_true blank
    rcases ih with ⟨whole, empty, unescaped⟩ | ⟨b, isBlank, split, unescaped⟩ | ⟨less, least⟩
    · exact .inl ⟨congrArg (c :: ·) whole, empty, unescaped_cons solid escape unescaped⟩
    · exact .inr (.inl ⟨b, isBlank, congrArg (c :: ·) split, unescaped_cons solid escape unescaped⟩)
    · simp only [List.length_cons] at less least ⊢
      exact .inr (.inr ⟨by omega, fun some => by have := least some; omega⟩)

/-- The quotes of a quoted value are extra. -/
private theorem quotedValue_length {s value left : List Char} (read : quotedValue s = some (value, left)) :
    value.length + left.length + 1 ≤ s.length := by
  induction s using quotedValue.induct generalizing value with
  | case1 => cases read
  | case2 =>
    rw [quotedValue, if_pos rfl] at read
    cases read
    exact Nat.le_refl 1
  | case3 c notQuote =>
    rw [quotedValue, if_neg notQuote] at read
    cases read
  | case4 d rest =>
    rw [quotedValue, if_pos rfl] at read
    cases read
    simp
  | case5 d rest notQuote ih =>
    rw [quotedValue, if_neg notQuote, if_pos rfl] at read
    obtain ⟨⟨value', left'⟩, found, same⟩ := Option.map_eq_some_iff.mp read
    cases same
    have := ih found
    simp only [List.length_cons]
    omega
  | case6 c d rest notQuote notEscape ih =>
    rw [quotedValue, if_neg notQuote, if_neg notEscape] at read
    obtain ⟨⟨value', left'⟩, found, same⟩ := Option.map_eq_some_iff.mp read
    cases same
    have := ih found
    simp only [List.length_cons] at this ⊢
    omega

/-- A value takes its characters and a separator if something follows; it takes no more
only if it is bare. -/
private theorem value_cost {s v left : List Char} (read : value s = some (v, left)) :
    v.length + left.length ≤ s.length ∧ (left ≠ [] → v.length + left.length + 1 ≤ s.length) ∧
      (v.length = s.length ∨ left ≠ [] ∧ v.length + left.length + 1 = s.length → Bare v) := by
  unfold value at read
  split at read
  · have bound := quotedValue_length read
    have tail : s.tail.length + 1 = s.length := by
      cases s with
      | nil => simp at *
      | cons c rest => rfl
    exact ⟨by omega, fun _ => by omega, fun tight => by omega⟩
  · rename_i unquoted
    obtain ⟨rfl, rfl⟩ : (bareValue s).1 = v ∧ (bareValue s).2 = left := by
      rw [Option.some.injEq] at read
      rw [read]
      exact ⟨rfl, rfl⟩
    have head {c : Char} {rest : List Char} (split : s = (bareValue s).1 ++ rest)
      (begins : (bareValue s).1.head? = some c) :
        s.head? = some c := by
      rw [split, List.head?_append, begins, Option.some_or]
    rcases bareValue_cases s with ⟨whole, empty, unescaped⟩ | ⟨c, _, split, unescaped⟩ | ⟨less, least⟩
    · have length := congrArg List.length whole
      rw [empty]
      refine ⟨by simp only [List.length_nil]; omega, fun wrong => absurd rfl wrong,
        fun _ => ⟨unescaped, fun quote => unquoted ?_⟩⟩
      exact head (whole.trans (List.append_nil _).symm) quote
    · have length := congrArg List.length split
      rw [List.length_append, List.length_cons] at length
      exact ⟨by omega, fun _ => by omega, fun _ => ⟨unescaped, fun quote => unquoted (head split quote)⟩⟩
    · refine ⟨by omega, fun some => by have := least some; omega, ?_⟩
      rintro (tight | ⟨some, tight⟩)
      · omega
      · have := least some
        omega

/-- The first setting of a text: a key and a `=`, the value behind it, and what is left. -/
private theorem settings_first {fuel : Nat} {s : List Char} {read : Settings}
    (success : settings (fuel + 1) s = some read) :
    read = [] ∨ ∃ text v left more, read = ((s.dropWhile isSpace).takeWhile isName, v) :: more ∧
      ((s.dropWhile isSpace).takeWhile isName).length + 1 + text.length ≤ s.length ∧ value text = some (v, left) ∧
      settings fuel left = some more := by
  rw [settings] at success
  split at success
  · exact .inl (Option.some.inj success).symm
  by_cases equals : (((s.dropWhile isSpace).dropWhile isName).dropWhile isSpace).head? = some '='
  swap
  · rw [if_pos equals] at success
    cases success
  rw [if_neg (not_not.mpr equals)] at success
  obtain ⟨⟨v, left⟩, first, rest⟩ := Option.bind_eq_some_iff.mp success
  obtain ⟨more, later, rfl⟩ := Option.map_eq_some_iff.mp rest
  refine .inr ⟨_, v, left, more, rfl, ?_, first, later⟩
  have start := (List.dropWhile_sublist isSpace (l := s)).length_le
  have name := congrArg List.length (List.takeWhile_append_dropWhile (p := isName) (l := s.dropWhile isSpace))
  rw [List.length_append] at name
  have blanks := (List.dropWhile_sublist isSpace (l := (s.dropWhile isSpace).dropWhile isName)).length_le
  have behind := (List.dropWhile_sublist isSpace
    (l := (((s.dropWhile isSpace).dropWhile isName).dropWhile isSpace).tail)).length_le
  have positive := List.length_pos_of_mem (List.mem_of_mem_head? equals)
  rw [List.length_tail] at behind
  omega

/-- The settings that are read fit into the text, and if they fill it, all values are bare. -/
private theorem settings_cost {fuel : Nat} {s : List Char} {read : Settings} (success : settings fuel s = some read) :
    read = [] ∨ cost read ≤ s.length + 1 ∧ (cost read = s.length + 1 → ∀ setting ∈ read, Bare setting.2) := by
  induction fuel generalizing s read with
  | zero => cases success
  | succ fuel ih =>
    obtain rfl | ⟨text, v, left, more, rfl, length, first, later⟩ := settings_first success
    · exact .inl rfl
    right
    obtain ⟨fits, separated, tight⟩ := value_cost first
    have own : cost (((s.dropWhile isSpace).takeWhile isName, v) :: more) =
        ((s.dropWhile isSpace).takeWhile isName).length + v.length + 2 + cost more := List.sum_cons
    rw [own]
    have empty : left = [] → more = [] := by
      rintro rfl
      cases fuel with
      | zero => cases later
      | succ fuel => exact (Option.some.inj later).symm
    rcases ih later with rfl | ⟨bound, all⟩
    · have none : cost [] = 0 := rfl
      refine ⟨by omega, fun filled => ?_⟩
      rw [none] at filled
      have bare := tight (.inl (by omega))
      simpa using bare
    · by_cases last : left = []
      · obtain rfl := empty last
        have none : cost [] = 0 := rfl
        refine ⟨by omega, fun filled => ?_⟩
        have bare := tight (.inl (by omega))
        simpa using bare
      have separator := separated last
      refine ⟨by omega, fun filled setting member => ?_⟩
      rcases List.mem_cons.mp member with rfl | inside
      · exact tight (.inr ⟨last, by omega⟩)
      · exact all (by omega) setting inside

/-- Settings without quotes, with one blank between them. -/
def line : Settings → List Char
  | [] => []
  | [(key, v)] => key ++ '=' :: v
  | (key, v) :: next :: rest => key ++ '=' :: (v ++ ' ' :: line (next :: rest))

structure Name (key : List Char) : Prop where
  nonempty : key ≠ []
  plain : ∀ c ∈ key, isName c = true

theorem length_line {read : Settings} (some : read ≠ []) : (line read).length + 1 = cost read := by
  induction read with
  | nil => exact absurd rfl some
  | cons setting rest ih =>
    cases rest with
    | nil =>
      simp only [line, cost, List.map_cons, List.map_nil, List.sum_cons, List.sum_nil, List.length_append,
        List.length_cons]
      omega
    | cons next rest =>
      have later := ih (List.cons_ne_nil _ _)
      have own : cost (setting :: next :: rest) = setting.1.length + setting.2.length + 2 + cost
        (next :: rest) := List.sum_cons
      rw [own, ← later, line]
      simp only [List.length_append, List.length_cons]
      omega

private theorem bareValue_cons {c : Char} (solid : isSpace c = false) (notEscape : c ≠ '\\') (s : List Char) :
    bareValue (c :: s) = (c :: (bareValue s).1, (bareValue s).2) := by
  have notBlank : ¬ isSpace c = true := by rw [solid]; decide
  cases s with
  | nil => exact if_neg (not_or.mpr ⟨notBlank, notEscape⟩)
  | cons d rest => rw [bareValue, if_neg notBlank, if_neg notEscape]

private theorem bareValue_blank (s : List Char) : bareValue (' ' :: s) = ([], s) := by
  cases s <;> rfl

private theorem bareValue_append {v : List Char} (unescaped : Unescaped v) (rest : List Char) :
    bareValue (v ++ rest) = (v ++ (bareValue rest).1, (bareValue rest).2) := by
  induction v with
  | nil => rfl
  | cons c v ih =>
    obtain ⟨solid, notEscape⟩ := unescaped c List.mem_cons_self
    rw [List.cons_append, bareValue_cons solid notEscape,
      ih (fun d member => unescaped d (List.mem_cons_of_mem _ member))]
    rfl

/-- One setting in front of others, or of the end. -/
theorem settings_setting {key v rest left : List Char} (name : Name key) (some : v ≠ []) (bare : Bare v)
    (ends : bareValue rest = ([], left)) (fuel : Nat) :
    settings (fuel + 1) (key ++ '=' :: (v ++ rest)) = (settings fuel left).map (fun more => (key, v) :: more) := by
  have first {s : List Char} (nonempty : s ≠ []) (solid : ∀ c ∈ s, isSpace c = false) (tail : List Char) :
      (s ++ tail).dropWhile isSpace = s ++ tail := by
    obtain ⟨c, s, rfl⟩ := List.exists_cons_of_ne_nil nonempty
    rw [List.cons_append, List.dropWhile_cons, solid c List.mem_cons_self, if_neg (by decide)]
  have start : (key ++ '=' :: (v ++ rest)).dropWhile isSpace = key ++ '=' :: (v ++ rest) :=
    first name.nonempty (fun c member => (of_decide_eq_true (name.plain c member)).2) _
  have text : (v ++ rest).dropWhile isSpace = v ++ rest := first some (fun c member => (bare.unescaped c member).1) _
  have taken : (key ++ '=' :: (v ++ rest)).takeWhile isName = key := by
    rw [List.takeWhile_append_of_pos name.plain, List.takeWhile_cons_of_neg (by decide), List.append_nil]
  have dropped : (key ++ '=' :: (v ++ rest)).dropWhile isName = '=' :: (v ++ rest) := by
    rw [List.dropWhile_append_of_pos name.plain, List.dropWhile_cons_of_neg (by decide)]
  have equals : ('=' :: (v ++ rest)).dropWhile isSpace = '=' :: (v ++ rest) := List.dropWhile_cons_of_neg (by decide)
  have unquoted : (v ++ rest).head? ≠ Option.some '\x27' := by
    obtain ⟨c, v, rfl⟩ := List.exists_cons_of_ne_nil some
    exact bare.unquoted
  have read : value (v ++ rest) = Option.some (v, left) := by
    rw [value, if_neg unquoted, bareValue_append bare.unescaped, ends, List.append_nil]
  rw [settings, start, if_neg (List.append_ne_nil_of_left_ne_nil name.nonempty _), dropped, equals,
    if_neg (fun wrong => wrong rfl),
    List.tail_cons, text, read, taken]
  rfl

private theorem settings_line {read : Settings} (named : ∀ setting ∈ read, Name setting.1)
    (bare : ∀ setting ∈ read, setting.2 ≠ [] ∧ Bare setting.2) {fuel : Nat} (enough : read.length < fuel) :
    settings fuel (line read) = some read := by
  induction read generalizing fuel with
  | nil =>
    cases fuel with
    | zero => cases enough
    | succ fuel => rfl
  | cons setting rest ih =>
    cases fuel with
    | zero => cases enough
    | succ fuel =>
      obtain ⟨key, v⟩ := setting
      have name := named (key, v) List.mem_cons_self
      obtain ⟨some, solid⟩ := bare (key, v) List.mem_cons_self
      have later := ih (fun other member => named other (List.mem_cons_of_mem _ member))
        (fun other member => bare other (List.mem_cons_of_mem _ member)) (Nat.lt_of_succ_lt_succ enough)
      cases rest with
      | nil =>
        have only := @settings_setting key v [] [] name some solid rfl fuel
        rw [List.append_nil] at only
        rw [line, only, show settings fuel [] = Option.some [] from later]
        rfl
      | cons next rest =>
        rw [line, settings_setting name some solid (bareValue_blank _) fuel, later]
        rfl

private theorem settingOf_mem {read : Settings} {key v : List Char} (found : settingOf read key = some v) :
    (key, v) ∈ read := by
  obtain ⟨before, after, split, _⟩ := List.lookup_eq_some_iff.mp found
  exact List.mem_reverse.mp (split ▸ List.mem_append_right _ List.mem_cons_self)

private theorem settingOf_of_mem {read : Settings} (distinct : (read.map Prod.fst).Nodup)
    {setting : List Char × List Char}
    (member : setting ∈ read) : settingOf read setting.1 = some setting.2 := by
  obtain ⟨key, v⟩ := setting
  obtain ⟨before, after, split⟩ := List.append_of_mem (List.mem_reverse.mpr member)
  refine List.lookup_eq_some_iff.mpr ⟨before, after, split, fun other inside => ?_⟩
  have reversed : (read.reverse.map Prod.fst).Nodup := by
    rwa [List.map_reverse, List.nodup_reverse]
  rw [split, List.map_append, List.nodup_append] at reversed
  have different := reversed.2.2 other.1 (List.mem_map_of_mem inside) key List.mem_cons_self
  exact bne_iff_ne.mpr different.symm

private theorem cost_mono {read more : Settings} (distinct : read.Nodup) (all : ∀ setting ∈ read, setting ∈ more) :
    cost read ≤ cost more := by
  obtain ⟨same, perm, inside⟩ := List.subperm_of_subset distinct all
  have equal : cost same = cost read := (perm.map _).sum_eq
  rw [← equal]
  exact (inside.map _).sum_le_sum (fun _ _ => Nat.zero_le _)

/-- The beginning of a line is read as its settings iff it is the whole line and all values
are bare: a text that is read otherwise has no room for them. -/
theorem parse_line {read : Settings} (named : ∀ setting ∈ read, Name setting.1) (distinct : (read.map Prod.fst).Nodup)
    (some : ∀ setting ∈ read, setting.2 ≠ []) {text : List Char} (part : text <+: line read) :
    (∃ found, parse text = Option.some found ∧ ∀ key, settingOf found key = settingOf read key) ↔
      text = line read ∧ ∀ setting ∈ read, Bare setting.2 := by
  constructor
  · rintro ⟨found, success, same⟩
    have inside : ∀ setting ∈ read, setting ∈ found := fun setting member =>
      settingOf_mem ((same setting.1).trans (settingOf_of_mem distinct member))
    by_cases empty : read = []
    · subst empty
      exact ⟨List.prefix_nil.mp part, fun _ wrong => absurd wrong List.not_mem_nil⟩
    obtain ⟨setting, member⟩ := List.exists_mem_of_ne_nil read empty
    have fewer := cost_mono distinct.of_map inside
    have filled := length_line empty
    have length := part.length_le
    rcases settings_cost success with none | ⟨bound, bare⟩
    · exact absurd (none ▸ inside setting member) List.not_mem_nil
    · exact ⟨part.eq_of_length (by omega), fun setting member => bare (by omega) setting (inside setting member)⟩
  · rintro ⟨rfl, bare⟩
    have enough : read.length < (line read).length + 1 := by
      by_cases empty : read = []
      · subst empty
        exact Nat.one_pos
      have each := List.card_nsmul_le_sum (read.map (fun setting => setting.1.length + setting.2.length + 2)) 2 (by
        intro n member
        obtain ⟨setting, _, rfl⟩ := List.mem_map.mp member
        omega)
      rw [List.length_map, Nat.nsmul_eq_mul, show List.sum _ = cost read from rfl] at each
      have positive := List.length_pos_iff.mpr empty
      have filled := length_line empty
      omega
    exact ⟨read, settings_line named (fun setting member => ⟨some setting member, bare setting member⟩)
      enough, fun _ => rfl⟩

end Osmdbt.General.Conninfo
