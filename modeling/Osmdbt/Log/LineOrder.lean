import Osmdbt.Log.Osmobj
import Osmdbt.Diff.CreateObjects

/-! The order of log lines does not matter: reading any files with the same `N`
lines asks for the same object versions and the same changesets. -/

namespace Osmdbt

open General

/-- `osmium::item_type_to_nwr_index` -/
def nwrIndex : ItemType → Nat
  | .node => 0
  | .way => 1
  | .relation => 2

/-- `osmobj_tuple` -/
def Osmobj.tuple (obj : Osmobj) : Lex (Nat × Key) := toLex (nwrIndex obj.type, obj.key)

/-- What `std::sort` promises for `operator<`: the changesets of equal entries
may come out in any order. -/
structure Sorted (objs sorted : List Osmobj) : Prop where
  perm : sorted.Perm objs
  ordered : sorted.Pairwise (fun a b => ¬ b.tuple < a.tuple)

/-- The text of the `WITH` clause in front of the queries. -/
def wantedText (objs : List Osmobj) : Text :=
  ("WITH wanted(id, version) AS (VALUES ".toList ++ objs.flatMap (fun obj =>
    '(' :: intText obj.id.toInt ++ ',' :: natText obj.version.toNat ++ "),".toList)).dropLast ++ ") ".toList

/-- A line with the action `N`. -/
def isNLine (line : Text) : Bool := (splitString line ' ')[2]? = some "N".toList

def nLines (file : Text) : List Text := (getlines file).filter isNLine

/-- A line the reader takes an entry from. -/
def WellFormed (line : Text) : Prop := ∃ obj, readLine line = .ok (some obj)

/-- Every other line is skipped. -/
private theorem readLine_other {line : Text} (other : isNLine line = false) : readLine line = .ok none := by
  unfold isNLine at other
  unfold readLine
  split
  · rename_i lsn xid action fields split
    rw [split] at other
    rw [if_neg (by simpa using other)]
  · rfl

/-- The entry on a line. -/
def lineEntry (line : Text) : Option Osmobj := (readLine line).toOption.join

theorem logEntries_nLines {file : Text} (wellFormed : ∀ line ∈ nLines file, WellFormed line) :
    logEntries file = .ok ((nLines file).filterMap lineEntry) := by
  unfold logEntries
  unfold nLines at wellFormed ⊢
  generalize getlines file = lines at wellFormed ⊢
  have read : lines.mapM readLine = .ok (lines.map (fun line => if isNLine line then lineEntry line else none)) := by
    induction lines with
    | nil => rfl
    | cons line rest ih =>
      have tail := ih (fun other member => wellFormed other (by
        rw [List.filter_cons]
        split
        · exact List.mem_cons_of_mem _ member
        · exact member))
      rw [List.mapM_cons, tail, List.map_cons]
      by_cases entry : isNLine line = true
      · obtain ⟨obj, here⟩ := wellFormed line (by simp [entry])
        rw [if_pos entry, lineEntry, here]
        rfl
      · rw [if_neg entry, readLine_other (by simpa using entry)]
        rfl
  rw [read]
  have kept : (lines.map (fun line => if isNLine line then lineEntry line else none)).filterMap id =
      (lines.filter isNLine).filterMap lineEntry := by
    rw [List.filterMap_map, List.filterMap_filter]
    rfl
  exact congrArg Except.ok kept

theorem readEntries_nLines {files : List Text} (wellFormed : ∀ line ∈ files.flatMap nLines, WellFormed line) :
    readEntries files = .ok ((files.flatMap nLines).filterMap lineEntry) := by
  have each : ∀ file ∈ files, logEntries file = .ok ((nLines file).filterMap lineEntry) := fun file member =>
    logEntries_nLines (fun line inside => wellFormed line (List.mem_flatMap.mpr ⟨file, member, inside⟩))
  have all : files.mapM logEntries = .ok (files.map (fun file => (nLines file).filterMap lineEntry)) := by
    clear wellFormed
    induction files with
    | nil => rfl
    | cons file rest ih =>
      rw [List.mapM_cons, each file (by simp), ih (fun other member => each other (List.mem_cons_of_mem _ member))]
      rfl
  rw [readEntries, all]
  have flat : (files.map (fun file => (nLines file).filterMap lineEntry)).flatten =
      (files.flatMap nLines).filterMap lineEntry := by
    rw [List.filterMap_flatMap, List.flatMap_def]
  exact congrArg Except.ok flat

/-- The keys in order depend only on the entries as a multiset. -/
theorem Sorted.map_key {type : ItemType} {objs objs' sorted sorted' : List Osmobj}
    (own : ∀ obj ∈ objs, obj.type = type)
    (first : Sorted objs sorted) (second : Sorted objs' sorted') (perm : objs.Perm objs') :
    sorted.map Osmobj.key = sorted'.map Osmobj.key := by
  have ordered {objs sorted : List Osmobj} (own : ∀ obj ∈ objs, obj.type = type) (result : Sorted objs sorted) :
      (sorted.map Osmobj.key).Pairwise (· ≤ ·) := by
    rw [List.pairwise_map]
    refine result.ordered.imp_of_mem (fun {a b} inside inside' notLess => ?_)
    have sameType : nwrIndex b.type = nwrIndex a.type := by
      rw [own a (result.perm.mem_iff.mp inside), own b (result.perm.mem_iff.mp inside')]
    refine not_lt.mp (fun less => notLess ?_)
    exact Prod.Lex.toLex_lt_toLex.mpr (.inr ⟨sameType, less⟩)
  have all : (sorted.map Osmobj.key).Perm (sorted'.map Osmobj.key) :=
    ((first.perm.trans perm).trans second.perm.symm).map _
  exact all.eq_of_pairwise (fun a b _ _ => le_antisymm) (ordered own first)
    (ordered (fun obj member => own obj (perm.mem_iff.mpr member)) second)

private theorem wantedText_keys {objs objs' : List Osmobj} (same : objs.map Osmobj.key = objs'.map Osmobj.key) :
    wantedText objs = wantedText objs' := by
  have texts (objs : List Osmobj) : objs.flatMap (fun obj =>
      '(' :: intText obj.id.toInt ++ ',' :: natText obj.version.toNat ++ "),".toList) =
      (objs.map Osmobj.key).flatMap (fun pair =>
        '(' :: intText (ofLex pair).1 ++ ',' :: natText (ofLex pair).2 ++ "),".toList) := by
    rw [List.flatMap_map]
    rfl
  rw [wantedText, wantedText, texts, texts, same]

/-- The model's own sort is one of the sorts the library may choose. -/
theorem sortObjs_sorted {type : ItemType} {objs : List Osmobj} (own : ∀ obj ∈ objs, obj.type = type) :
    Sorted objs (Osmobjects.sortObjs objs) where
  perm := List.perm_insertionSort _ objs
  ordered := by
    have ordered := List.pairwise_insertionSort (fun a b : Osmobj => a.key ≤ b.key) objs
    refine ordered.imp_of_mem (fun {a b} inside inside' below => ?_)
    have perm := List.perm_insertionSort (fun a b : Osmobj => a.key ≤ b.key) objs
    rintro less
    rcases Prod.Lex.toLex_lt_toLex.mp less with types | ⟨_, keys⟩
    · rw [own a (perm.mem_iff.mp inside), own b (perm.mem_iff.mp inside')] at types
      exact absurd types (lt_irrefl _)
    · exact absurd below (not_le.mpr keys)

/-- Files with the same well-formed `N` lines, however distributed and ordered and
whatever lines are in between, are read without error and lead to the same keys
in the same order, the same texts of the queries and the same changesets. -/
theorem readLogs_perm (files files' : List Text) (same : (files.flatMap nLines).Perm (files'.flatMap nLines))
    (wellFormed : ∀ line ∈ files.flatMap nLines, WellFormed line) :
    ∃ content content', files.foldlM readLog {} = .ok content ∧ files'.foldlM readLog {} = .ok content' ∧
      (∀ type sorted sorted', Sorted (content.objects.ofType type) sorted →
        Sorted (content'.objects.ofType type) sorted' →
        sorted.map Osmobj.key = sorted'.map Osmobj.key ∧ wantedText sorted = wantedText sorted') ∧
      (∀ type, wanted (content.objects.sort.ofType type) = wanted (content'.objects.sort.ofType type)) ∧
      ∀ cid, cid ∈ content.cucache.map Prod.fst ↔ cid ∈ content'.cucache.map Prod.fst := by
  have wellFormed' : ∀ line ∈ files'.flatMap nLines, WellFormed line :=
    fun line member => wellFormed line (same.mem_iff.mpr member)
  have entries := same.filterMap lineEntry
  have ofType (type : ItemType) (entries : List Osmobj) :
      (entries.foldl LogContent.add {}).objects.ofType type = entries.filter (fun obj => obj.type = type) := by
    rw [ofType_foldl_add]
    cases type <;> rfl
  have own (type : ItemType) (entries : List Osmobj) :
      ∀ obj ∈ (entries.foldl LogContent.add {}).objects.ofType type, obj.type = type := by
    intro obj member
    rw [ofType] at member
    simpa using (List.mem_filter.mp member).2
  have perm (type : ItemType) : ((((files.flatMap nLines).filterMap lineEntry).foldl LogContent.add
    {}).objects.ofType type).Perm
      ((((files'.flatMap nLines).filterMap lineEntry).foldl LogContent.add {}).objects.ofType type) := by
    rw [ofType, ofType]
    exact entries.filter _
  refine ⟨_, _, by rw [readLogs_eq, readEntries_nLines wellFormed]; rfl,
    by rw [readLogs_eq, readEntries_nLines wellFormed']; rfl, ?_, ?_, ?_⟩
  · intro type sorted sorted' first second
    have keys := first.map_key (own type _) second (perm type)
    exact ⟨keys, wantedText_keys keys⟩
  · intro type
    have keys := (sortObjs_sorted (own type _)).map_key (own type _) (sortObjs_sorted (own type _)) (perm type)
    cases type <;> exact keys
  · intro cid
    rw [keys_foldl_add, keys_foldl_add]
    simp only [entries.mem_iff]

theorem readLogs_perm_two :
    ∃ content content', ["0/1 5 N n1 v1 c7\n0/1 5 N n1 v1 c8\n0/1 5 C\n".toList].foldlM readLog {} = .ok content ∧
      ["0/1 5 N n1 v1 c8\n".toList, "# more\n0/1 5 N n1 v1 c7".toList].foldlM readLog {} = .ok content' ∧
      (∀ type sorted sorted', Sorted (content.objects.ofType type) sorted →
        Sorted (content'.objects.ofType type) sorted' →
        sorted.map Osmobj.key = sorted'.map Osmobj.key ∧ wantedText sorted = wantedText sorted') ∧
      (∀ type, wanted (content.objects.sort.ofType type) = wanted (content'.objects.sort.ofType type)) ∧
      ∀ cid, cid ∈ content.cucache.map Prod.fst ↔ cid ∈ content'.cucache.map Prod.fst :=
  readLogs_perm _ _ (by decide) (by
    intro line member
    have lines : line = "0/1 5 N n1 v1 c7".toList ∨ line = "0/1 5 N n1 v1 c8".toList := by
      revert member
      exact (by decide : ∀ line ∈ ["0/1 5 N n1 v1 c7\n0/1 5 N n1 v1 c8\n0/1 5 C\n".toList].flatMap nLines,
        line = "0/1 5 N n1 v1 c7".toList ∨ line = "0/1 5 N n1 v1 c8".toList) line
    rcases lines with rfl | rfl
    · exact ⟨⟨.node, 1, 1, 7⟩, by decide⟩
    · exact ⟨⟨.node, 1, 1, 8⟩, by decide⟩)

end Osmdbt
