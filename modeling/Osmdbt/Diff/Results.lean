import Osmdbt.Diff.Phases
import Osmdbt.Diff.Preparing
import Mathlib.Order.Bounds.Basic

/-! What the phases of create-diff leave behind when they end normally: the log files
that were taken, the files in `tmp_dir`, and the timestamp of the new state. -/

namespace Osmdbt

open General

/-- The names given on the command line, or of all log files that are there. -/
structure Found (options : CreateDiffOptions) (w : World) (names : List Text) : Prop where
  given : options.logFileNames ≠ [] → names = options.logFileNames
  nodup : options.logFileNames = [] → names.Nodup
  logs : options.logFileNames = [] → ∀ name, name ∈ names ↔ isLog name = true ∧ (w.get ⟨.log, name⟩).isSome

/-- The first files of a list, up to the one that exceeds the limit. -/
structure Cut (limit : Nat) (block : List (Text × Text)) (rest : List Text) : Prop where
  before : ∃ entries, readEntries (block.dropLast.map Prod.snd) = .ok entries ∧ entries.length ≤ limit
  whole : ∃ entries, readEntries (block.map Prod.snd) = .ok entries ∧ (rest ≠ [] → limit < entries.length)

/-- The log files a run with these options takes. -/
structure Taking (options : CreateDiffOptions) (w : World) (block : List (Text × Text)) (rest : List Text) : Prop where
  order : ∃ names, Found options w names ∧ block.map Prod.fst ++ rest = names.insertionSort (· ≤ ·)
  present : Present w block
  cut : Cut options.maxChanges.toNat block rest
  nonempty : block ≠ []

section Reading

variable {config : Config} {options : CreateDiffOptions} {w w' : World}

theorem findLogFiles_ok {names : List Text} (ends : Ends (findLogFiles options) w (.ok names) w') :
    w' = w ∧ Found options w names := by
  unfold findLogFiles at ends
  split at ends
  · rename_i none
    have none : options.logFileNames = [] := List.isEmpty_iff.mp none
    obtain ⟨(all : List Text), w₁, listed, result⟩ := Program.ends_bind_ok.mp ends
    obtain ⟨nodup, complete, rfl⟩ := perform_ok.mp listed
    obtain ⟨same, rfl⟩ := result
    obtain rfl := Except.ok.inj same
    refine ⟨rfl, fun given => absurd none given, fun _ => nodup.filter _, fun _ name => ?_⟩
    rw [List.mem_filter, complete, and_comm]
  · rename_i given
    obtain ⟨same, rfl⟩ := ends
    obtain rfl := Except.ok.inj same
    have given : options.logFileNames ≠ [] := fun none => given (List.isEmpty_iff.mpr none)
    exact ⟨rfl, fun _ => rfl, fun none => absurd none given, fun none => absurd none given⟩

/-- One round of the loop: the file is read, and the loop goes on unless the limit is exceeded. -/
theorem readLogFiles_cons {content : LogContent} {sources : List (Text × Text)} {logFile : Text} {rest : List Text}
    {result : LogContent × List (Text × Text)} :
    Ends (readLogFiles config options content sources (logFile :: rest)) w (.ok result) w' ↔
      ∃ data entries, w.get ⟨.log, logFile⟩ = some (.text data) ∧ logEntries data = .ok entries ∧
        (options.maxChanges.toNat < content.objects.size + entries.length ∧
            result = (entries.foldl LogContent.add content, sources ++ [(logFile, data)]) ∧ w' = w ∨
          content.objects.size + entries.length ≤ options.maxChanges.toNat ∧
            Ends (readLogFiles config options (entries.foldl LogContent.add content)
              (sources ++ [(logFile, data)]) rest) w
              (.ok result) w') := by
  constructor
  · intro ends
    unfold readLogFiles at ends
    obtain ⟨(data : Text), w₁, readIt, later⟩ := Program.ends_bind_ok.mp ends
    obtain ⟨here, rfl⟩ := perform_ok.mp readIt
    obtain ⟨middle, w₂, lifted, ends⟩ := Program.ends_bind_ok.mp later
    obtain ⟨success, rfl⟩ := Program.ends_lift.mp lifted
    rw [readLog_eq] at success
    cases own : logEntries data with
    | error fault =>
      rw [own] at success
      cases success
    | ok entries =>
      rw [own] at success
      obtain rfl : middle = entries.foldl LogContent.add content := Except.ok.inj success
      refine ⟨data, entries, here, own, ?_⟩
      rw [← size_foldl content entries]
      split at ends
      · rename_i exceeded
        obtain ⟨same, rfl⟩ := ends
        exact .inl ⟨exceeded, Except.ok.inj same, rfl⟩
      · rename_i below
        exact .inr ⟨not_lt.mp below, ends⟩
  · rintro ⟨data, entries, here, own, round⟩
    have opened : Ends (perform (.readFile ⟨.log, logFile⟩)
        ("Could not open log file '".toList ++ (Path.mk .log logFile).text config ++ "'".toList)) w (.ok data) w :=
      perform_ok.mpr ⟨here, rfl⟩
    have lifted : Ends (Program.lift (readLog content data)) w (.ok (entries.foldl LogContent.add content)) w := by
      refine Program.ends_lift.mpr ⟨?_, rfl⟩
      rw [readLog_eq, own]
      rfl
    refine Program.ends_bind_ok.mpr ⟨data, w, opened, Program.ends_bind_ok.mpr ⟨_, w, lifted, ?_⟩⟩
    rw [← size_foldl content entries] at round
    obtain ⟨exceeded, rfl, rfl⟩ | ⟨below, ends⟩ := round
    · rw [if_pos exceeded]
      exact ⟨rfl, rfl⟩
    · rwa [if_neg (not_lt.mpr below)]

/-- The loop over the log files, with what the variables held before. -/
theorem readLogFiles_ok {content content' : LogContent} {sources sources' : List (Text × Text)} {names : List Text}
    (fits : content.objects.size ≤ options.maxChanges.toNat)
    (ends : Ends (readLogFiles config options content sources names) w (.ok (content', sources')) w') :
    w' = w ∧ ∃ block rest entries few, names = block.map Prod.fst ++ rest ∧ sources' = sources ++ block ∧
      Present w block ∧ readEntries (block.map Prod.snd) = .ok entries ∧
        content' = entries.foldl LogContent.add content ∧
      readEntries (block.dropLast.map Prod.snd) = .ok few ∧
        content.objects.size + few.length ≤ options.maxChanges.toNat ∧
      (rest ≠ [] → options.maxChanges.toNat < content.objects.size + entries.length) ∧ (names ≠ [] → block ≠ []) := by
  induction names generalizing content sources with
  | nil =>
    obtain ⟨same, rfl⟩ := ends
    obtain ⟨rfl, rfl⟩ := Prod.mk.inj (Except.ok.inj same)
    exact ⟨rfl, [], [], [], [], rfl, (List.append_nil _).symm, fun _ none => absurd none List.not_mem_nil,
      rfl, rfl, rfl,
      fits, fun wrong => absurd rfl wrong, fun wrong => absurd rfl wrong⟩
  | cons logFile rest ih =>
    obtain ⟨data, entries, here, own, ⟨exceeded, same, rfl⟩ | ⟨below, ends⟩⟩ := readLogFiles_cons.mp ends
    · obtain ⟨rfl, rfl⟩ := Prod.mk.inj same
      have single : Present w' [(logFile, data)] := by
        intro source member
        obtain rfl := List.mem_singleton.mp member
        exact here
      exact ⟨rfl, [(logFile, data)], rest, entries, [], rfl, rfl, single, (readEntries_single data).trans own,
        rfl, rfl, fits,
        fun _ => exceeded, fun _ => by simp⟩
    · have size := size_foldl content entries
      obtain ⟨rfl, block, more, entries', few, names, sources, present, readAll, rfl, readFew, cut, whole, some⟩ :=
        ih (size.trans_le below) ends
      refine ⟨rfl, (logFile, data) :: block, more, entries ++ entries', ?_⟩
      have all : readEntries (((logFile, data) :: block).map Prod.snd) = .ok (entries ++ entries') := by
        rw [List.map_cons, readEntries_cons, own, readAll]
        rfl
      have together : (entries ++ entries').foldl LogContent.add content =
          entries'.foldl LogContent.add (entries.foldl LogContent.add content) := List.foldl_append
      refine ⟨if block = [] then [] else entries ++ few, by rw [names]; rfl, by rw [sources]; simp,
        fun source member => ?_, all, together.symm, ?_, ?_, fun left => ?_, fun _ => by simp⟩
      · rcases List.mem_cons.mp member with rfl | inside
        · exact here
        · exact present source inside
      · split
        · rename_i empty
          rw [empty]
          rfl
        · rename_i notEmpty
          rw [List.dropLast_cons_of_ne_nil notEmpty, List.map_cons, readEntries_cons, own, readFew]
          rfl
      · split
        · exact fits
        · rw [List.length_append]
          omega
      · have more := whole left
        rw [List.length_append]
        omega

end Reading

/-- A row of a wanted object version with a timestamp, whether it is redacted or not. -/
def Dated (db : Database) (entries : List Osmobj) : Prop :=
  ∃ obj ∈ entries, ∃ row ∈ db.objectRows obj.type, row.key = obj.key ∧ row.timestamp ≠ 0

def DiffObjects.timestamps (objects : DiffObjects) : List Nat :=
  objects.nodes.map (fun node => node.attributes.timestamp.toNat) ++
    objects.ways.map (fun way => way.attributes.timestamp.toNat) ++
      objects.relations.map (fun relation => relation.attributes.timestamp.toNat)

/-- A row of a wanted object version, whether it is redacted or not. -/
def WantedRow (db : Database) (entries : List Osmobj) (row : ObjectRow) : Prop :=
  ∃ obj ∈ entries, row ∈ db.objectRows obj.type ∧ row.key = obj.key

private theorem raiseTimestamp_toNat (ts : Timestamp) (row : ObjectRow) :
    (raiseTimestamp ts row).toNat = max ts.toNat row.timestamp.toNat := by
  unfold raiseTimestamp
  split
  · rename_i less
    have := UInt32.lt_iff_toNat_lt.mp less
    omega
  · rename_i notLess
    have := mt UInt32.lt_iff_toNat_lt.mpr notLess
    omega

private theorem foldl_raise_le {ρ : Type} (common : ρ → ObjectRow) (rows : List ρ) (ts : Timestamp) (bound : Nat) :
    (rows.foldl (fun raised row => raiseTimestamp raised (common row)) ts).toNat ≤ bound ↔
      ts.toNat ≤ bound ∧ ∀ row ∈ rows, (common row).timestamp.toNat ≤ bound := by
  induction rows generalizing ts with
  | nil => simp
  | cons row rest ih => rw [List.foldl_cons, ih, raiseTimestamp_toNat, max_le_iff, List.forall_mem_cons, and_assoc]

section Timestamps

variable {ρ ι χ ω : Type} {common : ρ → ObjectRow} {attach : ι → Int64 → UInt32 → ι × χ}
  {build : ρ → Attributes → χ → ω} {cucache : ChangesetUserLookup} {asked : List Key} {table result : List ρ}

private theorem processObjects_timestamps {time : ω → Timestamp}
    (built : ∀ row attributes children, time (build row attributes children) = attributes.timestamp)
    {it : ι} {ts : Timestamp} {written : List ω × Timestamp}
    (success : processObjects common attach build cucache it result ts = .ok written) :
    written.1.map time = (live common result).map (fun row => (common row).timestamp) ∧
      written.2 = result.foldl (fun raised row => raiseTimestamp raised (common row)) ts := by
  induction result generalizing it ts written with
  | nil =>
    obtain rfl := Except.ok.inj success
    exact ⟨rfl, rfl⟩
  | cons row rest ih =>
    cases kept : (common row).redactionId.isSome with
    | true =>
      have dropped : live common (row :: rest) = live common rest := by
        simp [live, Option.isNone_eq_false_iff.mpr kept]
      rw [processObjects_skip kept] at success
      rw [dropped, List.foldl_cons]
      exact ih success
    | false =>
      have stays : live common (row :: rest) = row :: live common rest := by
        simp [live, Option.isSome_eq_false_iff.mp kept]
      rw [processObjects_keep kept] at success
      cases attributed : setAttributes cucache (common row) with
      | error fault =>
        rw [attributed] at success
        cases success
      | ok attributes =>
        cases later : processObjects common attach build cucache
          (attach it (common row).id (common row).version).1 rest
            (raiseTimestamp ts (common row)) with
        | error fault =>
          rw [attributed, later] at success
          cases success
        | ok more =>
          rw [attributed, later] at success
          obtain rfl := Except.ok.inj success
          obtain ⟨tail, last⟩ := ih later
          refine ⟨?_, last⟩
          rw [stays, List.map_cons, List.map_cons, built, tail, (setAttributes_hasAttributes attributed).timestamp]

/-- One type: the objects written are those of the wanted rows that are not redacted; the
last timestamp is the largest of the one before and those of all wanted rows. -/
structure Adds (rows : List ObjectRow) (asked : List Key) (ts : Timestamp) (timestamps : List Nat)
    (last : Timestamp) : Prop where
  written : ∀ t, t ∈ timestamps ↔ ∃ row ∈ rows, row.key ∈ asked ∧ row.redactionId = none ∧ row.timestamp.toNat = t
  last : ∀ bound, last.toNat ≤ bound ↔ ts.toNat ≤ bound ∧ ∀ row ∈ rows, row.key ∈ asked → row.timestamp.toNat ≤ bound

variable (common) in
/-- The loop raises the timestamp by every row of the answer, the skipped ones included. -/
theorem processObjects_adds (time : ω → Timestamp) (answer : Answer (fun a b => objectOrder (common a) (common b))
      (innerJoin asked (fun row => (common row).key) table) result)
    (built : ∀ row attributes children, time (build row attributes children) = attributes.timestamp)
    {it : ι} {ts : Timestamp} {written : List ω × Timestamp}
    (success : processObjects common attach build cucache it result ts = .ok written) :
    Adds (table.map common) asked ts (written.1.map (fun object => (time object).toNat)) written.2 := by
  obtain ⟨times, last⟩ := processObjects_timestamps built success
  constructor
  · intro t
    have numbers : written.1.map (fun object => (time object).toNat) =
        (live common result).map (fun row => (common row).timestamp.toNat) := by
      have both := congrArg (List.map UInt32.toNat) times
      rwa [List.map_map, List.map_map] at both
    simp only [numbers, List.mem_map, mem_live answer, exists_exists_and_eq_and, and_assoc]
  · intro bound
    rw [last, foldl_raise_le]
    simp only [answer.complete.mem_iff, mem_innerJoin, List.forall_mem_map, and_imp]

end Timestamps

section Types

variable {cucache : ChangesetUserLookup} {objs : List Osmobj} {ts : Timestamp} {w w' : World}

theorem queryNodes_adds {written : List OsmNode × Timestamp}
    (ends : Ends (queryNodes databaseQueries cucache objs ts) w (.ok written) w') :
    w' = w ∧ Adds (w.tables.objectRows .node) (wanted objs) ts
      (written.1.map (fun node => node.attributes.timestamp.toNat)) written.2 := by
  obtain ⟨tags, w₁, askedTags, later⟩ := Program.ends_bind_ok.mp ends
  obtain ⟨_, rfl⟩ := perform_ok.mp askedTags
  obtain ⟨result, w₂, askedNodes, last⟩ := Program.ends_bind_ok.mp later
  obtain ⟨answer, rfl⟩ := perform_ok.mp askedNodes
  obtain ⟨success, rfl⟩ := Program.ends_lift.mp last
  exact ⟨rfl, processObjects_adds NodeRow.toObjectRow (fun node : OsmNode => node.attributes.timestamp)
    answer (fun _ _ _ => rfl) success.symm⟩

theorem queryWays_adds {written : List OsmWay × Timestamp}
    (ends : Ends (queryWays databaseQueries cucache objs ts) w (.ok written) w') :
    w' = w ∧ Adds (w.tables.objectRows .way) (wanted objs) ts
      (written.1.map (fun way => way.attributes.timestamp.toNat)) written.2 := by
  obtain ⟨tags, w₁, askedTags, later⟩ := Program.ends_bind_ok.mp ends
  obtain ⟨_, rfl⟩ := perform_ok.mp askedTags
  obtain ⟨nodes, w₂, askedNodes, later'⟩ := Program.ends_bind_ok.mp later
  obtain ⟨_, rfl⟩ := perform_ok.mp askedNodes
  obtain ⟨result, w₃, askedWays, last⟩ := Program.ends_bind_ok.mp later'
  obtain ⟨answer, rfl⟩ := perform_ok.mp askedWays
  obtain ⟨success, rfl⟩ := Program.ends_lift.mp last
  have adds := processObjects_adds id (fun way : OsmWay => way.attributes.timestamp)
    answer (fun _ _ _ => rfl) success.symm
  rw [List.map_id] at adds
  exact ⟨rfl, adds⟩

private theorem queryRelations_adds {written : List OsmRelation × Timestamp}
    (ends : Ends (queryRelations databaseQueries cucache objs ts) w (.ok written) w') :
    w' = w ∧ Adds (w.tables.objectRows .relation) (wanted objs) ts
      (written.1.map (fun relation => relation.attributes.timestamp.toNat)) written.2 := by
  obtain ⟨tags, w₁, askedTags, later⟩ := Program.ends_bind_ok.mp ends
  obtain ⟨_, rfl⟩ := perform_ok.mp askedTags
  obtain ⟨members, w₂, askedMembers, later'⟩ := Program.ends_bind_ok.mp later
  obtain ⟨_, rfl⟩ := perform_ok.mp askedMembers
  obtain ⟨result, w₃, askedRelations, last⟩ := Program.ends_bind_ok.mp later'
  obtain ⟨answer, rfl⟩ := perform_ok.mp askedRelations
  obtain ⟨success, rfl⟩ := Program.ends_lift.mp last
  have adds := processObjects_adds id (fun relation : OsmRelation => relation.attributes.timestamp)
    answer (fun _ _ _ => rfl) success.symm
  rw [List.map_id] at adds
  exact ⟨rfl, adds⟩

theorem unlessEmpty_adds {ω : Type} {time : ω → Nat} {rows : List ObjectRow} {process : Prog (List ω × Timestamp)}
    {written : List ω × Timestamp}
    (ends : Ends (unlessEmpty objs ts process) w (.ok written) w')
    (run : Ends process w (.ok written) w' → w' = w ∧ Adds rows (wanted objs) ts (written.1.map time) written.2) :
    w' = w ∧ Adds rows (wanted objs) ts (written.1.map time) written.2 := by
  unfold unlessEmpty at ends
  split at ends
  · rename_i empty
    obtain ⟨same, rfl⟩ := ends
    obtain rfl := Except.ok.inj same
    refine ⟨rfl, ?_⟩
    constructor <;> simp [wanted, List.isEmpty_iff.mp empty]
  · exact run ends

/-- The three types together. -/
theorem processTypes_adds {objects : Osmobjects} {written : DiffObjects × Timestamp}
    (ends : Ends (processTypes databaseQueries cucache objects) w (.ok written) w') :
    w' = w ∧ (∀ t, t ∈ written.1.timestamps ↔ ∃ type, ∃ row ∈ w.tables.objectRows type,
        row.key ∈ wanted (objects.ofType type) ∧ row.redactionId = none ∧ row.timestamp.toNat = t) ∧
      ∀ bound, written.2.toNat ≤ bound ↔ ∀ type, ∀ row ∈ w.tables.objectRows type,
        row.key ∈ wanted (objects.ofType type) → row.timestamp.toNat ≤ bound := by
  obtain ⟨nodes, w₁, first, later⟩ := Program.ends_bind_ok.mp ends
  obtain ⟨rfl, nodesAdd⟩ := unlessEmpty_adds first queryNodes_adds
  obtain ⟨ways, w₂, second, later'⟩ := Program.ends_bind_ok.mp later
  obtain ⟨rfl, waysAdd⟩ := unlessEmpty_adds second queryWays_adds
  obtain ⟨relations, w₃, third, last⟩ := Program.ends_bind_ok.mp later'
  obtain ⟨rfl, relationsAdd⟩ := unlessEmpty_adds third queryRelations_adds
  obtain ⟨same, rfl⟩ := last
  obtain rfl := Except.ok.inj same
  refine ⟨rfl, fun t => ?_, fun bound => ?_⟩
  · rw [ItemType.exists_iff, DiffObjects.timestamps, List.mem_append, List.mem_append, nodesAdd.written,
      waysAdd.written, relationsAdd.written]
    rfl
  · rw [ItemType.forall_iff, relationsAdd.last, waysAdd.last, nodesAdd.last]
    simp [Osmobjects.ofType, and_assoc]

theorem mem_wanted_sorted {entries : List Osmobj} (type : ItemType) (k : Key) :
    k ∈ wanted ((entries.foldl LogContent.add {}).objects.sort.ofType type) ↔ ∃ obj ∈ entries,
      obj.type = type ∧ obj.key = k := by
  have sorted : ((entries.foldl LogContent.add {}).objects.sort.ofType type).Perm
      ((entries.foldl LogContent.add {}).objects.ofType type) := by
    cases type <;> exact List.perm_insertionSort _ _
  have members := ofType_foldl_add {} entries type
  rw [wanted, List.mem_map]
  simp only [sorted.mem_iff, members]
  cases type <;> simp [Osmobjects.ofType, and_assoc]

theorem wantedRow_iff {db : Database} {entries : List Osmobj} {row : ObjectRow} : WantedRow db entries row ↔
    ∃ type, row ∈ db.objectRows type ∧
      row.key ∈ wanted ((entries.foldl LogContent.add {}).objects.sort.ofType type) := by
  simp only [mem_wanted_sorted, WantedRow]
  constructor
  · rintro ⟨obj, inside, member, same⟩
    exact ⟨obj.type, member, obj, inside, rfl, same.symm⟩
  · rintro ⟨type, member, obj, inside, rfl, same⟩
    exact ⟨obj, inside, member, same.symm⟩

/-- The objects written are those of the wanted rows that are not redacted; the last
timestamp is the largest of all wanted rows. -/
theorem processTypes_wanted {entries : List Osmobj} {written : DiffObjects × Timestamp}
    (ends : Ends (processTypes databaseQueries cucache (entries.foldl LogContent.add {}).objects.sort)
      w (.ok written) w') :
    (∀ t, t ∈ written.1.timestamps ↔ ∃ row, WantedRow w.tables.toDatabase entries row ∧
      row.redactionId = none ∧ row.timestamp.toNat = t) ∧
      IsLUB {t | ∃ row, WantedRow w.tables.toDatabase entries row ∧ row.timestamp.toNat = t} written.2.toNat := by
  obtain ⟨_, times, last⟩ := processTypes_adds ends
  constructor
  · intro t
    rw [times]
    simp only [wantedRow_iff]
    constructor
    · rintro ⟨type, row, member, asked, rest⟩
      exact ⟨row, ⟨type, member, asked⟩, rest⟩
    · rintro ⟨row, ⟨type, member, asked⟩, rest⟩
      exact ⟨type, row, member, asked, rest⟩
  · rw [isLUB_iff_le_iff]
    intro bound
    rw [last]
    constructor
    · rintro every _ ⟨row, here, rfl⟩
      obtain ⟨type, member, asked⟩ := wantedRow_iff.mp here
      exact every type row member asked
    · intro upper type row member asked
      exact upper ⟨row, wantedRow_iff.mpr ⟨type, member, asked⟩, rfl⟩

private theorem dated_iff {db : Database} {entries : List Osmobj} : Dated db entries ↔ ∃ row,
    WantedRow db entries row ∧ row.timestamp ≠ 0 := by
  constructor
  · rintro ⟨obj, inside, row, member, same, dated⟩
    exact ⟨row, ⟨obj, inside, member, same⟩, dated⟩
  · rintro ⟨row, ⟨obj, inside, member, same⟩, dated⟩
    exact ⟨obj, inside, row, member, same, dated⟩

theorem processTypes_dated {entries : List Osmobj} {written : DiffObjects × Timestamp}
    (ends : Ends (processTypes databaseQueries cucache (entries.foldl LogContent.add {}).objects.sort)
      w (.ok written) w') :
    w' = w ∧ (written.2 ≠ 0 ↔ Dated w.tables.toDatabase entries) := by
  refine ⟨(processTypes_adds ends).1, ?_⟩
  have zero (ts : Timestamp) : ts ≠ 0 ↔ ¬ ts.toNat ≤ 0 := by
    rw [Nat.le_zero, ne_eq, ← UInt32.toNat_inj]
    rfl
  have last := isLUB_iff_le_iff.mp (processTypes_wanted ends).2 0
  rw [zero, last, dated_iff]
  simp only [zero]
  constructor
  · intro above
    by_contra none
    exact above (by rintro _ ⟨row, here, rfl⟩; by_contra positive; exact none ⟨row, here, positive⟩)
  · rintro ⟨row, here, positive⟩ upper
    exact positive (upper ⟨row, here, rfl⟩)

end Types

section Files

variable {config : Config} {options : CreateDiffOptions} {w w' : World}

theorem getState_ok {timestamp : Timestamp} {state : State}
    (ends : Ends (getState config options timestamp) w (.ok state) w') :
    Same w w' ∧ state.timestamp = timestamp ∧ (options.initState ≠ 0 → state.sequenceNumber = options.initState) ∧
      (options.initState = 0 → Follows config w state) := by
  refine ⟨ends_untouched (getState_uses timestamp) ends, ?_⟩
  unfold getState at ends
  split at ends
  · rename_i given
    obtain ⟨same, rfl⟩ := ends
    obtain rfl := Except.ok.inj same
    exact ⟨rfl, fun _ => rfl, fun zero => absurd zero given⟩
  · rename_i zero
    obtain ⟨_, w₁, required, later⟩ := Program.ends_bind_ok.mp ends
    have same : Same w w₁ := ends_untouched requireStateFile_uses required
    obtain ⟨(data : Text), w₂, readIt, later'⟩ := Program.ends_bind_ok.mp later
    obtain ⟨here, rfl⟩ := perform_ok.mp readIt
    obtain ⟨last, w₃, lifted, later''⟩ := Program.ends_bind_ok.mp later'
    obtain ⟨parsed, rfl⟩ := Program.ends_lift.mp lifted
    obtain ⟨_, w₄, asserted, result⟩ := Program.ends_bind_ok.mp later''
    obtain ⟨bound, _, rfl⟩ := Program.ends_assert.mp asserted
    obtain ⟨value, rfl⟩ := result
    obtain rfl := Except.ok.inj value
    refine ⟨rfl, fun given => absurd given zero, fun _ => ⟨data, last, ?_, parsed.symm, bound, rfl⟩⟩
    rw [← same.get _ not_false]
    exact here

theorem stateWrite_ok {path : Path} {state : State} {now : Timestamp}
    (ends : Ends (state.write config path now) w (.ok ()) w') :
    w.get path = none ∧ w'.get path = some (.text (state.toText now)) ∧ Untouched (· = path) w w' := by
  obtain ⟨reply, w₁, done, later⟩ := ends
  cases reply with
  | error code => cases later.1
  | ok _ =>
    obtain ⟨free, rfl⟩ := done
    obtain ⟨content, others⟩ := writeSynced_ok (World.get_put_self _ _ _) later
    exact ⟨free, content, (untouched_put _ _ _).trans others⟩

/-- What stands in `tmp_dir` before the lock file is created. -/
structure Written (config : Config) (options : CreateDiffOptions) (content : LogContent) (sources : List (Text × Text))
    (w : World) (state : State) (w' : World) : Prop where
  fresh : w.get newStateFile = none ∧ w.get newStateCopy = none
  change : ∃ objects, w'.get newChangeFile = some (.osc sources (some objects))
  states : ∃ now, w'.get newStateFile = some (.text (state.toText now)) ∧
    w'.get newStateCopy = some (.text (state.toText now))
  number : (options.initState ≠ 0 → state.sequenceNumber = options.initState) ∧
    (options.initState = 0 → Follows config w state)
  others : Untouched Made w w'
  objects : ∃ cucache objects w₁ w₂, w₁.tables = w.tables ∧
    Ends (processTypes databaseQueries cucache content.objects.sort) w₁ (.ok (objects, state.timestamp)) w₂

/-- The objects in the change file are those of the wanted object versions. -/
def ChangeOf (content : LogContent) (sources : List (Text × Text)) (w : World) (state : State) (w' : World) : Prop :=
  ∃ cucache objects w₁, w₁.tables = w.tables ∧
    Ends (processTypes databaseQueries cucache content.objects.sort) w₁ (.ok (objects, state.timestamp)) w₁ ∧
    w'.get newChangeFile = some (.osc sources (some objects))

theorem writeFiles_written {content : LogContent} {sources : List (Text × Text)} {state : State}
    (ends : Ends (writeFiles config options content sources) w (.ok state) w') :
    Written config options content sources w state w' ∧ ChangeOf content sources w state w' := by
  have others := ends_untouched (writeFiles_made content sources) ends
  obtain ⟨cucache, w₁, populated, later₁⟩ := Program.ends_bind_ok.mp ends
  have same₁ : Same w w₁ := ends_untouched (populate_uses _) populated
  obtain ⟨_, w₂, opened, later₂⟩ := Program.ends_bind_ok.mp later₁
  obtain rfl : w₂ = w₁.put newChangeFile (.osc [] none) := perform_ok.mp opened
  obtain ⟨⟨objects, last⟩, w₃, processed, later₃⟩ := Program.ends_bind_ok.mp later₂
  obtain ⟨rfl, _⟩ := processTypes_adds processed
  obtain ⟨_, w₄, committed, later₄⟩ := Program.ends_bind_ok.mp later₃
  obtain rfl : w₄ = _ := perform_ok.mp committed
  obtain ⟨_, w₅, closed, later₅⟩ := Program.ends_bind_ok.mp later₄
  obtain rfl : w₅ = _ := perform_ok.mp closed
  obtain ⟨next, w₆, made, later₆⟩ := Program.ends_bind_ok.mp later₅
  obtain ⟨same₂, rfl, number, follows⟩ := getState_ok made
  obtain ⟨now, w₇, clock, later₇⟩ := Program.ends_bind_ok.mp later₆
  have same₃ : Same w₆ w₇ := ends_untouched commentTime_uses clock
  obtain ⟨_, w₈, own, later₈⟩ := Program.ends_bind_ok.mp later₇
  obtain ⟨ownFree, ownText, ownOthers⟩ := stateWrite_ok own
  obtain ⟨_, w₉, copied, result⟩ := Program.ends_bind_ok.mp later₈
  obtain ⟨copyFree, copyText, copyOthers⟩ := stateWrite_ok copied
  obtain ⟨value, rfl⟩ := result
  obtain rfl := Except.ok.inj value
  -- outside of the change file nothing happened before the first state file
  have before (path : Path) (other : path ≠ newChangeFile) : w₇.get path = w.get path := by
    rw [same₃.get _ not_false, same₂.get _ not_false, World.get_put_ne _ _ _ other, World.get_put_ne _ _ _ other,
      same₁.get _ not_false]
  have change : w'.get newChangeFile = some (.osc sources (some objects)) := by
    rw [copyOthers.get _ (by decide), ownOthers.get _ (by decide), same₃.get _ not_false, same₂.get _ not_false,
      World.get_put_self]
  have tables : (w₁.put newChangeFile (.osc [] none)).tables = w.tables := same₁.tables
  refine ⟨⟨⟨?_, ?_⟩, ⟨objects, change⟩, ⟨now, ?_, copyText⟩, ⟨number, fun zero => ?_⟩, others,
    cucache, objects, _, _, tables, processed⟩, cucache, objects, _, tables, processed, change⟩
  · rw [← before newStateFile (by decide)]
    exact ownFree
  · rw [← before newStateCopy (by decide), ← ownOthers.get newStateCopy (by decide)]
    exact copyFree
  · rw [copyOthers.get _ (by decide)]
    exact ownText
  · obtain ⟨data, last, here, rest⟩ := follows zero
    refine ⟨data, last, ?_, rest⟩
    rwa [World.get_put_ne _ _ _ (by decide), World.get_put_ne _ _ _ (by decide), same₁.get _ not_false] at here

theorem writeFiles_ok {content : LogContent} {sources : List (Text × Text)} {state : State}
    (ends : Ends (writeFiles config options content sources) w (.ok state) w') :
    Written config options content sources w state w' := (writeFiles_written ends).1

end Files

end Osmdbt
