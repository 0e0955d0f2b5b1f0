import Osmdbt.Log.Writers
import Osmdbt.Log.Minutes

/-! fake-log writes what is missing from the given log files: the rows changed since
the start that have no entry there, each once. With the new files there is nothing
left to write. -/

namespace Osmdbt

open General

/-- The entry fake-log makes of a row. -/
def ObjectRow.entry (type : ItemType) (row : ObjectRow) : LogEntry :=
  ⟨row.minute, type, row.id, row.version, UInt32.ofInt row.changesetId.toInt⟩

/-- The number of the changeset fits the type of the program. -/
def ObjectRow.Fits (row : ObjectRow) : Prop := 0 ≤ row.changesetId.toInt ∧ row.changesetId.toInt < 2 ^ 32

/-- The times of which the program makes file names. -/
def ObjectRow.Timed (row : ObjectRow) : Prop := 60 ≤ row.timestamp.toNat ∧ row.timestamp.toNat < 2 ^ 31

namespace FakeLog

/-- A log file whose `N` lines can all be read. -/
def Readable (w : World) (log : Text) : Prop :=
  ∃ data, w.get (logPath log) = some (.text data) ∧ ∀ line ∈ nLines data, WellFormed line

/-- One of the log files has an `N` line for the object version. -/
def Logged (w : World) (logs : List Text) (type : ItemType) (pair : Key) : Prop :=
  ∃ log ∈ logs, ∃ data, w.get (logPath log) = some (.text data) ∧
    ∃ line ∈ nLines data, ∃ obj, readLine line = .ok (some obj) ∧ obj.type = type ∧ obj.key = pair

/-- A row changed since the start that no given log file has. -/
structure Missing (w : World) (options : FakeLogOptions) (type : ItemType) (row : ObjectRow) : Prop where
  stored : row ∈ w.tables.objectRows type
  since : options.timestamp ≤ row.timestamp
  unlogged : ¬ Logged w options.logFileNames type row.key

section Reading

variable {config : Config} {w w' : World}

theorem addEntries_ok {type : ItemType} {objectsDone : List Key} {entries entries' : List LogEntry}
    {rows : List ObjectRow} :
    addEntries type objectsDone entries (rows.map ObjectRow.change) = .ok entries' ↔
      (∀ row ∈ rows, row.key ∉ objectsDone → row.Fits) ∧
        entries' = entries ++ (rows.filter (fun row => row.key ∉ objectsDone)).map (ObjectRow.entry type) := by
  induction rows generalizing entries with
  | nil =>
    have nothing : addEntries type objectsDone entries [] = .ok entries := rfl
    simp [nothing, eq_comm]
  | cons row rest ih =>
    have head : addEntries type objectsDone entries ((row :: rest).map ObjectRow.change) =
        (if row.key ∈ objectsDone then .ok entries
          else do
            let cid ← asChangesetId row.changesetId
            return entries ++ [⟨row.minute, type, row.id, row.version, cid⟩]) >>=
          fun entries => addEntries type objectsDone entries (rest.map ObjectRow.change) := rfl
    by_cases done : row.key ∈ objectsDone
    · have skipped : (row :: rest).filter (fun row => row.key ∉ objectsDone) =
        rest.filter (fun row => row.key ∉ objectsDone) :=
        List.filter_cons_of_neg (by simpa using done)
      rw [head, if_pos done, skipped, List.forall_mem_cons]
      refine ih.trans (and_congr_left (fun _ => ?_))
      exact ⟨fun all => ⟨fun missing => absurd done missing, all⟩, And.right⟩
    · have kept : (row :: rest).filter (fun row => row.key ∉ objectsDone) = row :: rest.filter
        (fun row => row.key ∉ objectsDone) :=
        List.filter_cons_of_pos (by simpa using done)
      rw [head, if_neg done, kept, List.forall_mem_cons]
      by_cases fits : row.Fits
      · have converted : asChangesetId row.changesetId = .ok (UInt32.ofInt row.changesetId.toInt) := if_pos fits
        rw [converted]
        refine ih.trans ?_
        rw [List.map_cons, List.append_assoc]
        exact and_congr_left (fun _ => ⟨fun all => ⟨fun _ => fits, all⟩, And.right⟩)
      · have failed : asChangesetId row.changesetId = .error .conversionError := if_neg fits
        rw [failed]
        constructor
        · intro wrong
          cases wrong
        · rintro ⟨⟨wrong, _⟩, _⟩
          exact absurd (wrong done) fits

theorem toIso_eq {start timestamp : Timestamp} : toIso start = toIsoAll timestamp ↔ start ≠ 0 ∧ timestamp = start := by
  unfold toIso
  by_cases zero : start = 0
  · rw [if_pos zero]
    constructor
    · intro same
      have length := congrArg List.length same
      rw [length_toIsoAll] at length
      cases length
    · rintro ⟨positive, _⟩
      exact absurd zero positive
  · rw [if_neg zero]
    constructor
    · intro same
      have parsed := congrArg parseTimestamp same
      rw [parseTimestamp_toIsoAll, parseTimestamp_toIsoAll] at parsed
      exact ⟨zero, (Except.ok.inj parsed).symm⟩
    · rintro ⟨_, rfl⟩
      rfl

/-- The rows `read_objects` adds to the entries. -/
theorem readObjects_ok {entries entries' : List LogEntry} {start : Timestamp} {type : ItemType}
    {objectsDone : List Key} :
    Ends (readObjects entries start type objectsDone) w (.ok entries') w' ↔ w' = w ∧ start ≠ 0 ∧
      (∀ row ∈ changesSince w.tables.toDatabase type start, row.timestamp.toNat < 2 ^ 31) ∧
      ∃ rows, Answer changeOrder (changesSince w.tables.toDatabase type start) rows ∧
        (∀ row ∈ rows, row.key ∉ objectsDone → row.Fits) ∧
        entries' = entries ++ (rows.filter (fun row => row.key ∉ objectsDone)).map (ObjectRow.entry type) := by
  constructor
  · intro ends
    obtain ⟨(result : List ChangeRow), w₁, asked, lifted⟩ := Program.ends_bind_ok.mp ends
    obtain ⟨⟨timestamp, rows, same, small, answer, rfl⟩, rfl⟩ := perform_ok.mp asked
    obtain ⟨added, rfl⟩ := Program.ends_lift.mp lifted
    obtain ⟨positive, rfl⟩ := toIso_eq.mp same
    exact ⟨rfl, positive, small, rows, answer, addEntries_ok.mp added.symm⟩
  · rintro ⟨rfl, positive, small, rows, answer, added⟩
    have asked : Ends (askDatabase (.changes type (toIso start))) w' (.ok (rows.map ObjectRow.change)) w' :=
      perform_ok.mpr ⟨⟨start, rows, toIso_eq.mpr ⟨positive, rfl⟩, small, answer, rfl⟩, rfl⟩
    exact Program.ends_bind_ok.mpr ⟨_, w', asked, Program.ends_lift.mpr ⟨(addEntries_ok.mpr added).symm, rfl⟩⟩

private theorem mem_emplaceAll {objectsDone : ObjectsDone} {entries : List Osmobj} {type : ItemType} {pair : Key} :
    pair ∈ ObjectsDone.emplaceAll objectsDone (entries.foldl LogContent.add {}).objects type ↔
      pair ∈ objectsDone type ∨ ∃ obj ∈ entries, obj.type = type ∧ obj.key = pair := by
  have own : (entries.foldl LogContent.add {}).objects.ofType type = entries.filter (fun obj => obj.type = type) := by
    rw [ofType_foldl_add]
    cases type <;> rfl
  simp only [ObjectsDone.emplaceAll, own, List.mem_append, List.mem_map, List.mem_filter, decide_eq_true_eq, and_assoc]

theorem mem_nLines_entries {data : Text} {obj : Osmobj} : obj ∈ (nLines data).filterMap lineEntry ↔
    ∃ line ∈ nLines data, readLine line = .ok (some obj) := by
  have same (line : Text) : lineEntry line = some obj ↔ readLine line = .ok (some obj) := by
    unfold lineEntry
    cases readLine line with
    | error fault => simp [Except.toOption]
    | ok entry => simp [Except.toOption]
  simp only [List.mem_filterMap, same]

/-- The object versions in the given log files; the files are only read. -/
theorem readLogFiles_ok {objectsDone objectsDone' : ObjectsDone} {logs : List Text}
    (readable : ∀ log ∈ logs, Readable w log)
    (ends : Ends (readLogFiles config objectsDone logs) w (.ok objectsDone') w') :
    w' = w ∧ ∀ type pair, pair ∈ objectsDone' type ↔ pair ∈ objectsDone type ∨ Logged w logs type pair := by
  induction logs generalizing objectsDone with
  | nil =>
    obtain ⟨same, rfl⟩ := ends
    obtain rfl := Except.ok.inj same
    refine ⟨rfl, fun type pair => ⟨.inl, ?_⟩⟩
    rintro (here | ⟨_, wrong, _⟩)
    · exact here
    · cases wrong
  | cons log rest ih =>
    obtain ⟨data, stored, wellFormed⟩ := readable log List.mem_cons_self
    obtain ⟨(read : Text), w₁, readIt, later⟩ := Program.ends_bind_ok.mp ends
    obtain ⟨here, rfl⟩ := perform_ok.mp readIt
    obtain rfl : data = read := by simpa [stored] using here
    obtain ⟨content, w₂, lifted, later⟩ := Program.ends_bind_ok.mp later
    obtain ⟨success, rfl⟩ := Program.ends_lift.mp lifted
    rw [readLog_eq, logEntries_nLines wellFormed] at success
    obtain rfl := Except.ok.inj success
    obtain ⟨rfl, collected⟩ := ih (fun other member => readable other (List.mem_cons_of_mem _ member)) later
    refine ⟨rfl, fun type pair => ?_⟩
    rw [collected, mem_emplaceAll, or_assoc]
    refine or_congr_right ⟨?_, ?_⟩
    · rintro (⟨obj, member, own⟩ | ⟨other, member, found⟩)
      · obtain ⟨line, inside, entry⟩ := mem_nLines_entries.mp member
        exact ⟨log, List.mem_cons_self, data, here, line, inside, obj, entry, own⟩
      · exact ⟨other, List.mem_cons_of_mem _ member, found⟩
    · rintro ⟨other, member, data', stored', line, inside, obj, entry, own⟩
      rcases List.mem_cons.mp member with rfl | member
      · obtain rfl : data = data' := by simpa [here] using stored'
        exact .inl ⟨obj, mem_nLines_entries.mpr ⟨line, inside, entry⟩, own⟩
      · exact .inr ⟨other, member, data', stored', line, inside, obj, entry, own⟩

private theorem readLogFiles_does {logs : List Text} (readable : ∀ log ∈ logs, Readable w log)
    (objectsDone : ObjectsDone) :
    ∃ objectsDone', Ends (readLogFiles config objectsDone logs) w (.ok objectsDone') w := by
  induction logs generalizing objectsDone with
  | nil => exact ⟨objectsDone, rfl, rfl⟩
  | cons log rest ih =>
    obtain ⟨data, stored, wellFormed⟩ := readable log List.mem_cons_self
    have read : readLog {} data = .ok (((nLines data).filterMap lineEntry).foldl LogContent.add {}) := by
      rw [readLog_eq, logEntries_nLines wellFormed]
      rfl
    obtain ⟨objectsDone', later⟩ := ih (fun other member => readable other (List.mem_cons_of_mem _ member)) _
    exact ⟨objectsDone', Program.ends_bind_ok.mpr ⟨data, w, perform_ok.mpr ⟨stored, rfl⟩,
      Program.ends_bind_ok.mpr ⟨_, w, Program.ends_lift.mpr ⟨read.symm, rfl⟩, later⟩⟩⟩

end Reading

/-- The part of `app` that reads. -/
def collect (config : Config) (options : FakeLogOptions) : Prog (List LogEntry) := do
  let objectsDone ← readLogFiles config (fun _ => []) options.logFileNames
  connect
  let _ ← getDbVersion
  let entries ← readObjects [] options.timestamp .node (objectsDone .node)
  let entries ← readObjects entries options.timestamp .way (objectsDone .way)
  let entries ← readObjects entries options.timestamp .relation (objectsDone .relation)
  commitTransaction
  return entries

/-- The part of `app` that writes. -/
def report (config : Config) (entries : List LogEntry) : Prog Bool :=
  if entries.isEmpty then return false
  else do
    writeLogs config 0 [] [] (sortEntries entries)
    return true

theorem fakeLog_eq (config : Config) (options : FakeLogOptions) :
    fakeLog config options = pidFile config logPidName (collect config options >>= report config) := by
  simp only [fakeLog, collect, bind_assoc, pure_bind]
  rfl

/-- What the entries have to be: those of the missing rows. -/
structure Collected (w : World) (options : FakeLogOptions) (entries : List LogEntry) : Prop where
  exact : ∀ entry, entry ∈ entries ↔ ∃ row, Missing w options entry.type row ∧ row.entry entry.type = entry
  once : (entries.map (fun entry => (entry.type, entry.obj.key))).Nodup
  fits : ∀ type row, Missing w options type row → row.Fits
  start : options.timestamp ≠ 0

section Collecting

variable {config : Config} {options : FakeLogOptions} {w w' : World}

private theorem getDbVersion_ok {version : Text} (ends : Ends getDbVersion w (.ok version) w') : w' = w := by
  obtain ⟨(result : List Text), w₁, asked, rest⟩ := Program.ends_bind_ok.mp ends
  obtain ⟨_, rfl⟩ := perform_ok.mp asked
  split at rest
  · split at rest
    · exact rest.2
    · cases rest.1
  · cases rest.1

private theorem getDbVersion_does (w : World) : ∃ version, Ends getDbVersion w (.ok version) w := by
  have asked : Ends (askDatabase .version) w (.ok ["PostgreSQL 14".toList]) w := perform_ok.mpr ⟨trivial, rfl⟩
  exact ⟨"PostgreSQL 14".toList, Program.ends_bind_ok.mpr ⟨_, w, asked, rfl, rfl⟩⟩

/-- The rows of one type, in the order of an answer, without those that are done. -/
theorem mem_new {rows : List ObjectRow} {type : ItemType} {done : List Key}
    (answer : Answer changeOrder (changesSince w.tables.toDatabase type options.timestamp) rows)
    (logged : ∀ pair, pair ∈ done ↔ Logged w options.logFileNames type pair) {row : ObjectRow} :
    row ∈ rows.filter (fun row => row.key ∉ done) ↔ Missing w options type row := by
  rw [List.mem_filter, answer.complete.mem_iff, changesSince, List.mem_filter, decide_eq_true_eq,
    decide_eq_true_eq, logged]
  exact ⟨fun ⟨⟨stored, since⟩, unlogged⟩ => ⟨stored, since, unlogged⟩,
    fun missing => ⟨⟨missing.stored, missing.since⟩, missing.unlogged⟩⟩

private theorem objectRows_nodup (tables : Tables) (type : ItemType) :
    ((tables.objectRows type).map ObjectRow.key).Nodup := by
  cases type with
  | node => exact tables.keys.nodes
  | way => exact tables.keys.ways
  | relation => exact tables.keys.relations

theorem new_nodup {rows : List ObjectRow} {type : ItemType} {done : List Key}
    (answer : Answer changeOrder (changesSince w.tables.toDatabase type options.timestamp) rows) :
    (((rows.filter (fun row => row.key ∉ done)).map (ObjectRow.entry type)).map
      (fun entry => (entry.type, entry.obj.key))).Nodup := by
  have keys : (rows.map ObjectRow.key).Nodup := by
    rw [(answer.complete.map ObjectRow.key).nodup_iff]
    exact ((List.filter_sublist (l := w.tables.objectRows type)).map ObjectRow.key).nodup
      (objectRows_nodup w.tables type)
  have new := ((List.filter_sublist (p := fun row => row.key ∉ done) (l := rows)).map ObjectRow.key).nodup keys
  have pairs : ((rows.filter (fun row => row.key ∉ done)).map (ObjectRow.entry type)).map
      (fun entry => (entry.type, entry.obj.key)) =
      ((rows.filter (fun row => row.key ∉ done)).map ObjectRow.key).map (fun pair => (type, pair)) := by
    rw [List.map_map, List.map_map]
    rfl
  rw [pairs]
  exact new.map (fun _ _ same => (Prod.mk.inj same).2)

private theorem mem_new_entries {rows : List ObjectRow} {type : ItemType} {done : List Key}
    (answer : Answer changeOrder (changesSince w.tables.toDatabase type options.timestamp) rows)
    (logged : ∀ pair, pair ∈ done ↔ Logged w options.logFileNames type pair) (entry : LogEntry) :
    entry ∈ (rows.filter (fun row => row.key ∉ done)).map (ObjectRow.entry type) ↔
      entry.type = type ∧ ∃ row, Missing w options entry.type row ∧ row.entry entry.type = entry := by
  rw [List.mem_map]
  constructor
  · rintro ⟨row, member, rfl⟩
    exact ⟨rfl, row, (mem_new answer logged).mp member, rfl⟩
  · rintro ⟨rfl, row, missing, same⟩
    exact ⟨row, (mem_new answer logged).mpr missing, same⟩

theorem collect_ok {entries : List LogEntry} (readable : ∀ log ∈ options.logFileNames, Readable w log)
    (ends : Ends (collect config options) w (.ok entries) w') : w' = w ∧ Collected w options entries := by
  obtain ⟨done, w₁, read, rest⟩ := Program.ends_bind_ok.mp ends
  obtain ⟨rfl, logged⟩ := readLogFiles_ok readable read
  obtain ⟨_, w₂, connected, afterConnect⟩ := Program.ends_bind_ok.mp rest
  obtain rfl : w₂ = w₁ := perform_ok.mp connected
  obtain ⟨_, w₃, asked, afterVersion⟩ := Program.ends_bind_ok.mp afterConnect
  obtain rfl := getDbVersion_ok asked
  obtain ⟨nodes, w₄, readNodes, afterNodes⟩ := Program.ends_bind_ok.mp afterVersion
  obtain ⟨rfl, start, _, nodeRows, nodeAnswer, nodeFits, rfl⟩ := readObjects_ok.mp readNodes
  obtain ⟨ways, w₅, readWays, afterWays⟩ := Program.ends_bind_ok.mp afterNodes
  obtain ⟨rfl, _, _, wayRows, wayAnswer, wayFits, rfl⟩ := readObjects_ok.mp readWays
  obtain ⟨relations, w₆, readRelations, afterRelations⟩ := Program.ends_bind_ok.mp afterWays
  obtain ⟨rfl, _, _, relationRows, relationAnswer, relationFits, rfl⟩ := readObjects_ok.mp readRelations
  obtain ⟨_, w₇, committed, same, rfl⟩ := Program.ends_bind_ok.mp afterRelations
  obtain rfl : w' = w₆ := perform_ok.mp committed
  obtain rfl := Except.ok.inj same
  have logged (type : ItemType) (pair : Key) : pair ∈ done type ↔ Logged w' options.logFileNames type pair := by
    rw [logged]
    exact ⟨fun either => either.resolve_left List.not_mem_nil, .inr⟩
  have new (type : ItemType) {rows : List ObjectRow} (answer : Answer changeOrder _ rows) (entry : LogEntry) :=
    mem_new_entries answer (logged type) entry
  refine ⟨rfl, fun entry => ?_, ?_, fun type row missing => ?_, start⟩
  · rw [List.nil_append, List.mem_append, List.mem_append, new .node nodeAnswer, new .way wayAnswer,
      new .relation relationAnswer]
    constructor
    · rintro ((⟨_, found⟩ | ⟨_, found⟩) | ⟨_, found⟩) <;> exact found
    · intro found
      cases type : entry.type with
      | node => exact .inl (.inl ⟨rfl, type ▸ found⟩)
      | way => exact .inl (.inr ⟨rfl, type ▸ found⟩)
      | relation => exact .inr ⟨rfl, type ▸ found⟩
  · have types {type : ItemType} {rows : List ObjectRow} {pair : ItemType × Key}
        (member : pair ∈ (rows.map (ObjectRow.entry type)).map (fun entry => (entry.type, entry.obj.key))) :
        pair.1 = type := by
      obtain ⟨entry, inside, rfl⟩ := List.mem_map.mp member
      obtain ⟨row, _, rfl⟩ := List.mem_map.mp inside
      rfl
    rw [List.nil_append, List.map_append, List.map_append]
    refine (List.Nodup.append (new_nodup nodeAnswer) (new_nodup wayAnswer) ?_).append (new_nodup relationAnswer) ?_
    · intro pair first second
      cases (types first).symm.trans (types second)
    · intro pair first second
      rcases List.mem_append.mp first with first | first
      · cases (types first).symm.trans (types second)
      · cases (types first).symm.trans (types second)
  · cases type with
    | node =>
      have member := (mem_new nodeAnswer (logged .node)).mpr missing
      exact nodeFits row (List.mem_filter.mp member).1 (by simpa using (List.mem_filter.mp member).2)
    | way =>
      have member := (mem_new wayAnswer (logged .way)).mpr missing
      exact wayFits row (List.mem_filter.mp member).1 (by simpa using (List.mem_filter.mp member).2)
    | relation =>
      have member := (mem_new relationAnswer (logged .relation)).mpr missing
      exact relationFits row (List.mem_filter.mp member).1 (by simpa using (List.mem_filter.mp member).2)

/-- A start that is a timestamp, and changesets that fit, are all the reading needs. -/
private theorem collect_does (readable : ∀ log ∈ options.logFileNames, Readable w log) (start : options.timestamp ≠ 0)
    (timed : ∀ type, ∀ row ∈ w.tables.objectRows type, row.Timed)
    (fits : ∀ type row, Missing w options type row → row.Fits) :
    ∃ entries, Ends (collect config options) w (.ok entries) w := by
  obtain ⟨done, read⟩ := @readLogFiles_does config w _ readable (fun _ => [])
  have logged (type : ItemType) (pair : Key) : pair ∈ done type ↔ Logged w options.logFileNames type pair := by
    rw [(readLogFiles_ok readable read).2]
    exact ⟨fun either => either.resolve_left List.not_mem_nil, .inr⟩
  have reads (type : ItemType) (entries : List LogEntry) :
      ∃ entries', Ends (readObjects entries options.timestamp type (done type)) w (.ok entries') w := by
    have answer := answer_sort (fun row : ObjectRow => toLex (row.timestamp.toNat, row.key))
      (changesSince w.tables.toDatabase type options.timestamp)
    refine ⟨_, readObjects_ok.mpr ⟨rfl, start, fun row member => ?_, _, answer, fun row member unlogged => ?_, rfl⟩⟩
    · exact (timed type row (List.mem_filter.mp member).1).2
    · exact fits type row ((mem_new answer (logged type)).mp (List.mem_filter.mpr ⟨member, by simpa using unlogged⟩))
  obtain ⟨version, asked⟩ := getDbVersion_does w
  obtain ⟨nodes, readNodes⟩ := reads .node []
  obtain ⟨ways, readWays⟩ := reads .way nodes
  obtain ⟨relations, readRelations⟩ := reads .relation ways
  have connected : Ends connect w (.ok ()) w := perform_ok.mpr rfl
  have committed : Ends commitTransaction w (.ok ()) w := perform_ok.mpr rfl
  exact ⟨relations, Program.ends_bind_ok.mpr ⟨_, _, read, Program.ends_bind_ok.mpr ⟨_, _, connected,
    Program.ends_bind_ok.mpr ⟨_, _, asked, Program.ends_bind_ok.mpr
      ⟨_, _, readNodes, Program.ends_bind_ok.mpr ⟨_, _, readWays,
      Program.ends_bind_ok.mpr ⟨_, _, readRelations, Program.ends_bind_ok.mpr ⟨_, _, committed, rfl, rfl⟩⟩⟩⟩⟩⟩⟩⟩

end Collecting

section Writing

variable {config : Config} {w w' : World}

private theorem clock_notes (t : Timestamp) (op : Op) (reply : Reply op) :
    ∃ t', Clock (fun _ _ => True) t op reply t' := by
  unfold Clock
  split
  · exact ⟨_, trivial, rfl⟩
  · exact ⟨t, rfl⟩

/-- All entries are in the new files, which have names without a directory. -/
private theorem report_files {entries : List LogEntry} {changed : Bool} (timed : ∀ entry ∈ entries, Timed entry)
    (ends : Ends (report config entries) w (.ok changed) w') :
    ∃ files, Wrote w w' files ∧ (files.flatMap Prod.snd).Perm entries ∧ (changed = true ↔ entries ≠ []) ∧
      ∀ file ∈ files, file.2 ≠ [] ∧ file.1.head? ≠ some '/' ∧ isLog file.1 = true := by
  unfold report at ends
  split at ends
  · rename_i empty
    obtain rfl := List.isEmpty_iff.mp empty
    obtain ⟨same, rfl⟩ := ends
    obtain rfl := Except.ok.inj same
    exact ⟨[], ⟨List.nodup_nil, by simp, fun _ _ => rfl, rfl, rfl, rfl⟩, .refl _, by simp, by simp⟩
  · rename_i notEmpty
    obtain ⟨_, w₁, written, same, rfl⟩ := Program.ends_bind_ok.mp ends
    obtain rfl := Except.ok.inj same
    have nonempty : entries ≠ [] := fun none => notEmpty (List.isEmpty_iff.mpr none)
    have sorting := sortEntries_sorted entries
    have ordered := sorting.times
    have timed := sorting.timed timed
    have perm := sorting.perm
    obtain ⟨_, clocked⟩ := written.observed 0 clock_notes
    cases sorted : sortEntries entries with
    | nil =>
      rw [sorted] at perm
      exact absurd perm.nil_eq.symm nonempty
    | cons entry rest =>
      rw [sorted] at ordered timed clocked perm
      obtain ⟨files, wrote, whole, _⟩ := writeLogs_all (fun _ _ _ _ _ => trivial) ordered timed clocked
      have all : (files.map MinuteFile.stored).flatMap Prod.snd = entry :: rest := by
        rw [List.flatMap_map]
        exact whole
      refine ⟨_, wrote, all ▸ perm, by simp [nonempty], fun file inside => ?_⟩
      obtain ⟨minuteFile, _, rfl⟩ := List.mem_map.mp inside
      exact ⟨minuteFile.nonempty, minuteFile.relative, isLog_createReplicationLogName _ _⟩

private theorem report_does {entries : List LogEntry} (free : entries ≠ [] → ∀ name, w.get (newLog name) = none) :
    ∃ changed w', Ends (report config entries) w (.ok changed) w' := by
  unfold report
  split
  · exact ⟨false, w, rfl, rfl⟩
  · rename_i some
    have stands : (0 : Timestamp) ≤ 0 := UInt32.le_refl 0
    obtain ⟨w', written⟩ := @writeLogs_stands config w _ 0 [] [] (sortEntries entries)
      0 stands (fun wrong => absurd rfl wrong)
      (free (fun none => some (List.isEmpty_iff.mpr none)))
    exact ⟨true, w', Program.ends_bind_ok.mpr ⟨_, _, written.unobserved, rfl, rfl⟩⟩

end Writing

/-- The new log files and their entries: the missing changes, each once. -/
structure Reports (config : Config) (options : FakeLogOptions) (w w' : World) (files : List (Text × List Osmobj)) :
    Prop where
  distinct : (files.map Prod.fst).Nodup
  nonempty : ∀ file ∈ files, file.2 ≠ []
  relative : ∀ file ∈ files, file.1.head? ≠ some '/'
  stored : ∀ file ∈ files, ∃ data, w'.get ⟨.log, file.1⟩ = some (.text data) ∧ logEntries data = .ok file.2 ∧
    ∀ line ∈ nLines data, WellFormed line
  others : ∀ path, (∀ file ∈ files, path ≠ ⟨.log, file.1⟩) → ¬ PidFileOf config logPidName path →
    w'.get path = w.get path
  database : w'.wal = w.wal ∧ w'.slot = w.slot ∧ w'.tables = w.tables
  complete : ∀ type row, Missing w options type row →
    ∃ obj ∈ files.flatMap Prod.snd, obj.type = type ∧ obj.key = row.key ∧ (obj.cid.toNat : Int) = row.changesetId.toInt
  sound : ∀ obj ∈ files.flatMap Prod.snd,
    ∃ row, Missing w options obj.type row ∧ obj.key = row.key ∧ (obj.cid.toNat : Int) = row.changesetId.toInt
  once : ((files.flatMap Prod.snd).map (fun obj => (obj.type, obj.key))).Nodup

section Runs

variable {config : Config} {options : FakeLogOptions} {w w' : World}

theorem logPath_same {name : Text} (same : Untouched (PidFileOf config name) w w') (log : Text) :
    w'.get (logPath log) = w.get (logPath log) := by
  refine same.get _ (fun pid => ?_)
  have run : (logPath log).dir = .run := congrArg Path.dir pid.2
  unfold logPath at run
  split at run <;> cases run

section Unchanged

variable {logs : List Text} (same : ∀ log ∈ logs, w'.get (logPath log) = w.get (logPath log))
include same

theorem Readable.keep (readable : ∀ log ∈ logs, Readable w log) : ∀ log ∈ logs, Readable w' log := by
  intro log member
  obtain ⟨data, stored, wellFormed⟩ := readable log member
  exact ⟨data, (same log member).trans stored, wellFormed⟩

theorem logged_iff {type : ItemType} {pair : Key} : Logged w' logs type pair ↔ Logged w logs type pair := by
  constructor
  · rintro ⟨log, member, data, stored, found⟩
    exact ⟨log, member, data, (same log member).symm.trans stored, found⟩
  · rintro ⟨log, member, data, stored, found⟩
    exact ⟨log, member, data, (same log member).trans stored, found⟩

end Unchanged

theorem missing_iff (tables : w'.tables = w.tables)
    (same : ∀ log ∈ options.logFileNames, w'.get (logPath log) = w.get (logPath log)) {type : ItemType}
    {row : ObjectRow} :
    Missing w' options type row ↔ Missing w options type row := by
  constructor
  · rintro ⟨stored, since, unlogged⟩
    exact ⟨tables ▸ stored, since, fun logged => unlogged ((logged_iff same).mpr logged)⟩
  · rintro ⟨stored, since, unlogged⟩
    exact ⟨tables ▸ stored, since, fun logged => unlogged ((logged_iff same).mp logged)⟩

private theorem timed_entry {row : ObjectRow} (timed : row.Timed) (type : ItemType) : Timed (row.entry type) := by
  obtain ⟨low, high⟩ := timed
  refine ⟨?_, ?_⟩
  · change (0 : Int) < (row.timestamp.toNat / 60 * 60 : Nat)
    omega
  · change ((row.timestamp.toNat / 60 * 60 : Nat) : Int) < 2 ^ 31
    omega

theorem fits_cid {row : ObjectRow} (fits : row.Fits) (type : ItemType) :
    (((row.entry type).obj.cid.toNat : Nat) : Int) = row.changesetId.toInt := by
  obtain ⟨low, high⟩ := fits
  change (((UInt32.ofInt row.changesetId.toInt).toNat : Nat) : Int) = row.changesetId.toInt
  rw [UInt32.ofInt, UInt32.toNat_ofNat']
  omega

/-- What was collected is what the new files say. -/
theorem Collected.reports {entries : List LogEntry} (collected : Collected w options entries)
    {files : List (Text × List LogEntry)}
    (wrote : Wrote w w' files) (perm : (files.flatMap Prod.snd).Perm entries)
    (names : ∀ file ∈ files, file.2 ≠ [] ∧ file.1.head? ≠ some '/') :
    Reports config options w w' (files.map (fun file => (file.1, file.2.map LogEntry.obj))) := by
  have all : (files.map (fun file => (file.1, file.2.map LogEntry.obj))).flatMap Prod.snd =
      (files.flatMap Prod.snd).map LogEntry.obj := by
    rw [List.flatMap_map, List.map_flatMap]
  refine ⟨?_, ?_, ?_, ?_, fun path outside _ => ?_, wrote.database, fun type row missing => ?_,
    fun obj member => ?_, ?_⟩
  · rw [List.map_map]
    exact wrote.distinct
  · intro file member
    obtain ⟨file, inside, rfl⟩ := List.mem_map.mp member
    exact fun none => (names file inside).1 (List.map_eq_nil_iff.mp none)
  · intro file member
    obtain ⟨file, inside, rfl⟩ := List.mem_map.mp member
    exact (names file inside).2
  · intro file member
    obtain ⟨file, inside, rfl⟩ := List.mem_map.mp member
    exact ⟨_, wrote.stored file inside, logEntries_logText file.2, logText_wellFormed file.2⟩
  · exact wrote.others path (fun file inside => outside _ (List.mem_map_of_mem inside))
  · rw [all]
    have member := perm.mem_iff.mpr ((collected.exact (row.entry type)).mpr ⟨row, missing, rfl⟩)
    exact ⟨_, List.mem_map_of_mem member, rfl, rfl, fits_cid (collected.fits type row missing) type⟩
  · rw [all] at member
    obtain ⟨entry, inside, rfl⟩ := List.mem_map.mp member
    obtain ⟨row, missing, same⟩ := (collected.exact entry).mp (perm.mem_iff.mp inside)
    refine ⟨row, missing, congrArg (fun entry => entry.obj.key) same.symm, ?_⟩
    exact (congrArg (fun entry => ((entry.obj.cid.toNat : Nat) : Int)) same).symm.trans
      (fits_cid (collected.fits _ row missing) entry.type)
  · rw [all, List.map_map]
    exact (perm.map _).nodup_iff.mpr collected.once

theorem fakeLog_files {changed : Bool} (timed : ∀ type, ∀ row ∈ w.tables.objectRows type, row.Timed)
    (readable : ∀ log ∈ options.logFileNames, Readable w log)
    (ends : Ends (fakeLog config options) w (.ok changed) w') :
    options.timestamp ≠ 0 ∧ ∃ files, Reports config options w w' files ∧ (changed = true ↔ files ≠ []) ∧
      ∀ file ∈ files, isLog file.1 = true := by
  rw [fakeLog_eq] at ends
  rcases (partwise_ends (.ok changed)).pidFile ends with ⟨w₁, w₂, _, before, body, after⟩ | ⟨⟨_, wrong⟩, _⟩
  swap
  · cases wrong
  obtain ⟨entries, w₃, read, written⟩ := Program.ends_bind_ok.mp body
  obtain ⟨rfl, collected⟩ := collect_ok (Readable.keep (fun log _ => logPath_same before log) readable) read
  have timedEntries : ∀ entry ∈ entries, Timed entry := by
    intro entry member
    obtain ⟨row, missing, same⟩ := (collected.exact entry).mp member
    have stored := missing.stored
    rw [before.tables] at stored
    exact same ▸ timed_entry (timed entry.type row stored) entry.type
  obtain ⟨files, wrote, perm, some, names⟩ := report_files timedEntries written
  have inner := @Collected.reports config _ _ _ _ collected _ wrote perm
    (fun file member => ⟨(names file member).1, (names file member).2.1⟩)
  have same (type : ItemType) (row : ObjectRow) : Missing w₃ options type row ↔ Missing w options type row :=
    missing_iff before.tables (fun log _ => logPath_same before log)
  have log (name : Text) : ¬ PidFileOf config logPidName ⟨.log, name⟩ := by
    rintro ⟨_, wrong⟩
    cases congrArg Path.dir wrong
  refine ⟨collected.start, _, ⟨inner.distinct, inner.nonempty, inner.relative, fun file member => ?_,
    fun path outside pid => ?_, ?_,
    fun type row missing => inner.complete type row ((same type row).mpr missing), fun obj member =>
      ?_, inner.once⟩, ?_, fun file member => ?_⟩
  · obtain ⟨data, stored, read⟩ := inner.stored file member
    exact ⟨data, (after.get _ (log file.1)).trans stored, read⟩
  · rw [after.get path pid, inner.others path outside pid, before.get path pid]
  · obtain ⟨wal, slot, tables⟩ := inner.database
    exact ⟨after.wal.trans (wal.trans before.wal), after.slot.trans (slot.trans before.slot),
      after.tables.trans (tables.trans before.tables)⟩
  · obtain ⟨row, missing, own⟩ := inner.sound obj member
    exact ⟨row, (same obj.type row).mp missing, own⟩
  · rw [some, ne_eq, ne_eq, not_iff_not, List.map_eq_nil_iff]
    constructor
    · rintro rfl
      refine List.eq_nil_iff_forall_not_mem.mpr (fun file member => (names file member).1 ?_)
      exact List.flatMap_eq_nil_iff.mp perm.eq_nil file member
    · rintro rfl
      exact perm.nil_eq.symm
  · obtain ⟨file, inside, rfl⟩ := List.mem_map.mp member
    exact (names file inside).2.2

theorem fakeLog_ok {changed : Bool} (timed : ∀ type, ∀ row ∈ w.tables.objectRows type, row.Timed)
    (readable : ∀ log ∈ options.logFileNames, Readable w log)
    (ends : Ends (fakeLog config options) w (.ok changed) w') :
    options.timestamp ≠ 0 ∧ ∃ files, Reports config options w w' files ∧ (changed = true ↔ files ≠ []) := by
  obtain ⟨start, files, reports, some, _⟩ := fakeLog_files timed readable ends
  exact ⟨start, files, reports, some⟩

/-- Nothing else can stop a run from ending normally. -/
theorem fakeLog_does (timed : ∀ type, ∀ row ∈ w.tables.objectRows type, row.Timed)
    (readable : ∀ log ∈ options.logFileNames, Readable w log) (start : options.timestamp ≠ 0)
    (fits : ∀ type row, Missing w options type row → row.Fits)
    (pid : config.runDir ≠ [] → w.get (pidPath logPidName) = none)
    (free : ∀ type row, Missing w options type row → ∀ name, w.get (newLog name) = none) :
    ∃ changed w', Ends (fakeLog config options) w (.ok changed) w' := by
  rw [fakeLog_eq]
  suffices able : ∀ w₁, Untouched (PidFileOf config logPidName) w w₁ → ∃ changed w₂,
      Ends (collect config options >>= report config) w₁ (.ok changed) w₂ ∧ True by
    obtain ⟨changed, _, _, w', ends, _⟩ := @pidFile_does _ config _ _ w (fun _ _ _ => True) pid able
    exact ⟨changed, w', ends⟩
  intro w₁ before
  have readable := Readable.keep (fun log _ => logPath_same before log) readable
  have same (type : ItemType) (row : ObjectRow) : Missing w₁ options type row ↔ Missing w options type row :=
    missing_iff before.tables (fun log _ => logPath_same before log)
  obtain ⟨entries, read⟩ := @collect_does config options w₁ readable start (fun type row member =>
    timed type row (before.tables ▸ member))
    (fun type row missing => fits type row ((same type row).mp missing))
  obtain ⟨_, collected⟩ := collect_ok readable read
  obtain ⟨changed, w₂, written⟩ := @report_does config w₁ entries (fun nonempty name => by
    obtain ⟨entry, member⟩ := List.exists_mem_of_ne_nil entries nonempty
    obtain ⟨row, missing, _⟩ := (collected.exact entry).mp member
    rw [before.get]
    · exact free _ row ((same _ row).mp missing) name
    · rintro ⟨_, wrong⟩
      cases congrArg Path.dir wrong)
  exact ⟨changed, w₂, Program.ends_bind_ok.mpr ⟨entries, w₁, read, written⟩, trivial⟩

section Again

variable {files : List (Text × List Osmobj)} {again : FakeLogOptions} {w₁ : World}
    (reports : Reports config options w w' files)
  (given : again.logFileNames = options.logFileNames ++ files.map Prod.fst)
  (same : ∀ log ∈ again.logFileNames, w₁.get (logPath log) = w'.get (logPath log))
include reports given same

theorem Reports.new {file : Text × List Osmobj} (member : file ∈ files) :
    ∃ data, w₁.get (logPath file.1) = some (.text data) ∧ logEntries data = .ok file.2 ∧
      ∀ line ∈ nLines data, WellFormed line := by
  obtain ⟨data, stored, read⟩ := reports.stored file member
  have path : logPath file.1 = ⟨.log, file.1⟩ := if_neg (reports.relative file member)
  refine ⟨data, (same file.1 ?_).trans (path ▸ stored), read⟩
  rw [given]
  exact List.mem_append_right _ (List.mem_map_of_mem member)

variable (kept : ∀ log ∈ options.logFileNames, ∀ file ∈ files, logPath log ≠ ⟨.log, file.1⟩)
include kept

theorem Reports.old : ∀ log ∈ options.logFileNames, w₁.get (logPath log) = w.get (logPath log) := by
  intro log member
  rw [same log (given ▸ List.mem_append_left _ member)]
  refine reports.others _ (fun file inside => kept log member file inside) (fun pid => ?_)
  have run : (logPath log).dir = .run := congrArg Path.dir pid.2
  unfold logPath at run
  split at run <;> cases run

theorem Reports.readable (readable : ∀ log ∈ options.logFileNames, Readable w log) :
    ∀ log ∈ again.logFileNames, Readable w₁ log := by
  intro log member
  rw [given] at member
  rcases List.mem_append.mp member with old | new
  · exact Readable.keep (reports.old given same kept) readable log old
  · obtain ⟨file, inside, rfl⟩ := List.mem_map.mp new
    obtain ⟨data, stored, _, wellFormed⟩ := reports.new given same inside
    exact ⟨data, stored, wellFormed⟩

/-- With the new files nothing is missing. -/
theorem Reports.nothing (tables : w₁.tables = w'.tables) (start : again.timestamp = options.timestamp)
    (type : ItemType)
    (row : ObjectRow) : ¬ Missing w₁ again type row := by
  rintro ⟨stored, since, unlogged⟩
  rw [tables, reports.database.2.2] at stored
  have missing : Missing w options type row := by
    refine ⟨stored, start ▸ since, fun logged => unlogged ?_⟩
    obtain ⟨log, member, found⟩ := (logged_iff (reports.old given same kept)).mpr logged
    exact ⟨log, given ▸ List.mem_append_left _ member, found⟩
  obtain ⟨obj, member, own, key, _⟩ := reports.complete type row missing
  obtain ⟨file, inside, member⟩ := List.mem_flatMap.mp member
  obtain ⟨data, there, read, wellFormed⟩ := reports.new given same inside
  rw [logEntries_nLines wellFormed] at read
  obtain ⟨line, present, entry⟩ := mem_nLines_entries.mp (Except.ok.inj read ▸ member)
  refine unlogged ⟨file.1, given ▸ List.mem_append_right _ (List.mem_map_of_mem inside), data, there,
    line, present, obj, entry, own, key⟩

end Again

/-- A run that ends normally has written the missing changes, each once, and then a run
with the new files finds nothing, unless they replaced given ones. A run can end normally
when the start is a timestamp, the changesets fit and nobody is in the way. -/
theorem fakeLog_exact (timed : ∀ type, ∀ row ∈ w.tables.objectRows type, row.Timed)
    (readable : ∀ log ∈ options.logFileNames, Readable w log) :
    (∀ changed w', Ends (fakeLog config options) w (.ok changed) w' →
      ∃ files, Reports config options w w' files ∧ (changed = true ↔ files ≠ []) ∧
        ∀ (again : FakeLogOptions) (w₁ : World), again.timestamp = options.timestamp →
          again.logFileNames = options.logFileNames ++ files.map Prod.fst →
          (∀ log ∈ options.logFileNames, ∀ file ∈ files, logPath log ≠ ⟨.log, file.1⟩) →
          w₁.tables = w'.tables → (∀ log ∈ again.logFileNames, w₁.get (logPath log) = w'.get (logPath log)) →
          (∀ changed' w₂, Ends (fakeLog config again) w₁ (.ok changed') w₂ →
            changed' = false ∧ ∀ path, ¬ PidFileOf config logPidName path → w₂.get path = w₁.get path) ∧
          ((config.runDir ≠ [] → w₁.get (pidPath logPidName) = none) →
            ∃ w₂, Ends (fakeLog config again) w₁ (.ok false) w₂)) ∧
    (options.timestamp ≠ 0 → (∀ type row, Missing w options type row → row.Fits) →
      (config.runDir ≠ [] → w.get (pidPath logPidName) = none) → (∀ name, w.get (newLog name) = none) →
      ∃ changed w', Ends (fakeLog config options) w (.ok changed) w') := by
  refine ⟨fun changed w' ends => ?_, fun start fits pid free => fakeLog_does timed readable start fits
    pid (fun _ _ _ => free)⟩
  obtain ⟨start, files, reports, some⟩ := fakeLog_ok timed readable ends
  refine ⟨files, reports, some, fun again w₁ sameStart given kept tables same => ?_⟩
  have nothing := reports.nothing given same kept tables sameStart
  have readable := reports.readable given same kept readable
  have timed : ∀ type, ∀ row ∈ w₁.tables.objectRows type, row.Timed := by
    intro type row member
    rw [tables, reports.database.2.2] at member
    exact timed type row member
  have quiet (changed' : Bool) (w₂ : World) (ends : Ends (fakeLog config again) w₁ (.ok changed') w₂) :
      changed' = false ∧ ∀ path, ¬ PidFileOf config logPidName path → w₂.get path = w₁.get path := by
    obtain ⟨_, more, reports', some'⟩ := fakeLog_ok timed readable ends
    obtain rfl : more = [] := by
      refine List.eq_nil_iff_forall_not_mem.mpr (fun file member => ?_)
      obtain ⟨obj, inside⟩ := List.exists_mem_of_ne_nil _ (reports'.nonempty file member)
      obtain ⟨row, missing, _⟩ := reports'.sound obj (List.mem_flatMap.mpr ⟨file, member, inside⟩)
      exact nothing _ row missing
    exact ⟨by simpa using some', fun path => reports'.others path (by simp)⟩
  refine ⟨quiet, fun pid => ?_⟩
  obtain ⟨changed', w₂, again⟩ := fakeLog_does timed readable (sameStart ▸ start)
    (fun type row missing => absurd missing (nothing type row))
    pid (fun type row missing => absurd missing (nothing type row))
  obtain rfl := (quiet changed' w₂ again).1
  exact ⟨w₂, again⟩

end Runs

/-- Tables with ways only. -/
def waysOnly (ways : List ObjectRow) (keys : (ways.map ObjectRow.key).Nodup) : Tables where
  ways := ways
  keys := by
    constructor
    case ways => exact keys
    all_goals simp [ObjectKeys, References]

def wayRow (id changesetId : Int64) (timestamp : Timestamp) : ObjectRow := ⟨id, 1, changesetId, true, timestamp, none⟩

/-- The name a run gets for the log file of the two ways. -/
def minuteLog : Text := "osm-repl-2020-03-18T14:18:49Z-2020-03-18T14:18:00Z.log".toList

/-- Two ways of one minute; the log file with the first has this name or another one. -/
def twoWays (name : Text) : World where
  files := [(⟨.log, name⟩, .text "0/1 5 N w1 v1 c7\n".toList)]
  tables := waysOnly [wayRow 1 7 1584541081, wayRow 2 7 1584541085] (by decide)

/-- The start of the minute and the log files. -/
def sinceMinute (logs : List Text) : FakeLogOptions := ⟨logs, 1584541080⟩

/-- A way of the first minute that is written. -/
def firstWay : World where
  tables := waysOnly [wayRow 1 7 60] (by decide)

/-- A changeset with a number of 33 bits. -/
def wideWay : World where
  tables := waysOnly [wayRow 1 4294967296 60] (by decide)

@[irreducible] def twoWaysReported (name : Text) :
    World := ((fakeLog {} (sinceMinute [name])).run World.serve (twoWays name)).2

theorem twoWaysReported_ends : Ends (fakeLog {} (sinceMinute ["a.log".toList])) (twoWays "a.log".toList) (.ok true)
    (twoWaysReported "a.log".toList) := by
  unfold twoWaysReported
  exact ends_served (by decide +kernel)

theorem twoWays_timed (name : Text) : ∀ type, ∀ row ∈ (twoWays name).tables.objectRows type, row.Timed := by
  intro type row member
  have early : (60 : Nat) ≤ row.timestamp.toNat ∧ row.timestamp.toNat < 2147483648 := by
    cases type with
    | way =>
      exact (by decide : ∀ row ∈ [wayRow 1 7 1584541081, wayRow 2 7 1584541085], 60 ≤ row.timestamp.toNat ∧
        row.timestamp.toNat < 2147483648) row member
    | _ => cases member
  exact early

theorem fakeLog_exact_two : ∃ files, Reports {} (sinceMinute ["a.log".toList]) (twoWays "a.log".toList)
    (twoWaysReported "a.log".toList) files ∧ files ≠ [] := by
  have readable : ∀ log ∈ (sinceMinute ["a.log".toList]).logFileNames, Readable (twoWays "a.log".toList) log := by
    intro log member
    obtain rfl := List.mem_singleton.mp member
    refine ⟨_, rfl, fun line inside => ?_⟩
    obtain rfl : line = "0/1 5 N w1 v1 c7".toList :=
      (by decide : ∀ line ∈ nLines "0/1 5 N w1 v1 c7\n".toList, line = "0/1 5 N w1 v1 c7".toList) line inside
    exact ⟨⟨.way, 1, 1, 7⟩, by decide⟩
  obtain ⟨files, reports, some, _⟩ := (fakeLog_exact (twoWays_timed _) readable).1 true _ twoWaysReported_ends
  exact ⟨files, reports, some.mp rfl⟩

/-- The only row is missing, and it is one the program makes a name for. -/
theorem onlyWay_missing (changesetId : Int64) {start : Timestamp} (since : start ≤ 60) :
    Missing { tables := waysOnly [wayRow 1 changesetId 60] (by simp) } ⟨[], start⟩ .way (wayRow 1 changesetId 60) :=
  ⟨List.mem_singleton.mpr rfl, since, by rintro ⟨_, wrong, _⟩; cases wrong⟩

theorem onlyWay_timed (changesetId : Int64) :
    ∀ type, ∀ row ∈ (waysOnly [wayRow 1 changesetId 60] (by simp)).objectRows type, row.Timed := by
  intro type row member
  cases type with
  | way =>
    obtain rfl := List.mem_singleton.mp member
    exact (by decide : (60 : Nat) ≤ 60 ∧ 60 < 2 ^ 31)
  | _ => cases member

/-- A start that is no timestamp, a changeset that does not fit, and a log file that is
replaced by a new one of the same second. -/
theorem fakeLog_exact_fails :
    (Missing firstWay ⟨[], 0⟩ .way (wayRow 1 7 60) ∧
      (∀ changed w', ¬ Ends (fakeLog {} ⟨[], 0⟩) firstWay (.ok changed) w') ∧
      ∃ fault w', Ends (fakeLog {} ⟨[], 0⟩) firstWay (.error fault) w' ∧ w'.files = []) ∧
    (Missing wideWay ⟨[], 60⟩ .way (wayRow 1 4294967296 60) ∧
      (∀ changed w', ¬ Ends (fakeLog {} ⟨[], 60⟩) wideWay (.ok changed) w') ∧
      ∃ fault w', Ends (fakeLog {} ⟨[], 60⟩) wideWay (.error fault) w' ∧ w'.files = []) ∧
    ∃ w' w'', Ends (fakeLog {} (sinceMinute [minuteLog])) (twoWays minuteLog) (.ok true) w' ∧
      w'.files = [(⟨.log, minuteLog⟩, .text "0/0 0 N w2 v1 c7\n".toList)] ∧
      Ends (fakeLog {} (sinceMinute [minuteLog, minuteLog])) w' (.ok true) w'' := by
  refine ⟨⟨onlyWay_missing 7 (by decide), fun changed w' ends => ?_, ?_⟩,
    ⟨onlyWay_missing 4294967296 (by decide), fun changed w' ends => ?_, ?_⟩, ?_⟩
  · exact (fakeLog_ok (onlyWay_timed 7) (by intro _ wrong; cases wrong) ends).1 rfl
  · refine ⟨_, _, @ends_served _ _ _ (.error (.systemError "query failed".toList))
      (by decide +kernel), by decide +kernel⟩
  · obtain ⟨_, files, reports, _⟩ := fakeLog_ok (onlyWay_timed 4294967296) (by intro _ wrong; cases wrong) ends
    obtain ⟨obj, _, _, _, cid⟩ := reports.complete .way _ (onlyWay_missing 4294967296 (by decide))
    have bound := obj.cid.toNat_lt
    have wide : (wayRow 1 4294967296 60).changesetId.toInt = 4294967296 := by decide
    omega
  · refine ⟨_, _, @ends_served _ _ _ (.error .conversionError) (by decide +kernel), by decide +kernel⟩
  · refine ⟨twoWaysReported minuteLog,
      _, by unfold twoWaysReported; exact ends_served (by decide +kernel), by decide +kernel,
      ends_served (by decide +kernel)⟩

end FakeLog

end Osmdbt
