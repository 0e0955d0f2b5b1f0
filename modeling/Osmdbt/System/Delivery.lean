import Osmdbt.Diff.Blocks
import Osmdbt.Diff.LastTimestamp
import Osmdbt.Log.MissingChanges
import Osmdbt.System.Ledger

/-! From the log files that wait to the objects in the change files: every entry arrives,
as often as it is there, if its object is shown. What fake-log finds missing arrives once. -/

namespace Osmdbt

open General

section Types

variable {cucache : ChangesetUserLookup} {objs : List Osmobj} {ts : Timestamp} {w w' : World}

private theorem queryNodes_counts {written : List OsmNode × Timestamp}
    (ends : Ends (queryNodes databaseQueries cucache objs ts) w (.ok written) w') (k : Key) :
    (written.1.map (fun node => node.attributes.key)).count k =
      if Shown (w.tables.objectRows .node) k then (wanted objs).count k else 0 := by
  obtain ⟨tags, w₁, askedTags, later⟩ := Program.ends_bind_ok.mp ends
  obtain ⟨_, rfl⟩ := perform_ok.mp askedTags
  obtain ⟨result, w₂, askedNodes, last⟩ := Program.ends_bind_ok.mp later
  obtain ⟨answer, rfl⟩ := perform_ok.mp askedNodes
  obtain ⟨success, rfl⟩ := Program.ends_lift.mp last
  have unique : (w'.tables.nodes.map (fun row => row.toObjectRow.key)).Nodup := by
    simpa [ObjectKeys, Function.comp_def] using w'.tables.keys.nodes
  have runs : Runs (w'.tables.objectRows .node) cucache (wanted objs) (fun node => node.attributes.key)
      (processNodes cucache (getTags tags) result) := by
    refine runs_processObjects ?_ unique answer _
    exact fun _ _ _ => rfl
  exact runs.counts success.symm k

private theorem queryWays_counts {written : List OsmWay × Timestamp}
    (ends : Ends (queryWays databaseQueries cucache objs ts) w (.ok written) w') (k : Key) :
    (written.1.map (fun way => way.attributes.key)).count k =
      if Shown (w.tables.objectRows .way) k then (wanted objs).count k else 0 := by
  obtain ⟨tags, w₁, askedTags, later⟩ := Program.ends_bind_ok.mp ends
  obtain ⟨_, rfl⟩ := perform_ok.mp askedTags
  obtain ⟨nodes, w₂, askedNodes, later'⟩ := Program.ends_bind_ok.mp later
  obtain ⟨_, rfl⟩ := perform_ok.mp askedNodes
  obtain ⟨result, w₃, askedWays, last⟩ := Program.ends_bind_ok.mp later'
  obtain ⟨answer, rfl⟩ := perform_ok.mp askedWays
  obtain ⟨success, rfl⟩ := Program.ends_lift.mp last
  have runs : Runs (w'.tables.objectRows .way) cucache (wanted objs) (fun way => way.attributes.key)
      (processWays cucache (getTags tags) (getNodes nodes) result) := by
    rw [← List.map_id (w'.tables.objectRows .way)]
    refine runs_processObjects ?_ w'.tables.keys.ways answer _
    exact fun _ _ _ => rfl
  exact runs.counts success.symm k

private theorem queryRelations_counts {written : List OsmRelation × Timestamp}
    (ends : Ends (queryRelations databaseQueries cucache objs ts) w (.ok written) w') (k : Key) :
    (written.1.map (fun relation => relation.attributes.key)).count k =
      if Shown (w.tables.objectRows .relation) k then (wanted objs).count k else 0 := by
  obtain ⟨tags, w₁, askedTags, later⟩ := Program.ends_bind_ok.mp ends
  obtain ⟨_, rfl⟩ := perform_ok.mp askedTags
  obtain ⟨members, w₂, askedMembers, later'⟩ := Program.ends_bind_ok.mp later
  obtain ⟨_, rfl⟩ := perform_ok.mp askedMembers
  obtain ⟨result, w₃, askedRelations, last⟩ := Program.ends_bind_ok.mp later'
  obtain ⟨answer, rfl⟩ := perform_ok.mp askedRelations
  obtain ⟨success, rfl⟩ := Program.ends_lift.mp last
  have runs : Runs (w'.tables.objectRows .relation) cucache (wanted objs) (fun relation => relation.attributes.key)
      (processRelations cucache (getTags tags) (getMembers members) result) := by
    rw [← List.map_id (w'.tables.objectRows .relation)]
    refine runs_processObjects ?_ w'.tables.keys.relations answer _
    exact fun _ _ _ => rfl
  exact runs.counts success.symm k

theorem unlessEmpty_counts {ω : Type} {keyOf : ω → Key} {rows : List ObjectRow} {process : Prog (List ω × Timestamp)}
    {written : List ω × Timestamp} (ends : Ends (unlessEmpty objs ts process) w (.ok written) w') (k : Key)
    (run : Ends process w (.ok written) w' →
      (written.1.map keyOf).count k = if Shown rows k then (wanted objs).count k else 0) :
    (written.1.map keyOf).count k = if Shown rows k then (wanted objs).count k else 0 := by
  unfold unlessEmpty at ends
  split at ends
  · rename_i empty
    obtain rfl := Except.ok.inj ends.1
    simp [wanted, List.isEmpty_iff.mp empty]
  · exact run ends

/-- The three types together. -/
private theorem processTypes_counts {objects : Osmobjects} {written : DiffObjects × Timestamp}
    (ends : Ends (processTypes databaseQueries cucache objects) w (.ok written) w') (type : ItemType) (k : Key) :
    (written.1.keys type).count k =
      if Shown (w.tables.objectRows type) k then (wanted (objects.ofType type)).count k else 0 := by
  obtain ⟨nodes, w₁, first, later⟩ := Program.ends_bind_ok.mp ends
  obtain ⟨rfl, _⟩ := unlessEmpty_adds first queryNodes_adds
  obtain ⟨ways, w₂, second, later'⟩ := Program.ends_bind_ok.mp later
  obtain ⟨rfl, _⟩ := unlessEmpty_adds second queryWays_adds
  obtain ⟨relations, w₃, third, last⟩ := Program.ends_bind_ok.mp later'
  obtain rfl := Except.ok.inj last.1
  cases type with
  | node => exact unlessEmpty_counts first k (fun run => queryNodes_counts run k)
  | way => exact unlessEmpty_counts second k (fun run => queryWays_counts run k)
  | relation => exact unlessEmpty_counts third k (fun run => queryRelations_counts run k)

end Types

/-- The change files that were published since. -/
def World.diffsSince (w w' : World) : List DiffObjects :=
  (w'.renames.drop w.renames.length).filterMap Rename.diff

section Publishing

variable {config : Config} {options : CreateDiffOptions} {w w' : World} {state : State} {logFiles : List Text}

private theorem renameLogs_renames {names : List Text}
    (ends : Ends (names.forM (fun name => renameFile config ⟨.log, name⟩ ⟨.log, name ++ ".done".toList⟩))
      w (.ok ()) w') :
    RenamedSince w w' (fun moved => moved.newName.dir = .log) := by
  induction names generalizing w with
  | nil =>
    obtain ⟨_, rfl⟩ := ends
    exact .refl rfl
  | cons first rest ih =>
    obtain ⟨_, w₁, moved, later⟩ := Program.ends_bind_ok.mp ends
    obtain ⟨content, _, rfl⟩ := perform_ok.mp moved
    obtain ⟨more, split, logs⟩ := ih later
    refine ⟨⟨⟨.log, first⟩, doneFile first, content, w.returned⟩ :: more, split.trans (List.append_assoc _ [_] _), ?_⟩
    exact List.forall_mem_cons.mpr ⟨rfl, logs⟩

/-- The three files of the state, then the log files. -/
private theorem publish_renames (ends : Ends (publish config state logFiles) w (.ok ()) w') :
    ∃ change own copy logs, w'.renames = w.renames ++ (change :: own :: copy :: logs) ∧
      change.newName = state.changeFile ∧
      own.newName = state.ownFile ∧ copy.newName = stateFile ∧ ∀ moved ∈ logs, moved.newName.dir = .log := by
  obtain ⟨w₁, w₂, before, moving, after⟩ := publish_ok ends
  obtain ⟨change, own, copy, w₃, w₄, w₅, _, first, second, renamed, last⟩ := moveIntoPlace_ok moving
  obtain ⟨more, split, logs⟩ := renameLogs_renames renamed
  refine ⟨⟨newChangeFile, state.changeFile, change, w₁.returned⟩, ⟨newStateFile, state.ownFile, own, w₁.returned⟩,
    ⟨newStateCopy, stateFile, copy, w₃.returned⟩, more, ?_, rfl, rfl, rfl, logs⟩
  rw [after.renames, last.renames, split, second.renames]
  simp only [World.rename, first.renames, before.renames, List.append_assoc, List.cons_append, List.nil_append]
  rfl

/-- One of the files that are moved is a change file with objects. -/
private theorem publish_diffs {sources : List (Text × Text)} {objects : DiffObjects} {now : Timestamp}
    (change : w.get newChangeFile = some (.osc sources (some objects)))
    (own : w.get newStateFile = some (.text (state.toText now)))
    (copy : w.get newStateCopy = some (.text (state.toText now)))
    (ends : Ends (publish config state logFiles) w (.ok ()) w') :
    w.diffsSince w' = [objects] := by
  obtain ⟨first, second, third, logs, split, toChange, toOwn, toState, toLogs⟩ := publish_renames ends
  have carried {oldName newName : Path} {content : Content} (pair : Pair state logFiles oldName newName)
      (here : w.get oldName = some content) {moved : Rename} (member : moved ∈ first :: second :: third :: logs)
      (same : moved.newName = newName) : moved.content = content := by
    obtain ⟨more, split', each⟩ := publish_carried pair here ends.visits
    obtain rfl := List.append_cancel_left (split.symm.trans split')
    exact each moved member same
  have changed : first.diff = some objects := by
    rw [Rename.diff, toChange, carried change_pair change (by simp) toChange]
    rfl
  have owned : second.diff = none := by
    rw [Rename.diff, toOwn, carried own_pair own (by simp) toOwn]
    rfl
  have copied : third.diff = none := by
    rw [Rename.diff, toState, carried copy_pair copy (by simp) toState]
    rfl
  have moved : logs.filterMap Rename.diff = [] := by
    refine List.filterMap_eq_nil_iff.mpr (fun log member => ?_)
    rw [Rename.diff, toLogs log member]
  rw [World.diffsSince, split, List.drop_left, List.filterMap_cons_some changed, List.filterMap_cons_none owned,
    List.filterMap_cons_none copied, moved]

end Publishing

/-- The entries of a log file. -/
def World.entriesOf (w : World) (name : Text) : List Osmobj := (logEntries (w.logFile name).2).toOption.getD []

/-- The entries of all log files that wait. -/
def World.waitingEntries (w : World) : List Osmobj := w.logs.flatMap w.entriesOf

section Waiting

variable {w w' : World}

theorem World.entriesOf_stored {name data : Text} {entries : List Osmobj}
    (stored : w.get ⟨.log, name⟩ = some (.text data))
    (read : logEntries data = .ok entries) : w.entriesOf name = entries := by
  simp only [World.entriesOf, World.logFile, stored, read, Except.toOption, Option.getD_some]

theorem World.entriesOf_same {name : Text} (same : w'.get ⟨.log, name⟩ = w.get ⟨.log, name⟩) :
    w'.entriesOf name = w.entriesOf name := by
  simp only [World.entriesOf, World.logFile, same]

theorem flatMap_entriesOf {block : List (Text × Text)} {entries : List Osmobj} (present : Present w block)
    (read : readEntries (block.map Prod.snd) = .ok entries) : (block.map Prod.fst).flatMap w.entriesOf = entries := by
  induction block generalizing entries with
  | nil => exact Except.ok.inj read
  | cons source rest ih =>
    obtain ⟨here, more, own, others, rfl⟩ := readEntries_first read
    rw [List.map_cons, List.flatMap_cons, World.entriesOf_stored (present source List.mem_cons_self) own,
      ih (fun other member => present other (List.mem_cons_of_mem _ member)) others]

theorem flatMap_same {names : List Text} (same : ∀ name ∈ names, w'.get ⟨.log, name⟩ = w.get ⟨.log, name⟩) :
    names.flatMap w'.entriesOf = names.flatMap w.entriesOf := by
  induction names with
  | nil => rfl
  | cons name rest ih =>
    rw [List.flatMap_cons, List.flatMap_cons, World.entriesOf_same (same name List.mem_cons_self),
      ih (fun other member => same other (List.mem_cons_of_mem _ member))]

theorem SameLogs.waitingEntries (same : SameLogs w w') : w'.waitingEntries = w.waitingEntries := by
  rw [World.waitingEntries, same.logs]
  exact flatMap_same (fun name member => same name ((w.mem_logs name).mp member).1)

end Waiting

/-- How often an object version is in a list of change files. -/
def published (type : ItemType) (k : Key) (diffs : List DiffObjects) :
    Nat := (diffs.map (fun objects => (objects.keys type).count k)).sum

/-- The change files of a run. -/
def Round.diffs (round : Round) : List DiffObjects := round.start.diffsSince round.last

/-- The objects of these entries are published, those that are shown. -/
def Round.Delivers (round : Round) (entries : List Osmobj) : Prop :=
  ∀ type k, published type k round.diffs =
    if Shown (round.start.tables.objectRows type) k then occurrences type k entries else 0

section Runs

variable {config : Config} {options : CreateDiffOptions} {w w' : World}

/-- The log files that were not taken are left, and the same. -/
theorem Locking.left {block : List (Text × Text)} {rest : List Text} {entries : List Osmobj} {state : State}
    {w₁ w₂ w₃ : World}
    (all : options.logFileNames = []) (locking : Locking config options w block rest entries state w₁ w₂)
    (ends : Ends (publish config state (block.map Prod.fst)) w₂ (.ok ()) w₃)
    (after : Untouched (PidFileOf config "osmdbt-create-diff".toList) w₃ w') :
    w'.logs = rest ∧ ∀ name ∈ rest, w'.get ⟨.log, name⟩ = w.get ⟨.log, name⟩ := by
  have order := locking.taking.logs all
  have split := order ▸ w.nodup_logs
  have log {name : Text} (member : name ∈ block.map Prod.fst ++ rest) : isLog name = true :=
    ((w.mem_logs name).mp (order ▸ member)).1
  obtain ⟨each, others⟩ := publish_logs (List.nodup_append.mp split).1
    (fun name member => log (List.mem_append_left _ member)) ends
  have last (name : Text) : w'.get ⟨.log, name⟩ = w₃.get ⟨.log, name⟩ :=
    after.logs (fun path pid => by rw [pidFileOf_run path pid]; decide) name
  have before (name : Text) : w₂.get ⟨.log, name⟩ = w.get ⟨.log, name⟩ :=
    locking.untouched.logs (fun path own => scratch_not_log path (own_scratch path own)) name
  have kept {name : Text} (here : isLog name = true) (notTaken : name ∉ block.map Prod.fst) :
      w'.get ⟨.log, name⟩ = w.get ⟨.log, name⟩ := by
    refine (last name).trans ((others _ rfl (fun taken member => ?_)).trans (before name))
    obtain ⟨source, inside, rfl⟩ := List.mem_map.mp member
    exact not_in_block here notTaken source inside
  have untaken {name : Text} (member : name ∈ rest) : name ∉ block.map Prod.fst :=
    fun taken => (List.nodup_append.mp split).2.2 name taken name member rfl
  have same (name : Text) (member : name ∈ rest) : w'.get ⟨.log, name⟩ = w.get ⟨.log, name⟩ :=
    kept (log (List.mem_append_right _ member)) (untaken member)
  refine ⟨World.logs_unique ?_ (List.nodup_append.mp split).2.1
    (fun name => ⟨fun member => ?_, fun ⟨here, stored⟩ => ?_⟩), same⟩
  · exact (List.pairwise_append.mp (order ▸ w.pairwise_logs)).2.1
  · obtain ⟨here, stored⟩ := (w.mem_logs name).mp (order ▸ List.mem_append_right _ member)
    exact ⟨here, (same name member).symm ▸ stored⟩
  · by_cases taken : name ∈ block.map Prod.fst
    · rw [last, (each name taken).1] at stored
      cases stored
    · have there := (w.mem_logs name).mpr ⟨here, kept here taken ▸ stored⟩
      rw [order] at there
      exact (List.mem_append.mp there).resolve_left taken

/-- A run publishes the entries it takes from those that wait. -/
theorem Round.Succeeds.delivers {round : Round} (succeeds : round.Succeeds config) :
    ∃ entries, round.start.waitingEntries = entries ++ round.last.waitingEntries ∧ round.Delivers entries := by
  rcases createDiff_parts (partwise_ends (.ok ())) succeeds.ends with
    ⟨_, ⟨_, wrong⟩ | dryRun | ⟨_, same⟩⟩ | ⟨block, rest, entries, state, w₁, w₂, w₃, locking, ends, after⟩
  · cases wrong
  · rw [succeeds.real] at dryRun
    cases dryRun
  · have logs : SameLogs round.start round.last := fun name _ =>
      same.logs (fun path pid => by rw [pidFileOf_run path pid]; decide) name
    have nothing : round.diffs = [] := by
      rw [Round.diffs, World.diffsSince, same.renames, List.drop_length]
      rfl
    refine ⟨[], logs.waitingEntries.symm, fun type k => ?_⟩
    simp [nothing, published, occurrences]
  · obtain ⟨left, same⟩ := locking.left succeeds.all ends after
    refine ⟨entries, ?_, fun type k => ?_⟩
    · rw [World.waitingEntries, locking.taking.logs succeeds.all, List.flatMap_append,
        flatMap_entriesOf locking.taking.present locking.read, World.waitingEntries, left, flatMap_same same]
    · obtain ⟨written, cucache, objects, w₄, tables, processed, change⟩ := writeFiles_written locking.written
      obtain ⟨now, own, copy⟩ := written.states
      have diffs : round.diffs = [objects] := by
        rw [← publish_diffs change own copy ends, Round.diffs, World.diffsSince, World.diffsSince, after.renames,
          locking.untouched.renames]
      have counts := processTypes_counts processed type k
      rw [tables, locking.start.tables] at counts
      rw [diffs, published, List.map_singleton, List.sum_singleton, counts]
      congr 1
      rw [wanted, ((wanted_perm entries type).map Osmobj.key).count_eq]
      exact count_wanted_filter type k entries

private theorem published_append (type : ItemType) (k : Key) (diffs diffs' : List DiffObjects) :
    published type k (diffs ++ diffs') = published type k diffs + published type k diffs' := by
  rw [published, List.map_append, List.sum_append, published, published]

theorem occurrences_append (type : ItemType) (k : Key) (entries entries' : List Osmobj) :
    occurrences type k (entries ++ entries') = occurrences type k entries + occurrences type k entries' :=
      List.countP_append

/-- Successive runs take entries from the front of those that wait. -/
theorem Successive.takes {rounds : List Round} (successive : Successive config w rounds w') :
    ∃ taken, List.Forall₂ Round.Delivers rounds taken ∧ w.waitingEntries = taken.flatten ++ w'.waitingEntries := by
  induction rounds generalizing w with
  | nil => exact ⟨[], .nil, (SameLogs.waitingEntries successive).symm⟩
  | cons round rest ih =>
    obtain ⟨same, succeeds, later⟩ := successive
    obtain ⟨entries, split, delivers⟩ := succeeds.delivers
    obtain ⟨taken, each, split'⟩ := ih later
    refine ⟨entries :: taken, .cons delivers each, ?_⟩
    rw [← same.waitingEntries, split, split', List.flatten_cons, List.append_assoc]

/-- What the change files of some runs hold of an object version, compared with the entries
they were made from. -/
structure Arrives (rounds : List Round) (type : ItemType) (k : Key) (entries : List Osmobj) : Prop where
  atMost : published type k (rounds.flatMap Round.diffs) ≤ occurrences type k entries
  shown : (∀ round ∈ rounds, Shown (round.start.tables.objectRows type) k) →
    published type k (rounds.flatMap Round.diffs) = occurrences type k entries
  hidden : (∀ round ∈ rounds, ¬ Shown (round.start.tables.objectRows type) k) →
    published type k (rounds.flatMap Round.diffs) = 0

theorem arrives {rounds : List Round} {taken : List (List Osmobj)}
    (each : List.Forall₂ Round.Delivers rounds taken) (type : ItemType)
    (k : Key) : Arrives rounds type k taken.flatten := by
  induction each with
  | nil => exact ⟨le_rfl, fun _ => rfl, fun _ => rfl⟩
  | @cons round entries rounds taken delivers _ ih =>
    have first := delivers type k
    have both : published type k ((round :: rounds).flatMap Round.diffs) =
        published type k round.diffs + published type k (rounds.flatMap Round.diffs) := by
      rw [List.flatMap_cons, published_append]
    constructor
    · rw [both, List.flatten_cons, occurrences_append, first]
      have := ih.atMost
      split <;> omega
    · intro shown
      rw [both, List.flatten_cons, occurrences_append, first, if_pos (shown round List.mem_cons_self),
        ih.shown (fun other member => shown other (List.mem_cons_of_mem _ member))]
    · intro hidden
      rw [both, first, if_neg (hidden round List.mem_cons_self),
        ih.hidden (fun other member => hidden other (List.mem_cons_of_mem _ member))]

/-- Of the entries that waited, the ones that are gone are in the change files: of an object
version as many as there were if it is shown, none if it is not, and never more. -/
theorem createDiff_delivers {rounds : List Round} (successive : Successive config w rounds w') :
    ∃ entries, w.waitingEntries = entries ++ w'.waitingEntries ∧ ∀ type k, Arrives rounds type k entries := by
  obtain ⟨taken, each, split⟩ := successive.takes
  exact ⟨taken.flatten, split, arrives each⟩

theorem createDiff_delivers_two : ∃ entries, twoLogs.waitingEntries = entries ++ noLogLeft.waitingEntries ∧
    ∀ type k, Arrives [firstRound, secondRound] type k entries :=
  createDiff_delivers twoRounds_successive

end Runs

namespace FakeLog

section Runs

variable {config : Config} {options : FakeLogOptions} {w w' : World} {files : List (Text × List Osmobj)}

/-- The entries of the new files. -/
theorem Reports.entries (reports : Reports config options w w' files) :
    (files.map Prod.fst).flatMap w'.entriesOf = files.flatMap Prod.snd := by
  rw [List.flatMap_map]
  refine List.flatMap_congr (fun file member => ?_)
  obtain ⟨data, stored, read, _⟩ := reports.stored file member
  exact World.entriesOf_stored stored read

/-- A missing row is in the new files once. -/
theorem Reports.single (reports : Reports config options w w' files) {type : ItemType} {row : ObjectRow}
    (missing : Missing w options type row) : occurrences type row.key (files.flatMap Prod.snd) = 1 := by
  obtain ⟨obj, member, own, same, _⟩ := reports.complete type row missing
  have counted : occurrences type row.key (files.flatMap Prod.snd) =
      ((files.flatMap Prod.snd).map (fun obj => (obj.type, obj.key))).count (type, row.key) := by
    rw [occurrences, List.count, List.countP_map]
    refine List.countP_congr (fun other _ => ?_)
    simp [Prod.ext_iff]
  rw [counted]
  exact List.count_eq_one_of_mem reports.once (List.mem_map.mpr ⟨obj, member, by rw [own, same]⟩)

/-- It is in no other log file that waits, when these were all given. -/
theorem Reports.elsewhere (reports : Reports config options w w' files)
    (readable : ∀ log ∈ options.logFileNames, Readable w log)
    (given : ∀ name ∈ w.logs, ∃ log ∈ options.logFileNames, logPath log = ⟨.log, name⟩) {type : ItemType}
    {row : ObjectRow}
    (missing : Missing w options type row) {name : Text} (waits : name ∈ w'.logs) (old : name ∉ files.map Prod.fst) :
    occurrences type row.key (w'.entriesOf name) = 0 := by
  obtain ⟨log, there⟩ := (w'.mem_logs name).mp waits
  have same : w'.get ⟨.log, name⟩ = w.get ⟨.log, name⟩ := by
    refine reports.others _ (fun file member same => old ?_) (fun pid => Dir.noConfusion (pidFileOf_run _ pid))
    obtain rfl : name = file.1 := congrArg Path.name same
    exact List.mem_map_of_mem member
  obtain ⟨given, member, path⟩ := given name ((w.mem_logs name).mpr ⟨log, same ▸ there⟩)
  obtain ⟨data, stored, wellFormed⟩ := readable given member
  rw [World.entriesOf_same same, World.entriesOf_stored (path ▸ stored) (logEntries_nLines wellFormed)]
  refine List.countP_eq_zero.mpr (fun obj inside => ?_)
  obtain ⟨line, present, read⟩ := mem_nLines_entries.mp inside
  simp only [decide_eq_true_eq]
  exact fun own => missing.unlogged ⟨given, member, data, stored, line, present, obj, read, own⟩

theorem Reports.waiting (reports : Reports config options w w' files)
    (readable : ∀ log ∈ options.logFileNames, Readable w log)
    (given : ∀ name ∈ w.logs, ∃ log ∈ options.logFileNames, logPath log = ⟨.log, name⟩)
    (logs : ∀ file ∈ files, isLog file.1 = true)
    {type : ItemType} {row : ObjectRow} (missing : Missing w options type row) :
    occurrences type row.key w'.waitingEntries = 1 := by
  have new : (w'.logs.filter (fun name => name ∈ files.map Prod.fst)).Perm (files.map Prod.fst) := by
    refine (List.perm_ext_iff_of_nodup (w'.nodup_logs.filter _) reports.distinct).mpr (fun name => ?_)
    rw [List.mem_filter, decide_eq_true_eq, and_iff_right_iff_imp]
    intro member
    obtain ⟨file, inside, rfl⟩ := List.mem_map.mp member
    obtain ⟨data, stored, _⟩ := reports.stored file inside
    exact (w'.mem_logs file.1).mpr ⟨logs file inside, by rw [stored]; rfl⟩
  have split := ((List.filter_append_perm (fun name => decide (name ∈ files.map Prod.fst)) w'.logs).symm.trans
    (new.append_right _)).flatMap_right w'.entriesOf
  have rest : occurrences type row.key
      ((w'.logs.filter (fun name => !decide (name ∈ files.map Prod.fst))).flatMap w'.entriesOf) = 0 := by
    refine List.countP_eq_zero.mpr (fun obj member => ?_)
    obtain ⟨name, inside, member⟩ := List.mem_flatMap.mp member
    obtain ⟨waits, old⟩ := List.mem_filter.mp inside
    exact List.countP_eq_zero.mp (reports.elsewhere readable given missing waits (by simpa using old)) obj member
  have counted : occurrences type row.key w'.waitingEntries = _ := split.countP_eq _
  rw [counted, List.flatMap_append, ← occurrences, occurrences_append, rest, reports.entries, reports.single missing]

/-- After a run of fake-log that got all log files that wait, the runs of create-diff that
take them all publish every missing row once, unless it is redacted. -/
theorem fakeLog_delivers {changed : Bool} {rounds : List Round} {w₁ w₂ : World} {type : ItemType} {row : ObjectRow}
    (timed : ∀ type, ∀ row ∈ w.tables.objectRows type, row.Timed)
    (readable : ∀ log ∈ options.logFileNames, Readable w log)
    (given : ∀ name ∈ w.logs, ∃ log ∈ options.logFileNames, logPath log = ⟨.log, name⟩)
    (ends : Ends (fakeLog config options) w (.ok changed) w₁) (successive : Successive config w₁ rounds w₂)
    (taken : w₂.logs = [])
    (missing : Missing w options type row) :
    published type row.key (rounds.flatMap Round.diffs) ≤ 1 ∧
      ((∀ round ∈ rounds, Shown (round.start.tables.objectRows type) row.key) →
        published type row.key (rounds.flatMap Round.diffs) = 1) ∧
      ((∀ round ∈ rounds, ¬ Shown (round.start.tables.objectRows type) row.key) →
        published type row.key (rounds.flatMap Round.diffs) = 0) := by
  obtain ⟨_, files, reports, _, logs⟩ := fakeLog_files timed readable ends
  have once := reports.waiting readable given logs missing
  obtain ⟨entries, each, split⟩ := successive.takes
  have nothing : w₂.waitingEntries = [] := by
    rw [World.waitingEntries, taken]
    rfl
  rw [split, nothing, List.append_nil] at once
  have arrives := arrives each type row.key
  exact ⟨once ▸ arrives.atMost, fun shown => (arrives.shown shown).trans once, arrives.hidden⟩

end Runs

@[irreducible] def twoWaysTaken : World :=
  ((createDiff {} { initState := 1 }).run World.serve (twoWaysReported "a.log".toList)).2

private theorem twoWaysTaken_ends :
    Ends (createDiff {} { initState := 1 }) (twoWaysReported "a.log".toList) (.ok ()) twoWaysTaken := by
  unfold twoWaysTaken
  exact ends_served (by decide +kernel)

/-- The run that takes both log files. -/
def bothWays : Round := ⟨{ initState := 1 }, twoWaysReported "a.log".toList, twoWaysTaken⟩

theorem twoWays_lines : ∀ line ∈ nLines "0/1 5 N w1 v1 c7\n".toList, line = "0/1 5 N w1 v1 c7".toList := by decide

private theorem twoWays_missing : Missing (twoWays "a.log".toList) (sinceMinute ["a.log".toList])
    .way (wayRow 2 7 1584541085) := by
  refine ⟨by simp [twoWays, waysOnly, Database.objectRows], by decide, ?_⟩
  rintro ⟨log, member, data, stored, line, inside, obj, read, _, same⟩
  obtain rfl := List.mem_singleton.mp member
  obtain rfl : "0/1 5 N w1 v1 c7\n".toList = data := Content.text.inj (Option.some.inj stored)
  obtain rfl := twoWays_lines line inside
  obtain rfl : (⟨.way, 1, 1, 7⟩ : Osmobj) = obj := by
    have first : readLine "0/1 5 N w1 v1 c7".toList = .ok (some ⟨.way, 1, 1, 7⟩) := by decide
    exact Option.some.inj (Except.ok.inj (first.symm.trans read))
  exact absurd same (by decide)

theorem fakeLog_delivers_way : published .way (key 2 1) bothWays.diffs = 1 := by
  have logs : (twoWays "a.log".toList).logs = ["a.log".toList] := by decide +kernel
  have taken : twoWaysTaken.logs = [] := by decide +kernel
  have readable : ∀ log ∈ (sinceMinute ["a.log".toList]).logFileNames, Readable (twoWays "a.log".toList) log := by
    intro log member
    obtain rfl := List.mem_singleton.mp member
    refine ⟨_, rfl, fun line inside => ?_⟩
    obtain rfl := twoWays_lines line inside
    exact ⟨⟨.way, 1, 1, 7⟩, by decide⟩
  have given : ∀ name ∈ (twoWays "a.log".toList).logs,
      ∃ log ∈ (sinceMinute ["a.log".toList]).logFileNames, logPath log = ⟨.log, name⟩ := by
    intro name member
    rw [logs] at member
    exact ⟨name, member, by rw [List.mem_singleton.mp member]; decide⟩
  have successive : Successive {} (twoWaysReported "a.log".toList) [bothWays] twoWaysTaken :=
    ⟨SameLogs.refl bothWays.start, ⟨rfl, rfl, twoWaysTaken_ends⟩, SameLogs.refl bothWays.last⟩
  have shown : ∀ round ∈ [bothWays], Shown (round.start.tables.objectRows .way) (key 2 1) := by
    intro round member
    obtain rfl := List.mem_singleton.mp member
    decide +kernel
  have once : published .way (key 2 1) ([bothWays].flatMap Round.diffs) = 1 :=
    (fakeLog_delivers (twoWays_timed _) readable given twoWaysReported_ends successive taken twoWays_missing).2.1 shown
  rwa [List.flatMap_singleton] at once

end FakeLog

end Osmdbt
