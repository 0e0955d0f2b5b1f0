import Osmdbt.System.Parallel
import Osmdbt.Diff.Success
import Osmdbt.Log.Newest
import Osmdbt.Log.NameOrder

/-! The script of one cycle: each of its runs may be stopped anywhere, and the next
one starts from the beginning. -/

namespace Osmdbt

open General

/-- The script: with `set -e` it ends with the first program that fails. -/
def script (config : Config) : Prog Unit := do
  catchup config 0
  getLog config {}
  catchup config 0
  createDiff config {}

/-- The script starts, perhaps after left-over pid files were removed. -/
def Cycle (config : Config) (w : World) (program : Prog Unit) (w' : World) : Prop :=
  program = script config ∧ Untouched InRun w w'

/-- The log files of a published diff have everything get-log returned last, unless
they reach the limit. -/
def Complete (sources : List (Text × Text)) (returned : List Osmobj) : Prop :=
  LimitReached {} sources ∨
    ∀ obj ∈ returned, ∃ source ∈ sources, ∃ entries, logEntries source.2 = .ok entries ∧ obj ∈ entries

/-- What create-diff finds: everything is caught up, and what was returned last is in log files. -/
structure ReadyToPublish (c : World × Books) : Prop where
  caught : c.2.ledger.Caught c.1
  answered : Answered c.2 c.1
  entered : ∀ name ∈ c.2.fresh, ∃ data, c.1.get ⟨.log, name⟩ = some (.text data) ∧ c.2.ledger.Entered (name, data)

private theorem found_ready : Ready ReadyToPublish where
  others {w w' books} change here := by
    refine ⟨fun name commit member => change.slot ▸ here.caught name commit member,
      ⟨fun obj member => ?_, fun name member => ?_⟩,
      fun name member => ?_⟩
    · exact here.answered.logged obj (change.returned ▸ member)
    · exact ⟨(here.answered.there name member).1, change.isSome (here.answered.there name member).2⟩
    · obtain ⟨data, stored, entered⟩ := here.entered name member
      exact ⟨data, change.kept _ _ stored, entered⟩
  kept same here := by
    have logs (name : Text) := same.get ⟨.log, name⟩ (fun inside => scratch_not_log _ inside rfl)
    refine ⟨fun name commit member => same.slot ▸ here.caught name commit member,
      ⟨fun obj member => ?_, fun name member => ?_⟩,
      fun name member => ?_⟩
    · exact here.answered.logged obj (same.returned ▸ member)
    · exact ⟨(here.answered.there name member).1, (logs name).symm ▸ (here.answered.there name member).2⟩
    · obtain ⟨data, stored, entered⟩ := here.entered name member
      exact ⟨data, (logs name).trans stored, entered⟩

section Cycle

variable {config : Config}

private theorem found_complete (w : World) (books : Books) (plan : Plan) (found : ReadyToPublish (w, books))
    (present : Present w plan.sources)
    (read : ∀ name, name ∈ books.fresh → name ∈ plan.sources.map Prod.fst ∨ LimitReached {} plan.sources) :
    Complete plan.sources w.returned := by
  by_cases limit : LimitReached {} plan.sources
  · exact .inl limit
  refine .inr (fun obj member => ?_)
  obtain ⟨name, fresh, inside⟩ := found.answered.logged obj member
  obtain ⟨⟨_, data⟩, source, rfl⟩ := List.mem_map.mp ((read name fresh).resolve_right limit)
  obtain ⟨data', stored, entered⟩ := found.entered _ fresh
  obtain rfl : data = data' := Content.text.inj (Option.some.inj ((present _ source).symm.trans stored))
  exact ⟨_, source, _, entered.entries, inside⟩

/-- create-diff after a get-log that was caught up. -/
private theorem createDiff_after : (bookRules Complete).Triple
    (Resting Complete (fun books w => books.ledger.Caught w ∧ Answered books w)) (createDiff config {})
    (fun _ c => InBalance Complete c) (fun _ c => InBalance Complete c) := by
  rintro ⟨w, plan, books⟩ resting
  obtain rfl : plan = none := resting.idle
  obtain ⟨caught, answered⟩ := resting.fact
  have entered (name : Text) (member : name ∈ books.fresh) :
      ∃ data, w.get ⟨.log, name⟩ = some (.text data) ∧ books.ledger.Entered (name, data) := by
    obtain ⟨log, there⟩ := answered.there name member
    obtain ⟨content, stored⟩ := Option.isSome_iff_exists.mp there
    obtain ⟨data, rfl, entered⟩ := resting.balanced.files.file name content log stored
    exact ⟨data, stored, entered⟩
  have before : Before ReadyToPublish (fun books name => name ∈ books.fresh) books (fun _ => True)
      (w, (none, books)) :=
    ⟨rfl, ⟨caught, answered, entered⟩, answered.there, trivial⟩
  have kept : InBalance Complete (w, (none, books)) := resting.balanced
  have safe := @createDiff_books Complete config {} _ _ rfl (fun _ _ found => found.caught)
    found_complete found_ready _ kept before
  exact safe.weaken (fun _ _ ended => ended.2.1) (fun _ _ ended => ended.2.1)

theorem Resting.inBalance {agrees : List (Text × Text) → List Osmobj → Prop} {F : Books → World → Prop}
    {c : World × (Option Plan × Books)}
    (resting : Resting agrees F c) : InBalance agrees c := by
  obtain ⟨w, plan, books⟩ := c
  obtain rfl : plan = none := resting.idle
  exact resting.balanced

private theorem script_books : (bookRules Complete).Triple (Resting Complete (fun _ _ => True)) (script config)
    (fun _ c => InBalance Complete c) (fun _ c => InBalance Complete c) := by
  have advanced {books : Books} {w : World} {lsn : Nat} (answered : Answered books w) :
      Answered books { w with slot := max w.slot lsn } := ⟨answered.logged, answered.there⟩
  have start := (@catchup_books Complete config (fun _ _ => True) Steady.const (fun _ => trivial)).weaken
    (fun _ => id) (fun _ _ => id) (fun _ _ => Resting.inBalance)
  have logged := (getLog_triple (@bookStations_sound Complete {} rfl) config).weaken
    (fun _ => id) (fun _ _ => id) (fun _ _ => Resting.inBalance)
  have again := (@catchup_books Complete config Answered steady_answered advanced).weaken
    (fun _ => id) (fun _ _ => id) (fun _ _ => Resting.inBalance)
  unfold script
  refine start.bind (fun _ => (logged.before ?_).bind (fun _ => again.bind (fun _ => createDiff_after)))
  exact fun _ resting => resting.imp And.left

/-- The books while the script runs, is stopped and starts again. -/
theorem cycle_kept {start current : World × Option (Prog Unit)}
    (initial : Sequential.Holds (bookRules Complete) (fun _ c => InBalance Complete c)
      (fun _ c => InBalance Complete c)
      (Resting Complete (fun _ _ => True)) (InBalance Complete) start)
    (reached : Relation.ReflTransGen (Sequential Step Commits (Cycle config)) start current) :
    Sequential.Holds (bookRules Complete) (fun _ c => InBalance Complete c) (fun _ c => InBalance Complete c)
      (Resting Complete (fun _ _ => True)) (InBalance Complete) current := by
  refine Sequential.invariant (D := bookRules Complete) ?_ ?_ ?_ ?_ ?_ initial reached
  · exact fun w w' t resting commits => ⟨t, (resting_quiet Steady.const).stable (w, t) (w', t) ⟨commits, rfl⟩ resting⟩
  · exact fun w w' t balanced commits => ⟨t, ⟨commits, rfl⟩, balanced.commits commits⟩
  · rintro w program w' t resting ⟨rfl, same⟩
    have here := (resting_quiet Steady.const).kept w w' t resting same
    exact ⟨t, here.inBalance, script_books _ here⟩
  · exact fun c c' balanced move => move balanced
  · rintro w ⟨plan, books⟩ balanced
    have ended : plan = none ∨ (w.get lockFile).isSome := by
      cases plan with
      | none => exact .inl rfl
      | some plan => exact .inr balanced.once.1
    exact ⟨(none, books), rfl, balanced.idle ended, trivial⟩

end Cycle

/-- Over any number of runs of the script, stopped anywhere: no object version is published
more often than it was inserted, and every published diff has what get-log returned before,
unless its log files reach the limit. -/
theorem cycle_exactly_once (config : Config) {start : World} {current : World × Option (Prog Unit)}
    (fresh : NothingWritten start)
    (reached : Relation.ReflTransGen (Sequential Step Commits (Cycle config)) (start, none) current) :
    (∀ type k, current.1.timesWritten type k ≤ occurrences type k (Commit.objects current.1.wal)) ∧
    (current.1.InsertedOnce → current.1.PublishedOnce ∧ ∀ objects ∈ current.1.diffs, ∀ type,
      (objects.keys type).Nodup) ∧
    ∀ moved ∈ current.1.renames, moved.newName.dir = .changes → ∀ sources objects,
      moved.content = .osc sources objects →
      Complete sources moved.returned := by
  have balanced : ∃ c, InBalance Complete (current.1, c) := by
    have initial : ∃ t, Resting Complete (fun _ _ => True) (start, t) :=
      ⟨(none, ⟨fun _ => [], []⟩), rfl, fresh.balanced, trivial⟩
    have kept := @cycle_kept config (start, none) current initial reached
    obtain ⟨w, none | program⟩ := current
    · obtain ⟨c, resting⟩ := kept
      exact ⟨c, resting.inBalance⟩
    · obtain ⟨c, balanced, _⟩ := kept
      exact ⟨c, balanced⟩
  obtain ⟨⟨plan, books⟩, balanced⟩ := balanced
  have counts : ∀ type k, current.1.timesWritten type k ≤ occurrences type k (Commit.objects current.1.wal) :=
    balanced.atMostOnce
  refine ⟨counts, fun once => ⟨pairwise_of_count (fun type k => (counts type k).trans (once type k)), ?_⟩, ?_⟩
  · intro objects member type
    refine List.nodup_iff_count_le_one.mpr (fun k => le_trans ?_ ((counts type k).trans (once type k)))
    exact List.le_sum_of_mem (List.mem_map.mpr ⟨objects, member, rfl⟩)
  · exact fun moved member changes sources objects content =>
      (balanced.diffs moved member changes sources objects content).agrees

section Succeeding

variable {config : Config} {w : World}

/-- What get-log leaves behind. -/
structure LoggedBy (sent : List Commit) (name : Text) (w w' : World) : Prop where
  file : ∃ data, w'.get ⟨.log, name⟩ = some (.text data) ∧ logEntries data = .ok (Commit.objects sent)
  gone : w'.get (newLog name) = none
  others : ∀ path, path ≠ ⟨.log, name⟩ → path ≠ newLog name → w'.get path = w.get path
  wal : w'.wal = w.wal
  slot : w'.slot = w.slot
  tables : w'.tables = w.tables
  returned : w'.returned = Commit.objects sent

/-- What catchup leaves behind. -/
structure AdvancedTo (lsn : Nat) (w w' : World) : Prop where
  get : ∀ path, w'.get path = w.get path
  slot : w'.slot = max w.slot lsn
  wal : w'.wal = w.wal
  tables : w'.tables = w.tables
  returned : w'.returned = w.returned
  renames : w'.renames = w.renames

/-- The pid file is as before once it is gone again. -/
theorem get_around {name : Text} {w₁ w₂ w' : World} (held : config.runDir ≠ [] → w.get (pidPath name) = none)
    (before : Untouched (PidFileOf config name) w w₁) (after : Untouched (PidFileOf config name) w₂ w')
    (gone : config.runDir ≠ [] → w'.get (pidPath name) = none) {path : Path} (inside : w₂.get path = w₁.get path) :
    w'.get path = w.get path := by
  by_cases own : PidFileOf config name path
  · obtain ⟨some, rfl⟩ := own
    rw [gone some, held some]
  · rw [after.get path own, inside, before.get path own]

theorem getLog_does (held : config.runDir ≠ [] → w.get (pidPath logPidName) = none) {sent : List Commit}
    {rows : List PeekRow} (carried : Sent sent rows) (pending : w.pending = sent) (some : Commit.objects sent ≠ [])
    {last : Commit} (ends : sent.getLast? = Option.some last) (time : Timestamp)
    (free : w.get (newLog (replicationLogName (lsnStr last.lsn) time)) = Option.none) :
    ∃ w', Ends (getLog config {}) w (.ok ()) w' ∧ LoggedBy sent (replicationLogName (lsnStr last.lsn) time) w w' := by
  obtain ⟨log, decoded, entries, lsn, actual⟩ := decodeRows_sent carried
  rw [ends, Option.map_some, Option.getD_some] at lsn
  have notEmpty : ¬ rows.isEmpty = true := by
    intro empty
    have nothing := (sent_nil_iff carried).mp (List.isEmpty_iff.mp empty)
    rw [nothing] at some
    exact some rfl
  have real : log.hasActualData = true := by
    rw [actual]
    simpa using some
  have notPid {log : Text} : ¬ PidFileOf config logPidName ⟨.log, log⟩ := by
    rintro ⟨_, ⟨⟩⟩
  obtain ⟨_, w₁, w₂, w', ran, before, logged, after, gone⟩ : ∃ value w₁ w₂ w', Ends (getLog config {})
    w (.ok value) w' ∧
      Untouched (PidFileOf config logPidName) w w₁ ∧
      LoggedBy sent (replicationLogName (lsnStr last.lsn) time) w₁ w₂ ∧
      Untouched (PidFileOf config logPidName) w₂ w' ∧ (config.runDir ≠ [] → w'.get (pidPath logPidName) = none) := by
    refine pidFile_does held (fun w₁ before => ?_)
    let w₂ : World := { w₁ with returned := Commit.objects sent }
    have pending₁ : w₁.pending = sent := (pending_same before.wal before.slot).trans pending
    have free₁ : w₂.get (newLog (replicationLogName (lsnStr last.lsn) time)) = Option.none :=
      (before.get _ notPid).trans free
    obtain ⟨w₃, written⟩ := @writeDataToFile_does config w₂ (replicationLogName (lsnStr last.lsn) time) log.data free₁
    obtain ⟨stored, gone, others, wal, slot, tables, returned, _⟩ := writeDataToFile_ok written
    obtain ⟨version, versioned⟩ := @getDbVersion_succeeds w₁
    have peeked : Ends (perform (.peek (peekLimit {})) "query failed".toList) w₁ (.ok rows) w₂ :=
      perform_ok.mpr ⟨sent, pending₁.symm, carried, rfl⟩
    have filed : Ends (writeLog config log) w₂ (.ok ()) w₃ := by
      unfold writeLog
      rw [if_pos real, lsn]
      exact Program.ends_bind_ok.mpr ⟨time, w₂, perform_ok.mpr rfl, written⟩
    refine ⟨(), w₃, ?_, ⟨log.data, stored, entries⟩, gone, others, wal, slot, tables, returned⟩
    refine Program.ends_bind_ok.mpr ⟨(), w₁, perform_ok.mpr rfl, Program.ends_bind_ok.mpr ⟨version, w₁, versioned, ?_⟩⟩
    refine Program.ends_bind_ok.mpr ⟨rows, w₂, peeked, ?_⟩
    rw [if_neg notEmpty]
    refine Program.ends_bind_ok.mpr ⟨log, w₂, Program.ends_lift.mpr ⟨decoded.symm, rfl⟩, ?_⟩
    exact Program.ends_bind_ok.mpr ⟨(), w₃, filed, rfl, rfl⟩
  obtain ⟨data, stored, read⟩ := logged.file
  refine ⟨w', ran, ⟨⟨data, (after.get _ notPid).trans stored, read⟩, (after.get _ notPid).trans logged.gone,
    fun path other new => get_around held before after gone (logged.others path other new),
    after.wal.trans (logged.wal.trans before.wal), after.slot.trans (logged.slot.trans before.slot),
    after.tables.trans (logged.tables.trans before.tables), after.returned.trans logged.returned⟩⟩

theorem catchup_does (held : config.runDir ≠ [] → w.get (pidPath logPidName) = none) {lsn : Nat}
    (newest : ∀ w' : World, (∀ name, w'.get ⟨.log, name⟩ = w.get ⟨.log, name⟩) → getLsn (w'.names .log) = .ok lsn)
    (parsed : parseLsn (lsnStr lsn) = .ok lsn) : ∃ w', Ends (catchup config 0) w (.ok ()) w' ∧
        AdvancedTo lsn w w' := by
  obtain ⟨_, w₁, w₂, w', ran, before, moved, after, gone⟩ : ∃ value w₁ w₂ w', Ends (catchup config 0)
    w (.ok value) w' ∧
      Untouched (PidFileOf config logPidName) w w₁ ∧ w₂ = { w₁ with slot := max w₁.slot lsn } ∧
      Untouched (PidFileOf config logPidName) w₂ w' ∧ (config.runDir ≠ [] → w'.get (pidPath logPidName) = none) := by
    refine pidFile_does held (fun w₁ before => ?_)
    have listed : Ends (catchupTarget 0) w₁ (.ok lsn) w₁ := by
      have names : Ends (perform (.list .log) "directory iterator cannot open directory".toList) w₁
          (.ok (w₁.names .log)) w₁ := perform_ok.mpr ⟨List.nodup_dedup _, w₁.mem_names .log, rfl⟩
      have largest := newest w₁ (fun name => before.get _ (by rintro ⟨_, ⟨⟩⟩))
      exact Program.ends_bind_ok.mpr ⟨_, w₁, names, Program.ends_lift.mpr ⟨largest.symm, rfl⟩⟩
    refine ⟨(), _, Program.ends_bind_ok.mpr ⟨lsn, w₁, listed, ?_⟩, rfl⟩
    by_cases zero : lsn = 0
    · rw [if_pos zero, zero, Nat.max_zero]
      exact ⟨rfl, rfl⟩
    rw [if_neg zero]
    obtain ⟨version, versioned⟩ := @getDbVersion_succeeds w₁
    have advanced : Ends (catchupToLsn (lsnStr lsn)) w₁ (.ok ()) { w₁ with slot := max w₁.slot lsn } := by
      have server : Ends (perform .serverVersion "connection failed".toList) w₁ (.ok (140000 : Nat)) w₁ :=
        perform_ok.mpr rfl
      refine Program.ends_bind_ok.mpr ⟨(140000 : Nat), w₁, server, ?_⟩
      exact perform_ok.mpr ⟨lsn, parsed, rfl⟩
    refine Program.ends_bind_ok.mpr ⟨(), w₁, perform_ok.mpr rfl, Program.ends_bind_ok.mpr ⟨version, w₁, versioned, ?_⟩⟩
    exact Program.ends_bind_ok.mpr ⟨(), _, advanced, perform_ok.mpr rfl⟩
  subst moved
  refine ⟨w', ran, fun path => get_around held before after gone rfl, ?_, after.wal.trans before.wal,
    after.tables.trans before.tables, after.returned.trans before.returned, after.renames.trans before.renames⟩
  rw [after.slot]
  change max w₁.slot lsn = _
  rw [before.slot]

/-- The log files there are, with their positions. -/
structure NamedLogs (logs : List (Text × Nat)) (w : World) : Prop where
  distinct : (logs.map Prod.fst).Nodup
  named : ∀ log ∈ logs, isLog log.1 = true ∧ lsnOfName log.1 = .ok log.2
  there : ∀ name, (w.get ⟨.log, name⟩).isSome ↔ name ∈ logs.map Prod.fst

theorem NamedLogs.newest {logs : List (Text × Nat)} (listed : NamedLogs logs w) :
    getLsn (w.names .log) = .ok ((logs.map Prod.snd).foldl max 0) := by
  refine getLsn_perm listed.named (fun _ wrong => absurd wrong List.not_mem_nil) ?_
  have distinct : (w.names .log).Nodup := List.nodup_dedup _
  rw [List.append_nil, List.perm_ext_iff_of_nodup distinct listed.distinct]
  exact fun name => (w.mem_names .log name).trans (listed.there name)

theorem NamedLogs.same {logs : List (Text × Nat)} {w' : World} (listed : NamedLogs logs w)
    (get : ∀ name, w'.get ⟨.log, name⟩ = w.get ⟨.log, name⟩) : NamedLogs logs w' := by
  refine ⟨listed.distinct, listed.named, fun name => ?_⟩
  rw [get, listed.there]

theorem NamedLogs.free {logs : List (Text × Nat)} (listed : NamedLogs logs w) (name : Text) :
    w.get (newLog name) = Option.none := by
  rw [← Option.not_isSome_iff_eq_none]
  intro there
  obtain ⟨log, member, same⟩ := List.mem_map.mp ((listed.there _).mp there)
  have wrong := (listed.named log member).1
  rw [same, isLog_new] at wrong
  cases wrong

theorem NamedLogs.logged {logs : List (Text × Nat)} (listed : NamedLogs logs w) {sent : List Commit}
    {name : Text} {w' : World}
    (logged : LoggedBy sent name w w') {lsn : Nat} (named : isLog name = true ∧ lsnOfName name = .ok lsn)
    (fresh : name ∉ logs.map Prod.fst) : NamedLogs (logs ++ [(name, lsn)]) w' := by
  refine ⟨?_, fun log member => ?_, fun other => ?_⟩
  · rw [List.map_append, List.nodup_append]
    refine ⟨listed.distinct, List.nodup_singleton _, fun first member second here same => ?_⟩
    have own : first = name := same.trans (List.mem_singleton.mp here)
    exact fresh (own ▸ member)
  · rcases List.mem_append.mp member with before | here
    · exact listed.named log before
    · rw [List.mem_singleton.mp here]
      exact named
  · rw [List.map_append, List.mem_append, List.map_singleton, List.mem_singleton, ← listed.there other]
    by_cases own : other = name
    · obtain ⟨data, stored, _⟩ := logged.file
      rw [own, stored]
      exact iff_of_true rfl (.inr rfl)
    by_cases tmp : (⟨.log, other⟩ : Path) = newLog name
    · rw [tmp, logged.gone, listed.free name]
      exact iff_of_false (by decide) (fun wrong => wrong.elim (by decide) own)
    · rw [logged.others _ (fun same => own (congrArg Path.name same)) tmp]
      exact ⟨.inl, fun either => either.resolve_right own⟩

end Succeeding

def numberedNode (i : Nat) : Osmobj := ⟨.node, Int64.ofNat (i + 1), 1, 10⟩

/-- A transaction for every node. -/
def numberedNodes (count : Nat) : List (Nat × Osmobj) := (List.range count).map (fun i => (i + 1, numberedNode i))

def numberedRows (count : Nat) : Database where
  changesets := [⟨10, 5⟩]
  users := [⟨5, "mapper".toList⟩]
  nodes := (List.range count).map (fun i => plainNode (Int64.ofNat (i + 1)) none)

theorem numberedNode_key_inj {i j : Nat} (small : i < 2 ^ 62) (small' : j < 2 ^ 62)
    (same : (numberedNode i).key = (numberedNode j).key) :
    i = j := by
  have ids : (Int64.ofNat (i + 1)).toInt = (Int64.ofNat (j + 1)).toInt := congrArg Int64.toInt (key_inj.mp same).1
  rw [Int64.toInt_ofNat_of_lt (by omega), Int64.toInt_ofNat_of_lt (by omega)] at ids
  omega

theorem numberedKeys_nodup {count : Nat} (small : count ≤ 2 ^ 62) :
    ((List.range count).map (fun i => (numberedNode i).key)).Nodup := by
  refine List.Nodup.map_on (fun i first j second same => ?_) List.nodup_range
  exact numberedNode_key_inj (by have := List.mem_range.mp first; omega)
    (by have := List.mem_range.mp second; omega) same

theorem numberedNodes_objects (count : Nat) : Commit.objects (nodeCommits (numberedNodes count)) =
    (List.range count).map numberedNode := by
  simp only [Commit.objects, nodeCommits, numberedNodes, List.map_map, List.flatMap_map]
  exact List.map_eq_flatMap.symm

private theorem numberedRows_schema {count : Nat} (small : count ≤ 2 ^ 62) : SchemaKeys (numberedRows count) where
  nodes := by
    have keys : ((numberedRows count).nodes.map NodeRow.toObjectRow).map ObjectRow.key =
        (List.range count).map (fun i => (numberedNode i).key) := by
      simp only [numberedRows, List.map_map]
      rfl
    rw [ObjectKeys, keys]
    exact numberedKeys_nodup small
  ways := List.nodup_nil
  relations := List.nodup_nil
  nodeTags := by intro child member; cases member
  wayTags := by intro child member; cases member
  wayNodes := by intro child member; cases member
  relationTags := by intro child member; cases member
  relationMembers := by intro child member; cases member

private theorem numberedNodes_sent (count : Nat) :
    Sent (nodeCommits (numberedNodes count)) (peekRows (nodeInsertions (numberedNodes count))) := by
  refine sent_nodes (fun node member => ?_)
  obtain ⟨i, _, rfl⟩ := List.mem_map.mp member
  rfl

theorem numberedNodes_succ (count : Nat) :
    numberedNodes (count + 1) = numberedNodes count ++ [(count + 1, numberedNode count)] := by
  rw [numberedNodes, List.range_succ, List.map_append]
  rfl

theorem numberedNodes_lsn {count : Nat} {commit : Commit} (member : commit ∈ nodeCommits (numberedNodes count)) :
    0 < commit.lsn ∧ commit.lsn ≤ count := by
  obtain ⟨_, inside, rfl⟩ := List.mem_map.mp member
  obtain ⟨i, range, rfl⟩ := List.mem_map.mp inside
  have := List.mem_range.mp range
  change 0 < i + 1 ∧ i + 1 ≤ count
  omega

/-- The tables of the nodes, all transactions but the last one, and nothing published yet. -/
def numberedStart {count : Nat} (small : count + 1 ≤ 2 ^ 62) : World where
  files := [(stateFile, .text "sequenceNumber=7\ntimestamp=2020-03-18T14\\:18\\:49Z\n".toList)]
  wal := nodeCommits (numberedNodes count)
  tables := { numberedRows (count + 1) with keys := numberedRows_schema small }

theorem numberedStart_only {count : Nat} (small : count + 1 ≤ 2 ^ 62) {path : Path} (other : path ≠ stateFile) :
    (numberedStart small).get path = none := by
  have miss : (path == stateFile) = false := beq_eq_false_iff_ne.mpr other
  rw [World.get, numberedStart, List.lookup_cons, miss]
  rfl

private theorem numberedStart_fresh {count : Nat} (small : count + 1 ≤ 2 ^ 62) :
    NothingWritten (numberedStart small) := by
  refine ⟨⟨?_, fun commit member => ?_⟩, rfl, fun name content => ?_⟩
  · refine List.pairwise_map.mpr (List.pairwise_map.mpr ?_)
    exact List.pairwise_lt_range.imp (fun less => Nat.succ_lt_succ less)
  · have := (numberedNodes_lsn member).2
    omega
  · rintro ⟨_, here | here⟩
    · rw [numberedStart_only small (by rintro ⟨⟩)] at here
      cases here
    · rw [numberedStart_only small (by rintro ⟨⟩)] at here
      cases here

private theorem numberedRows_writable {count : Nat} (entries : List Osmobj) (some : entries ≠ [])
    (each : ∀ obj ∈ entries, obj.cid = 10)
    {w : World} (tables : w.tables.toDatabase = numberedRows count)
    (state : w.get stateFile = Option.some (.text "sequenceNumber=7\ntimestamp=2020-03-18T14\\:18\\:49Z\n".toList))
    (fresh : ∀ path, path = newStateFile ∨ path = newStateCopy ∨ path = lockFile → w.get path = none) :
    Writable {} entries w := by
  have asked : (10 : UInt32) ∈ entries.map Osmobj.cid := by
    obtain ⟨obj, member⟩ := List.exists_mem_of_ne_nil entries some
    exact List.mem_map.mpr ⟨obj, member, each obj member⟩
  refine ⟨?_, ?_, fun obj member row inside _ _ => ?_, ⟨_, ⟨7, 1584541129⟩, state, by decide +kernel, by decide⟩,
    ⟨fresh _ (.inl rfl), fresh _ (.inr (.inl rfl))⟩, fresh _ (.inr (.inr rfl))⟩
  · rw [tables]
    exact ⟨List.nodup_singleton _, List.nodup_singleton _,
      fun type => by cases type <;> exact List.nodup_nil, List.nodup_nil,
      List.nodup_nil⟩
  · rw [tables, show changesetUsers (numberedRows count) = [⟨10, 5, "mapper".toList⟩] from rfl]
    intro row member _
    rw [List.mem_singleton.mp member]
    exact ⟨⟨10, by decide⟩, ⟨5, by decide⟩⟩
  · rw [tables] at inside
    have changeset : row.changesetId = 10 := by
      revert inside
      cases obj.type with
      | node =>
        intro inside
        obtain ⟨own, found, rfl⟩ := List.mem_map.mp inside
        obtain ⟨i, _, rfl⟩ := List.mem_map.mp found
        rfl
      | way => exact fun wrong => nomatch wrong
      | relation => exact fun wrong => nomatch wrong
    rw [changeset]
    exact ⟨by decide, by decide, asked⟩

def firstName (count : Nat) : Text := replicationLogName (lsnStr count) 1584541129
def laterName (count : Nat) : Text := replicationLogName (lsnStr (count + 1)) 1584541130

theorem numberedStart_logless {count : Nat} (small : count + 1 ≤ 2 ^ 62) : NamedLogs [] (numberedStart small) := by
  refine ⟨List.nodup_nil, (fun _ wrong => absurd wrong List.not_mem_nil), fun name => ?_⟩
  rw [numberedStart_only small (by rintro ⟨⟩)]
  exact iff_of_false (by decide) List.not_mem_nil

/-- get-log after a catchup that finds no log file. -/
theorem LoggedBy.after_catchup {sent : List Commit} {name : Text} {w w₁ w' : World} (caught : AdvancedTo 0 w w₁)
    (logged : LoggedBy sent name w₁ w') : LoggedBy sent name w w' where
  file := logged.file
  gone := logged.gone
  others path other new := (logged.others path other new).trans (caught.get path)
  wal := logged.wal.trans caught.wal
  slot := logged.slot.trans (caught.slot.trans (Nat.max_zero _))
  tables := logged.tables.trans caught.tables
  returned := logged.returned

/-- The execution of the script that is stopped after get-log. -/
private theorem numberedStart_logs {count : Nat} (some : 0 < count) (small : count + 1 ≤ 2 ^ 62) :
    ∃ w, (script {}).Visits Step (numberedStart small) w ∧
      LoggedBy (nodeCommits (numberedNodes count)) (firstName count) (numberedStart small) w := by
  have nothing := numberedStart_logless small
  have held : (numberedStart small).get (pidPath logPidName) = none := numberedStart_only small (by rintro ⟨⟩)
  obtain ⟨w₁, caught, advanced⟩ := @catchup_does {} (numberedStart small) (fun _ => held) 0
    (fun w' same => (nothing.same same).newest) (by decide)
  obtain ⟨n, rfl⟩ : ∃ n, count = n + 1 := ⟨count - 1, by omega⟩
  have last : (nodeCommits (numberedNodes (n + 1))).getLast? = Option.some ⟨n + 1, [numberedNode n]⟩ := by
    rw [numberedNodes_succ, nodeCommits, List.map_append, List.map_singleton, List.getLast?_concat]
  have objects : Commit.objects (nodeCommits (numberedNodes (n + 1))) ≠ [] := by
    rw [numberedNodes_objects, List.range_succ, List.map_append]
    exact List.append_ne_nil_of_right_ne_nil _ (List.cons_ne_nil _ _)
  have pending : w₁.pending = nodeCommits (numberedNodes (n + 1)) :=
    (pending_same advanced.wal (advanced.slot.trans (Nat.max_zero _))).trans
      (List.filter_eq_self.mpr (fun commit member => decide_eq_true (numberedNodes_lsn member).1))
  obtain ⟨w, logs, logged⟩ := @getLog_does {} w₁ (fun _ => (advanced.get _).trans held)
    _ _ (numberedNodes_sent (n + 1))
    pending objects _ last 1584541129 ((advanced.get _).trans (nothing.free _))
  exact ⟨w, caught.then_visits (logs.then_visits (.start _ _)), logged.after_catchup advanced⟩

/-- The last node is committed. -/
def withLastNode (count : Nat) (w : World) : World := { w with wal := w.wal ++ [⟨count + 1, [numberedNode count]⟩] }

theorem names_named {lsn : Nat} (small : lsn < 2 ^ 64) (time : Timestamp) :
    isLog (replicationLogName (lsnStr lsn) time) = true ∧
    lsnOfName (replicationLogName (lsnStr lsn) time) = .ok lsn :=
  ⟨isLog_replicationLogName _ _, lsnOfName_replicationLogName small time⟩

section LastNode

variable {count : Nat} {w w' : World} {data : Text}

theorem firstName_named (small : count + 1 ≤ 2 ^ 62) : isLog (firstName count) = true ∧
    lsnOfName (firstName count) = .ok count :=
  names_named (by omega) 1584541129

theorem laterName_named (small : count + 1 ≤ 2 ^ 62) : isLog (laterName count) = true ∧
    lsnOfName (laterName count) = .ok (count + 1) :=
  names_named (by omega) 1584541130

theorem firstName_lt_laterName : firstName count < laterName count := replicationLogName_earlier (by decide)

theorem laterName_ne_firstName : laterName count ≠ firstName count := fun same =>
    lt_irrefl _ (same ▸ firstName_lt_laterName)

/-- The slot is caught up to the first file. -/
private theorem withLastNode_caughtUp (small : count + 1 ≤ 2 ^ 62) (one : NamedLogs [(firstName count, count)] w)
    (held : w.get (pidPath logPidName) = none) :
    ∃ w', Ends (catchup {} 0) (withLastNode count w) (.ok ()) w' ∧ AdvancedTo count (withLastNode count w) w' := by
  have parsed : parseLsn (lsnStr count) = .ok count := parseLsn_lsnText (.inr rfl) (by omega)
  have free : (withLastNode count w).get (pidPath logPidName) = none := held
  refine catchup_does (fun _ => free) (fun w' same => ?_) parsed
  have newest := (one.same same).newest
  rwa [List.map_singleton, List.foldl_cons, List.foldl_nil, Nat.zero_max] at newest

/-- The last node is all that is behind the slot then. -/
theorem AdvancedTo.pending (caught : AdvancedTo count (withLastNode count w) w')
    (wal : w.wal = nodeCommits (numberedNodes count)) (zero : w.slot = 0) :
    w'.pending = nodeCommits [(count + 1, numberedNode count)] := by
  have slot : w'.slot = count := by
    rw [caught.slot]
    change max w.slot count = count
    rw [zero, Nat.zero_max]
  have written : w'.wal = nodeCommits (numberedNodes count) ++ [⟨count + 1, [numberedNode count]⟩] := by
    rw [caught.wal, withLastNode, wal]
  have before : (nodeCommits (numberedNodes count)).filter (fun commit => decide (count < commit.lsn)) = [] := by
    refine List.filter_eq_nil_iff.mpr (fun commit member => ?_)
    have := (numberedNodes_lsn member).2
    simpa using this
  rw [World.pending, slot, written, List.filter_append, before, List.nil_append]
  simp [nodeCommits]

private theorem lastNode_logs (one : NamedLogs [(firstName count, count)] w) (held : w.get (pidPath logPidName) = none)
    (pending : w.pending = nodeCommits [(count + 1, numberedNode count)]) :
    ∃ w', Ends (getLog {} {}) w (.ok ()) w' ∧
      LoggedBy (nodeCommits [(count + 1, numberedNode count)]) (laterName count) w w' := by
  have free : w.get (newLog (laterName count)) = none := one.free _
  have sent : Sent (nodeCommits [(count + 1, numberedNode count)])
      (peekRows (nodeInsertions [(count + 1, numberedNode count)])) :=
    sent_nodes (fun node member => by rw [List.mem_singleton.mp member]; rfl)
  have objects : Commit.objects (nodeCommits [(count + 1, numberedNode count)]) ≠ [] := List.cons_ne_nil _ _
  exact @getLog_does {} _ (fun _ => held) _ _ sent pending objects ⟨count + 1, [numberedNode count]⟩
    rfl 1584541130 free

/-- The slot is caught up to the second file, too. -/
private theorem lastNode_caughtUp (small : count + 1 ≤ 2 ^ 62)
    (two : NamedLogs [(firstName count, count), (laterName count, count + 1)] w)
    (held : w.get (pidPath logPidName) = none) : ∃ w', Ends (catchup {} 0) w (.ok ()) w' ∧
        AdvancedTo (count + 1) w w' := by
  have parsed : parseLsn (lsnStr (count + 1)) = .ok (count + 1) := parseLsn_lsnText (.inr rfl) (by omega)
  refine catchup_does (fun _ => held) (fun w' same => ?_) parsed
  have newest := (two.same same).newest
  rwa [List.map_cons, List.map_singleton, List.foldl_cons, List.foldl_cons, List.foldl_nil, Nat.zero_max,
    Nat.max_eq_right (Nat.le_succ count)] at newest

/-- create-diff finds both files and reads the first one only. -/
private theorem lastNode_taking (many : 4294967295 < count) (small : count + 1 ≤ 2 ^ 62)
    (two : NamedLogs [(firstName count, count), (laterName count, count + 1)] w)
    (stored : w.get ⟨.log, firstName count⟩ = some (.text data))
    (entries : logEntries data = .ok ((List.range count).map numberedNode)) :
    Taking {} w [(firstName count, data)] [laterName count] := by
  refine ⟨⟨[firstName count, laterName count], ⟨fun wrong => absurd rfl wrong, fun _ => ?_, fun _ name => ?_⟩, ?_⟩,
    ?_, ?_, by simp⟩
  · exact List.nodup_cons.mpr ⟨by rw [List.mem_singleton]; exact laterName_ne_firstName.symm, List.nodup_singleton _⟩
  · rw [show (w.get ⟨.log, name⟩).isSome ↔ name ∈ [firstName count, laterName count] from two.there name]
    refine ⟨fun member => ⟨?_, member⟩, And.right⟩
    rcases List.mem_pair.mp member with rfl | rfl
    · exact (firstName_named small).1
    · exact (laterName_named small).1
  · refine (List.Pairwise.insertionSort_eq ?_).symm
    exact List.pairwise_pair.mpr firstName_lt_laterName.le
  · intro source member
    rw [List.mem_singleton.mp member]
    exact stored
  · refine ⟨⟨[], rfl, Nat.zero_le _⟩, ⟨_, (readEntries_single data).trans entries, fun _ => ?_⟩⟩
    rw [List.length_map, List.length_range]
    exact many

private theorem lastNode_writable (some : 0 < count) (small : count + 1 ≤ 2 ^ 62)
    (tables : w.tables = (numberedStart small).tables)
    (kept : ∀ path, path.dir ≠ .log → w.get path = (numberedStart small).get path) :
    Writable {} ((List.range count).map numberedNode) w := by
  refine @numberedRows_writable (count + 1) _ ?_ (fun obj member => ?_) _ ?_ ?_ ?_
  · rw [ne_eq, List.map_eq_nil_iff, List.range_eq_nil]
    omega
  · obtain ⟨i, _, rfl⟩ := List.mem_map.mp member
    rfl
  · rw [tables]
    rfl
  · exact kept _ (by rintro ⟨⟩)
  · rintro path (rfl | rfl | rfl) <;> exact (kept _ (by rintro ⟨⟩)).trans (numberedStart_only small (by rintro ⟨⟩))

theorem LoggedBy.keeps {commits : List Commit} {name : Text} (logged : LoggedBy commits name w w') {path : Path}
    (notLog : path.dir ≠ .log) : w'.get path = w.get path := by
  have away (name : Text) : path ≠ ⟨.log, name⟩ := by
    rintro rfl
    exact notLog rfl
  exact logged.others path (away _) (away _)

/-- The file of the first execution stays as it is. -/
theorem LoggedBy.keeps_first {commits : List Commit} (small : count + 1 ≤ 2 ^ 62)
    (logged : LoggedBy commits (laterName count) w w') :
    w'.get ⟨.log, firstName count⟩ = w.get ⟨.log, firstName count⟩ := by
  refine logged.others _ (fun same => laterName_ne_firstName (congrArg Path.name same).symm) (fun same => ?_)
  have wrong := (firstName_named small).1
  rw [show firstName count = laterName count ++ ".new".toList from congrArg Path.name same, isLog_new] at wrong
  cases wrong

/-- create-diff stops reading after the first log file. -/
private theorem lastNode_left_out (many : 4294967295 < count) (small : count + 1 ≤ 2 ^ 62)
    (logged : LoggedBy (nodeCommits (numberedNodes count)) (firstName count) (numberedStart small) w) :
    ∃ w' data, (script {}).Visits Step (withLastNode count w) w' ∧ w'.wal = (withLastNode count w).wal ∧
      logEntries data = .ok ((List.range count).map numberedNode) ∧ ∃ moved ∈ w'.renames,
        moved.newName.dir = .changes ∧
        moved.returned = [numberedNode count] ∧ ∃ objects, moved.content = .osc [(firstName count, data)] objects := by
  obtain ⟨data, stored, entries⟩ := logged.file
  rw [numberedNodes_objects] at entries
  have some : 0 < count := by omega
  have free (path : Path) (run : path.dir = .run) : w.get path = none := by
    rw [logged.keeps (by rw [run]; decide)]
    exact numberedStart_only small (by rintro rfl; cases run)
  have one : NamedLogs [(firstName count, count)] w :=
    (numberedStart_logless small).logged logged (firstName_named small) List.not_mem_nil
  obtain ⟨w₃, caught, advanced⟩ := withLastNode_caughtUp small one (free _ rfl)
  have same (path : Path) : w₃.get path = w.get path := advanced.get path
  obtain ⟨w₄, logs, again⟩ := lastNode_logs (one.same (fun name => same _)) ((same _).trans (free _ rfl))
    (advanced.pending logged.wal logged.slot)
  have two : NamedLogs ([(firstName count, count)] ++ [(laterName count, count + 1)]) w₄ := by
    refine (one.same (fun name => same _)).logged again (laterName_named small) ?_
    rw [List.map_singleton, List.mem_singleton]
    exact laterName_ne_firstName
  have kept (path : Path) (notLog : path.dir ≠ .log) : w₄.get path = w.get path :=
    (again.keeps notLog).trans (same path)
  obtain ⟨w₅, caughtAgain, advanced'⟩ :=
    lastNode_caughtUp small two ((kept _ (by rintro ⟨⟩)).trans (free (pidPath logPidName) rfl))
  have stored₅ : w₅.get ⟨.log, firstName count⟩ = Option.some (.text data) :=
    (advanced'.get _).trans ((again.keeps_first small).trans ((same _).trans stored))
  have taking := lastNode_taking many small (two.same (fun name => advanced'.get _)) stored₅ entries
  have writable : Writable {} ((List.range count).map numberedNode) w₅ := by
    refine lastNode_writable some small ?_ (fun path notLog => ?_)
    · exact advanced'.tables.trans (again.tables.trans (advanced.tables.trans logged.tables))
    · exact (advanced'.get path).trans ((kept path notLog).trans (logged.keeps notLog))
  have nonempty : (List.range count).map numberedNode ≠ [] := by
    rw [ne_eq, List.map_eq_nil_iff, List.range_eq_nil]
    omega
  have held : w₅.get (pidPath "osmdbt-create-diff".toList) = none :=
    (advanced'.get _).trans ((kept _ (by rintro ⟨⟩)).trans (free _ rfl))
  obtain ⟨w', state, objects, visits, wal, renames⟩ := @createDiff_publishes {} {} w₅ _ _ _ (fun _ => held)
    rfl rfl taking
    ((readEntries_single data).trans entries) nonempty writable
  refine ⟨w', data, caught.then_visits (logs.then_visits (caughtAgain.then_visits visits)),
    wal.trans (advanced'.wal.trans (again.wal.trans advanced.wal)), entries,
    ⟨newChangeFile, state.changeFile, .osc [(firstName count, data)] (Option.some objects), w₅.returned⟩, ?_, rfl,
    advanced'.returned.trans again.returned, _, rfl⟩
  rw [renames]
  exact List.mem_append_right _ (List.mem_singleton_self _)

end LastNode

private theorem withLastNode_inserted {count : Nat} (small : count + 1 ≤ 2 ^ 62) {w : World}
    (wal : w.wal = nodeCommits (numberedNodes count)) :
    (withLastNode count w).InsertedOnce := by
  have objects : Commit.objects (withLastNode count w).wal = (List.range (count + 1)).map numberedNode := by
    rw [← numberedNodes_objects, numberedNodes_succ, withLastNode, wal, nodeCommits, nodeCommits, List.map_append]
    rfl
  intro type k
  rw [objects]
  refine occurrences_of_distinct ?_ type k
  rw [List.map_map]
  refine List.Nodup.of_map Prod.snd ?_
  rw [List.map_map]
  exact numberedKeys_nodup small

/-- A published diff without the last node that get-log returned. -/
theorem lastNode_unpublished {count : Nat} (many : 4294967295 < count) (small : count + 1 ≤ 2 ^ 62) :
    ∃ start w', NothingWritten start ∧
      Relation.ReflTransGen (Sequential Step Commits (Cycle {})) (start, none) (w', none) ∧ w'.InsertedOnce ∧
      ∃ moved ∈ w'.renames, moved.newName.dir = .changes ∧ ∃ sources objects, moved.content = .osc sources objects ∧
        ∃ obj ∈ moved.returned, ¬ ∃ source ∈ sources, ∃ entries, logEntries source.2 = .ok entries ∧
          obj ∈ entries := by
  have some : 0 < count := by omega
  obtain ⟨w, first, logged⟩ := numberedStart_logs some small
  obtain ⟨w', data, second, wal, entries, moved, member, changes, returned, objects, content⟩ :=
    lastNode_left_out many small logged
  have commits : Commits w (withLastNode count w) := by
    refine .commit w ⟨count + 1, [numberedNode count]⟩ w.tables (fun commit inside => ?_) ?_
    · rw [logged.wal] at inside
      exact Nat.lt_succ_of_le (numberedNodes_lsn inside).2
    · change count + 1 < 2 ^ 64
      omega
  have once : w'.InsertedOnce := by
    have inserted := withLastNode_inserted small logged.wal
    rwa [World.InsertedOnce, ← wal] at inserted
  have runs {w w' : World} (visits : (script {}).Visits Step w w') :
      Relation.ReflTransGen (Sequential Step Commits (Cycle {})) (w, none) (w', none) :=
    Program.Visits.stopped ⟨rfl, .refl _⟩ visits
  have reached := (runs first).trans ((Relation.ReflTransGen.single (.env commits)).trans (runs second))
  refine ⟨_, w', numberedStart_fresh small, reached, once, moved, member, changes, _, objects, content,
    numberedNode count, ?_, ?_⟩
  · rw [returned]
    exact List.mem_singleton_self _
  rintro ⟨source, own, found, read, inside⟩
  rw [List.mem_singleton.mp own, entries] at read
  cases read
  obtain ⟨i, below, same⟩ := List.mem_map.mp inside
  have range := List.mem_range.mp below
  have equal := numberedNode_key_inj (by omega) (by omega) (congrArg Osmobj.key same)
  omega

theorem firstCycle_visits : (script {}).Visits Step firstChange firstPublished := by
  obtain ⟨caught, logged⟩ := firstChange_logged
  obtain ⟨caughtAgain, published, _⟩ := firstLogged_published
  have last := (answering_ends published).visits
  exact (answering_ends caught).then_visits
    ((answering_ends logged).then_visits ((answering_ends caughtAgain).then_visits last))

private theorem firstPublished_returned : firstPublished.InsertedOnce ∧
    (firstPublished.renames.filter (fun moved => moved.diff.isSome)).map Rename.returned = [[⟨.node, 1, 1, 10⟩]] := by
  obtain ⟨inserted, returned⟩ : Commit.objects firstPublished.wal = [⟨.node, 1, 1, 10⟩] ∧
      (firstPublished.renames.filter (fun moved => moved.diff.isSome)).map Rename.returned =
        [[⟨.node, 1, 1, 10⟩]] := by
    decide +kernel
  refine ⟨fun type k => ?_, returned⟩
  rw [inserted]
  exact occurrences_of_distinct (by decide) type k

/-- A run that publishes the node that was inserted, and a run that comes to a diff without the last node. -/
theorem cycle_exactly_once_run :
    (firstPublished.PublishedOnce ∧ ∃ moved ∈ firstPublished.renames, moved.newName.dir = .changes ∧
      moved.returned = [⟨.node, 1, 1, 10⟩] ∧ ∃ sources objects, moved.content = .osc sources objects ∧
        Complete sources moved.returned) ∧
    ∃ w : World, w.InsertedOnce ∧ w.PublishedOnce ∧
      ∃ moved ∈ w.renames, moved.newName.dir = .changes ∧ moved.returned ≠ [] ∧ ∃ sources objects,
        moved.content = .osc sources objects ∧
        Complete sources moved.returned := by
  constructor
  · have reached : Relation.ReflTransGen (Sequential Step Commits (Cycle {})) (firstChange, none)
      (firstPublished, none) :=
      Program.Visits.stopped ⟨rfl, Untouched.refl _⟩ firstCycle_visits
    have everything := @cycle_exactly_once {} firstChange (firstPublished, none) firstChange_fresh reached
    dsimp only at everything
    obtain ⟨_, published, complete⟩ := everything
    obtain ⟨once, returned⟩ := firstPublished_returned
    obtain ⟨moved, _, found, answer, _⟩ := List.map_eq_cons_iff.mp returned
    obtain ⟨member, isDiff⟩ := List.mem_filter.mp (found ▸ List.mem_cons_self :
      moved ∈ firstPublished.renames.filter _)
    obtain ⟨changes, sources, objects, content⟩ := Rename.isChange isDiff
    exact ⟨(published once).1, moved, member, changes, answer, sources, objects, content,
      complete moved member changes sources objects content⟩
  · obtain ⟨start, w, fresh, reached, once, moved, member, changes, sources, objects, content, obj, returned, _⟩ :=
      @lastNode_unpublished 4294967296 (by decide) (by decide)
    obtain ⟨_, published, complete⟩ := cycle_exactly_once {} fresh reached
    exact ⟨w, once, (published once).1, moved, member, changes, List.ne_nil_of_mem returned, sources, objects, content,
      complete moved member changes sources objects content⟩

/-- With more log entries than create-diff reads, an insert that get-log returned is left out. -/
theorem cycle_leaves_out : ¬ ∀ (config : Config) (start : World) (current : World × Option (Prog Unit)),
    NothingWritten start →
    Relation.ReflTransGen (Sequential Step Commits (Cycle config)) (start, none) current → current.1.InsertedOnce →
    (current.1.PublishedOnce ∧ ∀ objects ∈ current.1.diffs, ∀ type, (objects.keys type).Nodup) ∧
    ∀ moved ∈ current.1.renames, moved.newName.dir = .changes → ∀ sources objects,
      moved.content = .osc sources objects →
      ∀ obj ∈ moved.returned, ∃ source ∈ sources, ∃ entries, logEntries source.2 = .ok entries ∧ obj ∈ entries := by
  intro exact
  obtain ⟨start, w', fresh, reached, once, moved, member, changes, sources, objects, content, obj,
      returned, missing⟩ :=
    @lastNode_unpublished 4294967296 (by decide) (by decide)
  exact missing ((exact {} start (w', none) fresh reached once).2 moved member changes sources objects
    content obj returned)

end Osmdbt
