import Osmdbt.System.Books
import Osmdbt.Diff.Locked
import Mathlib.Algebra.Order.BigOperators.Group.List

/-! create-diff beside the other programs: while one process repeats catchup, get-log
and catchup, another one runs create-diff whenever it likes. -/

namespace Osmdbt

open General

/-- The program the log process runs next. -/
inductive Turn where
  | catchUp
  | getLog
  | catchUpAgain
  deriving DecidableEq, Repr

/-- Complete runs of both processes, and transactions that commit before, after and
during them. `may` says when create-diff is started. -/
inductive Parallel (config : Config) (may : World → Prop) : World × Turn → World × Turn → Prop where
  | commit {w w' : World} {turn : Turn} (commits : Commits w w') : Parallel config may (w, turn) (w', turn)
  | catchUp {w w' : World} (run : Execution Step Commits (catchup config 0) w (.ok ()) w') :
      Parallel config may (w, .catchUp) (w', .getLog)
  | getLog {w w' : World} {options : GetLogOptions} (waits : options.catchup = false)
      (run : Execution Step Commits (getLog config options) w (.ok ()) w') :
      Parallel config may (w, .getLog) (w', .catchUpAgain)
  | catchUpAgain {w w' : World} (run : Execution Step Commits (catchup config 0) w (.ok ()) w') :
      Parallel config may (w, .catchUpAgain) (w', .catchUp)
  | createDiff {w w' : World} {turn : Turn} {options : CreateDiffOptions} {result : Except Fault Unit}
      (given : options.logFileNames = []) (allowed : may w)
      (run : Execution Step Commits (createDiff config options) w result w') : Parallel config may (w, turn) (w', turn)

/-- No log file was written so far, and no diff was published. -/
structure NothingWritten (w : World) : Prop where
  streams : w.Streams
  renames : w.renames = []
  files : ∀ name content, ¬ LogFile w name content

/-- The slot is not behind any log file that waits for create-diff. -/
def CaughtUp (w : World) : Prop :=
  ∀ name, isLog name = true → (w.get ⟨.log, name⟩).isSome → ∃ lsn ≤ w.slot, lsnOfName name = .ok lsn

/-- No object version is in two published diffs. -/
def World.PublishedOnce (w : World) : Prop :=
  w.diffs.Pairwise (fun early late => ∀ type k, k ∈ early.keys type → k ∉ late.keys type)

/-- Every object version was inserted once. -/
def World.InsertedOnce (w : World) : Prop := ∀ type k, occurrences type k (Commit.objects w.wal) ≤ 1

theorem pairwise_of_count {diffs : List DiffObjects}
    (once : ∀ type k, (diffs.map (fun objects => (objects.keys type).count k)).sum ≤ 1) :
    diffs.Pairwise (fun early late => ∀ type k, k ∈ early.keys type → k ∉ late.keys type) := by
  induction diffs with
  | nil => exact .nil
  | cons diff rest ih =>
    refine List.pairwise_cons.mpr ⟨fun late member type k early again => ?_, ih (fun type k => ?_)⟩
    · have total := once type k
      rw [List.map_cons, List.sum_cons] at total
      have here := List.count_pos_iff.mpr early
      have there := List.count_pos_iff.mpr again
      have below : (late.keys type).count k ≤ (rest.map (fun objects => (objects.keys type).count k)).sum :=
        List.le_sum_of_mem (List.mem_map_of_mem member)
      omega
    · have total := once type k
      rw [List.map_cons, List.sum_cons] at total
      omega

theorem NothingWritten.balanced {agrees : List (Text × Text) → List Osmobj → Prop} {w : World}
    (fresh : NothingWritten w) :
    Balanced agrees (fun _ => []) none w := by
  have free {name : Text} (log : isLog name = true) : w.get ⟨.log, name⟩ = none ∧ w.get (doneFile name) = none := by
    refine ⟨Option.eq_none_iff_forall_ne_some.mpr (fun content here => fresh.files name content ⟨log, .inl here⟩), ?_⟩
    exact Option.eq_none_iff_forall_ne_some.mpr (fun content here => fresh.files name content ⟨log, .inr here⟩)
  have unpublished : Unpublished w := ⟨fresh.renames, fun name log => (free log).2⟩
  refine ⟨⟨fresh.streams, fun _ => List.nil_sublist _, (fun _ _ _ _ none => nomatch none), fun _ wrong =>
    absurd rfl wrong, ?_, ?_,
    (fun _ _ _ none => nomatch none)⟩, ?_, (fun _ wrong => nomatch wrong), ?_⟩
  · intro name content log stored
    rw [(free log).1] at stored
    cases stored
  · intro name log there
    rw [(free log).2] at there
    cases there
  · intro moved member
    rw [fresh.renames] at member
    cases member
  · have files := unpublished.logFiles
    cases lock : w.get lockFile with
    | none => exact .inl ⟨lock, files⟩
    | some content =>
      refine .inr ⟨by rw [lock]; rfl, fun name _ => ?_⟩
      simp [World.timesPublished, fresh.renames]

theorem Balanced.caught {agrees : List (Text × Text) → List Osmobj → Prop} {ledger : Ledger}
    {plan : Option Plan} {w : World}
    (balanced : Balanced agrees ledger plan w) (caughtUp : CaughtUp w) : ledger.Caught w := by
  intro name commit member
  obtain ⟨log, last, _, own, largest⟩ := balanced.files.named name (List.ne_nil_of_mem member)
  cases stored : w.get ⟨.log, name⟩ with
  | none => exact balanced.files.caught name stored commit member
  | some content =>
    obtain ⟨lsn, below, named⟩ := caughtUp name log (by rw [stored]; rfl)
    obtain rfl : last.lsn = lsn := Except.ok.inj (own.symm.trans named)
    exact (largest commit member).trans below

section Kept

/-- Nothing has to be said of what get-log returned. -/
abbrev Anyhow (_ : List (Text × Text)) (_ : List Osmobj) : Prop := True

/-- The books between two runs. -/
def Parallel.Kept (c : World × Turn) : Prop :=
  ∃ ledger, Balanced Anyhow ledger none c.1 ∧ (c.2 = .getLog → ledger.Caught c.1)

theorem bookRules_follows {agrees : List (Text × Text) → List Osmobj → Prop} {w w' : World} (t : Option Plan × Books)
    (commits : Commits w w') : ∃ t', (bookRules agrees).rely (w, t) (w', t') := ⟨t, commits, rfl⟩

theorem Parallel.kept {config : Config} {c c' : World × Turn} (kept : Parallel.Kept c)
    (step : Parallel config CaughtUp c c') :
    Parallel.Kept c' := by
  obtain ⟨ledger, balanced, caught⟩ := kept
  have everything : Steady (fun _ _ => True) := Steady.const
  cases step with
  | @commit w w' turn commits =>
    exact ⟨ledger, balanced.commits commits, fun here => Ledger.Caught.commits commits (caught here)⟩
  | catchUp run =>
    have before : Resting Anyhow (fun _ _ => True) (_, (none, ⟨ledger, []⟩)) := ⟨rfl, balanced, trivial⟩
    have safe := catchup_books config everything (fun _ => trivial) _ before
    obtain ⟨t, resting⟩ := Execution.post bookRules_follows run safe
    exact ⟨t.2.ledger, resting.balanced, fun _ => resting.fact.1⟩
  | getLog waits run =>
    have before : (bookStations Anyhow).ready (_, (none, ⟨ledger, []⟩)) := ⟨rfl, balanced, caught rfl⟩
    have safe := getLog_triple (bookStations_sound waits) config _ before
    obtain ⟨t, resting⟩ := Execution.post bookRules_follows run safe
    exact ⟨t.2.ledger, resting.balanced, fun wrong => by cases wrong⟩
  | catchUpAgain run =>
    have before : Resting Anyhow (fun _ _ => True) (_, (none, ⟨ledger, []⟩)) := ⟨rfl, balanced, trivial⟩
    have safe := catchup_books config everything (fun _ => trivial) _ before
    obtain ⟨t, resting⟩ := Execution.post bookRules_follows run safe
    exact ⟨t.2.ledger, resting.balanced, fun wrong => by cases wrong⟩
  | @createDiff w w' turn options result given allowed run =>
    have rules : Ready (fun c : World × Books => c.2.ledger.Caught c.1) :=
      ⟨fun others here name commit member => others.slot ▸ here name commit member,
        fun same here name commit member => same.slot ▸ here name commit member⟩
    have before : Before (fun c : World × Books => c.2.ledger.Caught c.1) (fun _ _ => False) ⟨ledger, []⟩
      (fun _ => True)
        (w, (none, ⟨ledger, []⟩)) := ⟨rfl, balanced.caught allowed, (fun _ wrong => wrong.elim), trivial⟩
    have kept : InBalance Anyhow (w, (none, ⟨ledger, []⟩)) := balanced
    obtain ⟨t, ended⟩ := Execution.post bookRules_follows run
      (createDiff_books given (fun _ _ here => here) (fun _ _ _ _ _ _ => trivial) rules kept before)
    cases result with
    | ok _ => exact ⟨t.2.ledger, ended.2.1.idle ended.1, fun _ => ended.2.2⟩
    | error _ => exact ⟨t.2.ledger, ended.2.1.idle ended.1, fun _ => ended.2.2⟩

end Kept

/-- When create-diff is only started while everything in its log files has been caught up, no
object version is published more often than it was inserted. -/
theorem parallel_publishes_once (config : Config) {start current : World} {turn : Turn} (fresh : NothingWritten start)
    (reached : Relation.ReflTransGen (Parallel config CaughtUp) (start, .catchUp) (current, turn)) :
    (∀ type k, current.timesWritten type k ≤ occurrences type k (Commit.objects current.wal)) ∧
      (current.InsertedOnce → current.PublishedOnce) := by
  have kept : Parallel.Kept (current, turn) := by
    refine Relation.ReflTransGen.head_induction_on (motive := fun c _ => Parallel.Kept c →
      Parallel.Kept (current, turn)) reached
      id (fun step _ rest here => rest (Parallel.kept here step)) ⟨_, fresh.balanced, fun wrong => by cases wrong⟩
  obtain ⟨ledger, balanced, _⟩ := kept
  have counts := balanced.atMostOnce
  exact ⟨counts, fun once => pairwise_of_count (fun type k => (counts type k).trans (once type k))⟩

/-- The first node is committed, and nothing was ever published. -/
def firstChange : World where
  files := [(stateFile, .text "sequenceNumber=7\ntimestamp=2020-03-18T14\\:18\\:49Z\n".toList)]
  wal := nodeCommits (twoChanges.take 1)
  tables := { twoNodes with keys := twoNodes_schema }

theorem answering_runs {count : Nat} {program : Prog Unit} {w : World}
    (ran : (answering count program w).1 = some (.ok ())) :
    Execution Step Commits program w (.ok ()) (answering count program w).2 :=
  Program.Ends.execution (answering_ends ran)

/-- catchup and get-log; the log process has one more catchup to run. -/
def firstLogged : World := (answering 1 (getLog {} {}) (answering 0 (catchup {} 0) firstChange).2).2

/-- It catches up, and then create-diff publishes what is in the log file. -/
def firstPublished : World := (answering 0 (createDiff {} {}) (answering 0 (catchup {} 0) firstLogged).2).2

/-- create-diff was faster, and both catchups find no log file. -/
def missedRound : World :=
  (answering 0 (catchup {} 0) (answering 0 (catchup {} 0) (answering 0 (createDiff {} {}) firstLogged).2).2).2

/-- The second node is committed. -/
def secondChange : World := { missedRound with wal := missedRound.wal ++ nodeCommits (twoChanges.drop 1) }

/-- get-log writes the first node again, and create-diff publishes it again. -/
def publishedAgain : World := (answering 0 (createDiff {} {}) (answering 2 (getLog {} {}) secondChange).2).2

theorem firstChange_only {path : Path} {content : Content} (here : firstChange.get path = some content) :
    path = stateFile := by
  by_contra other
  have miss : (path == stateFile) = false := beq_eq_false_iff_ne.mpr other
  rw [World.get, firstChange, List.lookup_cons, miss] at here
  cases here

theorem firstChange_fresh : NothingWritten firstChange := by
  refine ⟨⟨by decide, by decide⟩, rfl, fun name content => ?_⟩
  rintro ⟨_, here | here⟩
  · cases firstChange_only here
  · cases firstChange_only here

theorem firstChange_logged : (answering 0 (catchup {} 0) firstChange).1 = some (.ok ()) ∧
    (answering 1 (getLog {} {}) (answering 0 (catchup {} 0) firstChange).2).1 = some (.ok ()) := by
  decide +kernel

theorem firstLogged_published : (answering 0 (catchup {} 0) firstLogged).1 = some (.ok ()) ∧
    (answering 0 (createDiff {} {}) (answering 0 (catchup {} 0) firstLogged).2).1 = some (.ok ()) ∧
    (answering 0 (catchup {} 0) firstLogged).2.names .log = ["osm-repl-2020-03-18T14:18:49Z-lsn-0-40.log".toList] ∧
    lsnOfName "osm-repl-2020-03-18T14:18:49Z-lsn-0-40.log".toList = .ok 64 ∧
    (answering 0 (catchup {} 0) firstLogged).2.slot = 64 ∧
    firstPublished.diffs.map (fun objects => objects.keys .node) = [[⟨1, 1⟩]] := by
  decide +kernel

private theorem firstPublished_reached :
    Relation.ReflTransGen (Parallel {} CaughtUp) (firstChange, .catchUp) (firstPublished, .catchUp) := by
  obtain ⟨caught, logged⟩ := firstChange_logged
  obtain ⟨caughtAgain, published, names, lsn, slot, _⟩ := firstLogged_published
  have caughtUp : CaughtUp (answering 0 (catchup {} 0) firstLogged).2 := by
    intro name _ there
    rw [← World.mem_names, names, List.mem_singleton] at there
    exact ⟨64, slot.ge, there ▸ lsn⟩
  refine .head (.catchUp (answering_runs caught)) ?_
  refine .head (.getLog rfl (answering_runs logged)) ?_
  refine .head (.catchUpAgain (answering_runs caughtAgain)) ?_
  exact .single (.createDiff rfl caughtUp (answering_runs published))

theorem parallel_publishes_once_node : firstPublished.diffs.map (fun objects => objects.keys .node) = [[⟨1, 1⟩]] ∧
    (∀ type k, firstPublished.timesWritten type k ≤ occurrences type k (Commit.objects firstPublished.wal)) ∧
    (firstPublished.InsertedOnce → firstPublished.PublishedOnce) :=
  ⟨firstLogged_published.2.2.2.2.2, parallel_publishes_once {} firstChange_fresh firstPublished_reached⟩

theorem missedRound_publishes :
    (answering 0 (createDiff {} {}) firstLogged).1 = some (.ok ()) ∧
    (answering 0 (catchup {} 0) (answering 0 (createDiff {} {}) firstLogged).2).1 = some (.ok ()) ∧
    (answering 0 (catchup {} 0) (answering 0 (catchup {} 0) (answering 0 (createDiff {} {}) firstLogged).2).2).1 =
      some (.ok ()) ∧
    (answering 2 (getLog {} {}) secondChange).1 = some (.ok ()) ∧
    (answering 0 (createDiff {} {}) (answering 2 (getLog {} {}) secondChange).2).1 = some (.ok ()) ∧
    missedRound.wal = nodeCommits (twoChanges.take 1) ∧
    publishedAgain.diffs.map (fun objects => objects.keys .node) = [[⟨1, 1⟩], [⟨1, 1⟩, ⟨2, 1⟩]] ∧
    Commit.objects publishedAgain.wal = [⟨.node, 1, 1, 10⟩, ⟨.node, 2, 1, 10⟩] := by
  decide +kernel

private theorem publishedAgain_reached :
    Relation.ReflTransGen (Parallel {} (fun _ => True)) (firstChange, .catchUp) (publishedAgain, .catchUpAgain) := by
  obtain ⟨caught, logged⟩ := firstChange_logged
  obtain ⟨published, missed, missedAgain, loggedAgain, publishedTwice, wal, _⟩ := missedRound_publishes
  have committed : Commits missedRound secondChange := by
    have above : ∀ other ∈ missedRound.wal, other.lsn < 128 := by
      rw [wal]
      decide
    exact .commit missedRound ⟨128, [⟨.node, 2, 1, 10⟩]⟩ missedRound.tables above (by decide)
  refine .head (.catchUp (answering_runs caught)) ?_
  refine .head (.getLog rfl (answering_runs logged)) ?_
  refine .head (.createDiff rfl trivial (answering_runs published)) ?_
  refine .head (.catchUpAgain (answering_runs missed)) ?_
  refine .head (.catchUp (answering_runs missedAgain)) ?_
  refine .head (.commit committed) ?_
  refine .head (.getLog rfl (answering_runs loggedAgain)) ?_
  exact .single (.createDiff rfl trivial (answering_runs publishedTwice))

theorem occurrences_of_distinct {entries : List Osmobj}
    (distinct : (entries.map (fun obj => (obj.type, obj.key))).Nodup)
    (type : ItemType) (k : Key) : occurrences type k entries ≤ 1 := by
  refine le_trans ?_ (List.nodup_iff_count_le_one.mp distinct (type, k))
  rw [occurrences, List.count, List.countP_map]
  refine List.countP_mono_left (fun obj _ here => ?_)
  obtain ⟨rfl, rfl⟩ := of_decide_eq_true here
  exact beq_self_eq_true (obj.type, obj.key)

private theorem publishedAgain_inserted : publishedAgain.InsertedOnce := by
  intro type k
  obtain ⟨_, _, _, _, _, _, _, written⟩ := missedRound_publishes
  rw [written]
  exact occurrences_of_distinct (by decide) type k

/-- create-diff beside get-log can publish an object version twice. -/
theorem parallel_publishes_twice : ¬ ∀ (config : Config) (start current : World) (turn : Turn), NothingWritten start →
    Relation.ReflTransGen (Parallel config (fun _ => True)) (start, .catchUp) (current, turn) →
    current.InsertedOnce → current.PublishedOnce := by
  intro once
  have published := once {} firstChange publishedAgain .catchUpAgain firstChange_fresh publishedAgain_reached
    publishedAgain_inserted
  obtain ⟨_, _, _, _, _, _, keys, _⟩ := missedRound_publishes
  obtain ⟨early, more, diffs, first, rest⟩ := List.map_eq_cons_iff.mp keys
  obtain ⟨late, none, rfl, second, _⟩ := List.map_eq_cons_iff.mp rest
  rw [World.PublishedOnce, diffs] at published
  refine (List.pairwise_cons.mp published).1 late List.mem_cons_self .node ⟨1, 1⟩ ?_ ?_
  · rw [first]
    exact List.mem_cons_self
  · rw [second]
    exact List.mem_cons_self

end Osmdbt
