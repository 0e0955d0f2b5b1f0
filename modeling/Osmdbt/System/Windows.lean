import Osmdbt.General.Consecutive
import Osmdbt.System.Account

/-! The published diffs cut the stream of transactions into pieces, one behind the other. -/

namespace Osmdbt

open General

/-- The log files and the objects of a published diff. -/
def Rename.batch (moved : Rename) : Option (List (Text × Text) × Option DiffObjects) :=
  match moved.newName.dir, moved.content with
  | .changes, .osc sources objects => some (sources, objects)
  | _, _ => none

/-- The published diffs, in order. -/
def World.batches (w : World) : List (List (Text × Text) × Option DiffObjects) := w.renames.filterMap Rename.batch

/-- A diff that was made from exactly the inserts between two positions. -/
def Window (wal : List Commit) (cut next : Nat) (batch : List (Text × Text) × Option DiffObjects) : Prop :=
  ∃ entries objects, readEntries (batch.1.map Prod.snd) = .ok entries ∧ batch.2 = some objects ∧
    (∀ type k, (objects.keys type).count k ≤ occurrences type k entries) ∧
    entries.Perm (Commit.objects (wal.filter (fun commit => cut < commit.lsn ∧ commit.lsn ≤ next)))

/-- All inserts together are no more than create-diff takes for one diff. -/
def Fits (w : World) : Prop := (Commit.objects w.wal).length ≤ 4294967295

/-- Up to the position everything is published, and nothing behind it. -/
structure Frontier (origin : Nat) (plan : Option Plan) (ledger : Ledger) (w : World) (cut : Nat) : Prop where
  batches : Consecutive (Window w.wal) origin w.batches cut
  below : cut ≤ w.slot
  reached : Reached origin w cut
  counted : ∀ name, ∀ commit ∈ ledger name, 0 < w.timesPublished name ↔ commit.lsn ≤ cut
  chosen : ∀ current, plan = some current → current.stage = .locked → ledger.Found (· ∈ current.sources.map Prod.fst) w

section Windows

variable {origin cut : Nat} {plan : Option Plan} {ledger : Ledger} {w w' : World}

theorem Ledger.Found.kept {watched : Text → Prop} (found : ledger.Found watched w) (slot : w'.slot = w.slot)
    (renames : w'.renames = w.renames) : ledger.Found watched w' where
  caught name commit member := slot ▸ found.caught name commit member
  there name used := (found.there name used).imp_left (fun times => by rwa [World.timesPublished, renames])

/-- What is published was in the ledger. -/
theorem Balanced.published_used (balanced : Balanced Anyhow ledger plan w) {name : Text}
    (times : 0 < w.timesPublished name) :
    ledger name ≠ [] := by
  have member := World.mem_publishedLogs.mpr times
  rw [World.publishedLogs_names] at member
  exact balanced.diffs.log_used member

/-- Different log files have different transactions. -/
theorem Ledger.Files.distinct (files : ledger.Files w) {names : List Text} (distinct : names.Nodup) :
    (names.flatMap ledger).Nodup := by
  have wal : w.wal.Nodup := files.streams.order.imp (fun less same => less.ne (congrArg Commit.lsn same))
  exact List.nodup_flatMap.mpr ⟨fun name _ => (files.committed name).nodup wal,
    distinct.imp (fun different => files.apart _ _ different)⟩

theorem Ledger.Files.entries_le (files : ledger.Files w) {names : List Text} (distinct : names.Nodup) :
    (Commit.objects (names.flatMap ledger)).length ≤ (Commit.objects w.wal).length := by
  have inside : names.flatMap ledger ⊆ w.wal := by
    intro commit member
    obtain ⟨name, _, among⟩ := List.mem_flatMap.mp member
    exact (files.committed name).subset among
  obtain ⟨front, perm, sublist⟩ := List.subperm_of_subset (files.distinct distinct) inside
  have same : (Commit.objects front).Perm (Commit.objects (names.flatMap ledger)) := perm.flatMap_right _
  exact same.length_eq ▸ (sublist.flatMap _).length_le

/-- One diff is enough. -/
theorem Ledger.Files.no_limit (files : ledger.Files w) (fits : Fits w) {sources : List (Text × Text)}
    (distinct : (sources.map Prod.fst).Nodup) (entered : ∀ source ∈ sources, ledger.Entered source) :
    ¬ LimitReached {} sources := by
  rintro ⟨entries, read, more⟩
  obtain rfl := Except.ok.inj (read.symm.trans (readEntries_entered entered))
  exact absurd (more.trans_le ((files.entries_le distinct).trans fits)) (lt_irrefl _)

theorem batches_rename (w : World) (oldName newName : Path) (content : Content) :
    (w.rename oldName newName content).batches =
      w.batches ++ (Rename.batch ⟨oldName, newName, content, w.returned⟩).toList := by
  change (w.renames ++ [_]).filterMap Rename.batch = _
  rw [List.filterMap_append, List.filterMap_cons, List.filterMap_nil, World.batches]
  cases Rename.batch ⟨oldName, newName, content, w.returned⟩ <;> rfl

/-- A rename that publishes no diff. -/
theorem rename_plain {oldName newName : Path} {content : Content}
    (plain : newName.dir ≠ .changes ∨ ∃ text, content = .text text) :
    (w.rename oldName newName content).batches = w.batches ∧
      ∀ name, (w.rename oldName newName content).timesPublished name = w.timesPublished name := by
  rw [batches_rename]
  rcases plain with elsewhere | ⟨text, rfl⟩
  · refine ⟨?_, fun name => ?_⟩
    · have nothing : Rename.batch ⟨oldName, newName, content, w.returned⟩ = none := by
        unfold Rename.batch
        split
        · rename_i changes _
          exact absurd changes elsewhere
        · rfl
      rw [nothing, Option.toList_none, List.append_nil]
    · rw [timesPublished_rename, if_neg (fun publishes => elsewhere publishes.1), Nat.add_zero]
  · refine ⟨?_, fun name => ?_⟩
    · have nothing : Rename.batch ⟨oldName, newName, .text text, w.returned⟩ = none := by
        unfold Rename.batch
        split
        · rename_i content
          cases content
        · rfl
      rw [nothing, Option.toList_none, List.append_nil]
    · rw [timesPublished_rename, if_neg (fun publishes => List.not_mem_nil publishes.2), Nat.add_zero]

namespace Frontier

variable (here : Frontier origin plan ledger w cut)
include here

theorem kept (wal : w'.wal = w.wal) (slot : w'.slot = w.slot) (renames : w'.renames = w.renames) :
    Frontier origin plan ledger w' cut where
  batches := by
    rw [World.batches, renames, wal]
    exact here.batches
  below := slot ▸ here.below
  reached := by
    rw [Reached, wal]
    exact here.reached
  counted name commit member := by
    rw [World.timesPublished, renames]
    exact here.counted name commit member
  chosen current running locked := (here.chosen current running locked).kept slot renames

theorem stopped : Frontier origin none ledger w cut := { here with chosen := fun _ wrong => by cases wrong }

theorem commits (commits : Commits w w') : Frontier origin plan ledger w' cut := by
  cases commits with
  | commit commit tables above small =>
    have outside : commit.lsn ≤ origin ∨ cut < commit.lsn := by
      rcases here.reached with early | ⟨other, member, bound⟩
      · exact (le_or_gt commit.lsn origin).imp_right early.trans_lt
      · exact .inr (bound.trans_lt (above other member))
    refine ⟨here.batches.imp (fun start next batch after below covered => ?_), here.below, ?_, here.counted,
      fun current running locked => (here.chosen current running locked).kept rfl rfl⟩
    · have filtered : (w.wal ++ [commit]).filter (fun commit => start < commit.lsn ∧ commit.lsn ≤ next) =
          w.wal.filter (fun commit => start < commit.lsn ∧ commit.lsn ≤ next) := by
        rw [List.filter_append, List.filter_singleton, decide_eq_false (by omega), cond_false, List.append_nil]
      rw [Window, filtered]
      exact covered
    · exact here.reached.imp_right (fun ⟨other, member, bound⟩ => ⟨other, List.mem_append_left _ member, bound⟩)

theorem advance (lsn : Nat) : Frontier origin none ledger { w with slot := max w.slot lsn } cut where
  batches := here.batches
  below := here.below.trans (le_max_left _ _)
  reached := here.reached
  counted := here.counted
  chosen _ wrong := by cases wrong

/-- A rename that publishes no diff, in a stage that has no more to choose. -/
theorem rename {oldName newName : Path} {content : Content} {plan' : Option Plan}
    (plain : newName.dir ≠ .changes ∨ ∃ text, content = .text text)
    (later : ∀ current, plan' = some current → current.stage ≠ .locked) :
        Frontier origin plan' ledger (w.rename oldName newName content) cut := by
  obtain ⟨batches, times⟩ := @rename_plain w oldName newName content plain
  refine ⟨?_, here.below, here.reached, fun name commit member => ?_, fun current running locked =>
    absurd locked (later current running)⟩
  · rw [batches]
    exact here.batches
  · rw [times]
    exact here.counted name commit member

/-- A new log file is behind the cut. -/
theorem arrive {sent : List Commit} {name : Text} (balanced : Balanced Anyhow ledger plan w)
    (front : sent <+: w.pending)
    (free : ledger name = []) (content : Content) :
    Frontier origin none (Function.update ledger name sent) (w.rename (newLog name) ⟨.log, name⟩ content) cut := by
  have renamed : Frontier origin none ledger (w.rename (newLog name) ⟨.log, name⟩ content) cut :=
    here.rename (.inl (by rintro ⟨⟩)) (fun _ wrong => by cases wrong)
  refine ⟨renamed.batches, renamed.below, renamed.reached, fun own commit member => ?_, fun _ wrong => by cases wrong⟩
  by_cases same : own = name
  · subst same
    rw [Function.update_self] at member
    have later : w.slot < commit.lsn := by simpa using (List.mem_filter.mp (front.subset member)).2
    have times : ¬ 0 < w.timesPublished own := fun times => balanced.published_used times free
    rw [(rename_plain (.inl (by rintro ⟨⟩))).2]
    exact iff_of_false times (not_le.mpr (here.below.trans_lt later))
  · rw [Function.update_of_ne same] at member
    exact renamed.counted own commit member

/-- The log files of a diff that is about to be published have everything behind the cut. -/
theorem window {plan : Plan} (running : plan.stage = .locked) (balanced : Balanced Anyhow ledger (some plan) w)
    (complete : ledger.Complete origin w) (found : ledger.Found (· ∈ plan.sources.map Prod.fst) w) :
    Window w.wal cut w.slot (plan.sources, some plan.objects) := by
  have files := balanced.files
  have plans := balanced.plans plan rfl
  obtain ⟨_, logs⟩ : (w.get lockFile).isSome ∧ LogFiles (fun _ => False) plan.published plan.waiting w := balanced.once
  have waiting : plan.waiting = plan.sources.map Prod.fst := by rw [Plan.waiting, running]
  have published : plan.published = [] := by rw [Plan.published, running]
  have unpublished {name : Text} (inside : name ∈ plan.sources.map Prod.fst) : ¬ 0 < w.timesPublished name := by
    obtain ⟨log, there⟩ := logs.there name (waiting ▸ inside)
    have account := logs.account name log
    have count := account.count
    rw [published, if_neg List.not_mem_nil, if_neg (fun done => account.single ⟨there, done⟩)] at count
    omega
  obtain ⟨⟨objects, same, entries, read, counts⟩, distinct, entered, _⟩ := plans.publishes
  obtain rfl := Option.some.inj same
  obtain rfl := Except.ok.inj (read.symm.trans (readEntries_entered entered))
  have wal : w.wal.Nodup := files.streams.order.imp (fun less same => less.ne (congrArg Commit.lsn same))
  refine ⟨_, _, read, rfl, counts, List.Perm.flatMap_right _ ?_⟩
  refine (List.perm_ext_iff_of_nodup (files.distinct distinct) (wal.filter _)).mpr (fun commit => ?_)
  rw [List.mem_flatMap, List.mem_filter, decide_eq_true_iff]
  constructor
  · rintro ⟨name, inside, member⟩
    have behind := mt (here.counted name commit member).mpr (unpublished inside)
    exact ⟨(files.committed name).subset member, not_le.mp behind, found.caught name commit member⟩
  · rintro ⟨member, behind, below⟩
    have after := here.batches.forward.trans_lt behind
    obtain ⟨name, inside⟩ := (complete.recorded commit member after).resolve_right
      (fun waits => absurd below (not_le.mpr waits.1))
    have times := mt (here.counted name commit inside).mp (not_le.mpr behind)
    exact ⟨name, (found.there name (List.ne_nil_of_mem inside)).resolve_left times, inside⟩

/-- The diff is published, and the slot is the new cut. -/
theorem publish {plan : Plan} (balanced : Balanced Anyhow ledger (some (plan.at .locked)) w)
    (complete : ledger.Complete origin w)
    (found : ledger.Found (· ∈ plan.sources.map Prod.fst) w) (oldName : Path) :
    Frontier origin (some (plan.at .changeMoved)) ledger (w.rename oldName plan.state.changeFile plan.content)
        w.slot := by
  refine ⟨?_, le_rfl, complete.reached, fun name commit member => ?_, fun current running locked => ?_⟩
  · rw [batches_rename]
    have locked : (plan.at .locked).stage = .locked := rfl
    have window := here.window locked balanced complete found
    exact here.batches.next here.below window
  · refine iff_of_true ?_ (found.caught name commit member)
    rw [timesPublished_rename]
    rcases found.there name (List.ne_nil_of_mem member) with before | inside
    · exact Nat.add_pos_left before _
    · rw [if_pos ⟨rfl, inside⟩]
      exact Nat.succ_pos _
  · obtain rfl := Option.some.inj running
    cases locked

end Frontier

/-- The account is complete, and the diffs are in order as long as one diff is enough for everything. -/
def Orderly (origin : Nat) (plan : Option Plan) (ledger : Ledger) (w : World) : Prop :=
  ledger.Complete origin w ∧ (Fits w → ∃ cut, Frontier origin plan ledger w cut)

theorem Orderly.diffMove {config : Config} {ready : World × Books → Prop} {watch : Books → Text → Prop} {books : Books}
    {plan plan' : Option Plan} (found : ∀ w, ready (w, books) → books.ledger.Found (watch books) w)
    (move : DiffMove config {} ready watch (w, (plan, books)) (w', (plan', books)))
    (balanced : Balanced Anyhow books.ledger plan w)
    (orderly : Orderly origin plan books.ledger w) (fits : Fits w') :
        ∃ cut, Frontier origin plan' books.ledger w' cut := by
  obtain ⟨complete, cuts⟩ := orderly
  cases move with
  | scratch same =>
    obtain ⟨cut, here⟩ := cuts (by rwa [Fits, ← same.wal])
    exact ⟨cut, here.kept same.wal same.slot same.renames⟩
  | @lock _ plan g free prepared ready watched =>
    obtain ⟨cut, here⟩ := cuts fits
    have kept : Frontier origin none books.ledger (w.put lockFile (.text [])) cut := here.kept rfl rfl rfl
    refine ⟨cut, kept.batches, kept.below, kept.reached, kept.counted, fun current running _ => ?_⟩
    obtain rfl := Option.some.inj running
    have known := found w ready
    obtain ⟨distinct, logs⟩ := prepared.names rfl
    have entered : ∀ source ∈ plan.sources, books.ledger.Entered source := by
      intro source inside
      obtain ⟨data, text, entered⟩ := balanced.files.file source.1 _ (logs source inside)
        (prepared.present source inside)
      obtain rfl : source.2 = data := Content.text.inj text
      exact entered
    have noLimit := balanced.files.no_limit fits distinct entered
    refine ⟨known.caught, fun name used => (known.there name used).imp_right (fun watching => ?_)⟩
    exact (watched rfl name watching).resolve_right noLimit
  | during same held =>
    obtain ⟨cut, here⟩ := cuts (by rwa [Fits, ← same.wal])
    exact ⟨cut, here.kept same.wal same.slot same.renames⟩
  | moveChange stored =>
    obtain ⟨cut, here⟩ := cuts fits
    have chosen := here.chosen _ rfl
    exact ⟨w.slot, here.publish balanced complete (chosen rfl) newChangeFile⟩
  | moveState stored =>
    obtain ⟨cut, here⟩ := cuts fits
    exact ⟨cut, here.rename (.inr ⟨_, rfl⟩)
      (fun current running => by obtain rfl := Option.some.inj running; rintro ⟨⟩)⟩
  | moveCopy stored =>
    obtain ⟨cut, here⟩ := cuts fits
    exact ⟨cut, here.rename (.inr ⟨_, rfl⟩)
      (fun current running => by obtain rfl := Option.some.inj running; rintro ⟨⟩)⟩
  | moveLog stored =>
    obtain ⟨cut, here⟩ := cuts fits
    exact ⟨cut, here.rename (.inl (by rintro ⟨⟩))
      (fun current running => by obtain rfl := Option.some.inj running; rintro ⟨⟩)⟩
  | unlock =>
    obtain ⟨cut, here⟩ := cuts fits
    have kept : Frontier origin none books.ledger (w.drop lockFile) cut := here.stopped.kept rfl rfl rfl
    exact ⟨cut, kept⟩

theorem orderly_upheld (origin : Nat) : Upheld (Orderly origin) where
  kept {plan ledger w w'} wal slot renames logs here := by
    have complete : ledger.Complete origin w' :=
      @Upheld.kept _ (complete_upheld origin) plan _ _ _ wal slot renames logs here.1
    refine ⟨complete, fun fits => ?_⟩
    obtain ⟨cut, frontier⟩ := here.2 (by rwa [Fits, ← wal])
    exact ⟨cut, frontier.kept wal slot renames⟩
  commits {plan ledger w w'} commits here := by
    refine ⟨here.1.commits commits, fun fits => ?_⟩
    have fewer : Fits w := by
      cases commits with
      | commit commit tables above small =>
        refine le_trans ?_ fits
        rw [objects_append, List.length_append]
        exact Nat.le_add_right _ _
    obtain ⟨cut, frontier⟩ := here.2 fewer
    exact ⟨cut, frontier.commits commits⟩
  advance {ledger w lsn} target here := by
    refine ⟨here.1.advance target, fun fits => ?_⟩
    obtain ⟨cut, frontier⟩ := here.2 fits
    exact ⟨cut, frontier.advance lsn⟩
  arrive balanced front free content here := by
    refine ⟨here.1.arrive balanced.files front free content, fun fits => ?_⟩
    obtain ⟨cut, frontier⟩ := here.2 fits
    exact ⟨cut, frontier.arrive balanced front free content⟩
  diffMove found move balanced here := ⟨(complete_upheld origin).diffMove found move balanced here.1,
    here.diffMove found move balanced⟩
  stopped here := ⟨here.1, fun fits => (here.2 fits).imp (fun _ frontier => frontier.stopped)⟩
  there here := here.1.there

theorem NothingWritten.orderly (fresh : NothingWritten w) : Orderly w.slot none (fun _ => []) w := by
  have none : w.batches = [] := by rw [World.batches, fresh.renames]; rfl
  refine ⟨NothingWritten.complete, fun _ => ⟨w.slot, ?_, le_rfl, .inl le_rfl, fun _ _ wrong =>
    absurd wrong List.not_mem_nil,
    fun _ wrong => by cases wrong⟩⟩
  rw [none]
  exact .nothing _

end Windows

/-- Over any number of runs of the script, stopped anywhere: the published diffs were made from consecutive
pieces of the stream of transactions, the first right behind where the slot was created, and each has the
inserts of whole transactions and leaves none out. -/
theorem cycle_windows (config : Config) {start : World} {current : World × Option (Prog Unit)}
    (fresh : NothingWritten start)
    (reached : Relation.ReflTransGen (Sequential Step Commits (Cycle config)) (start, none) current)
    (fits : (Commit.objects current.1.wal).length ≤ 4294967295) :
    ∃ cut ≤ current.1.slot, Consecutive (Window current.1.wal) start.slot current.1.batches cut := by
  obtain ⟨plan, ledger, _, orderly⟩ := (orderly_upheld start.slot).reached fresh fresh.orderly reached
  obtain ⟨cut, frontier⟩ := orderly.2 fits
  exact ⟨cut, frontier.below, frontier.batches⟩

theorem firstPublished_one : (Commit.objects firstPublished.wal).length = 1 ∧ firstPublished.batches.length = 1 := by
  decide +kernel

/-- One run of the script that publishes a node. -/
theorem cycle_windows_node : firstPublished.batches.length = 1 ∧
    ∃ cut ≤ firstPublished.slot, Consecutive (Window firstPublished.wal)
      firstChange.slot firstPublished.batches cut := by
  obtain ⟨one, batches⟩ := firstPublished_one
  have reached : Relation.ReflTransGen (Sequential Step Commits (Cycle {})) (firstChange, none)
      (firstPublished, none) :=
    Program.Visits.stopped ⟨rfl, Untouched.refl _⟩ firstCycle_visits
  have windows := @cycle_windows {} firstChange (firstPublished, none) firstChange_fresh reached
  dsimp only at windows
  exact ⟨batches, windows (by rw [one]; decide)⟩

end Osmdbt
