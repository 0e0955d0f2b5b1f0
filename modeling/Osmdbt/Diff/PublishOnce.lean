import Osmdbt.Diff.Redaction
import Osmdbt.Diff.Runs
import Osmdbt.System.Serve

/-! Every log file goes into one published diff, or the lock file is left behind
and nothing is published any more. -/

namespace Osmdbt

open General

/-- The names of the log files a change file was made from. -/
def Content.logNames : Content → List Text
  | .text _ => []
  | .osc sources _ => sources.map Prod.fst

/-- The change file of a published diff that was made from this log file. -/
def Rename.publishes (name : Text) (moved : Rename) : Bool :=
  moved.newName.dir = .changes ∧ name ∈ moved.content.logNames

/-- The number of published diffs a log file is part of. -/
def World.timesPublished (w : World) (name : Text) : Nat := w.renames.countP (Rename.publishes name)

def World.hasLog (w : World) (name : Text) : Bool := (w.get ⟨.log, name⟩).isSome
def World.hasDone (w : World) (name : Text) : Bool := (w.get (doneFile name)).isSome

theorem timesPublished_rename (w : World) (oldName newName : Path) (content : Content) (name : Text) :
    (w.rename oldName newName content).timesPublished name =
      w.timesPublished name + if newName.dir = .changes ∧ name ∈ content.logNames then 1 else 0 := by
  simp [World.timesPublished, World.rename, List.countP_append, List.countP_cons, Rename.publishes]

/-- One log file: `published` names the files that are in the change file just
moved and still to be renamed. -/
structure Accounted (known : Text → Prop) (published : List Text) (w : World) (name : Text) : Prop where
  count : w.timesPublished name = (if w.hasDone name then 1 else 0) + (if name ∈ published then 1 else 0)
  single : ¬ (w.hasLog name ∧ w.hasDone name)
  kept : known name → w.hasLog name ∨ w.hasDone name

/-- All log files; `waiting` names the ones that will be renamed. -/
structure LogFiles (known : Text → Prop) (published waiting : List Text) (w : World) : Prop where
  account : ∀ name, isLog name = true → Accounted known published w name
  distinct : waiting.Nodup
  there : ∀ name ∈ waiting, isLog name = true ∧ w.hasLog name = true

/-- The log files in the change file that was moved that still have their old name. -/
def Plan.published (plan : Plan) : List Text :=
  match plan.stage with
  | .locked => []
  | .renaming remaining => remaining
  | _ => plan.sources.map Prod.fst

/-- The log files that will be renamed. -/
def Plan.waiting (plan : Plan) : List Text :=
  match plan.stage with
  | .renaming remaining => remaining
  | _ => plan.sources.map Prod.fst

section Account

variable {known : Text → Prop} {published waiting : List Text} {w w' : World}

private theorem hasDone_aside (aside : Aside w w') (name : Text) : w'.hasDone name = w.hasDone name := by
  rcases aside.logs (name ++ ".done".toList) with same | ⟨log, _⟩
  · exact congrArg Option.isSome same
  · rw [isLog_done] at log
    cases log

theorem timesPublished_aside (aside : Aside w w') (name : Text) : w'.timesPublished name = w.timesPublished name := by
  rw [World.timesPublished, aside.renames, World.timesPublished]

theorem Accounted.aside {name : Text} (account : Accounted known published w name) (aside : Aside w w') :
    Accounted known published w' name := by
  have done := hasDone_aside aside name
  refine ⟨by rw [timesPublished_aside aside, done, account.count], ?_, fun here => ?_⟩
  · rcases aside.logs name with same | ⟨_, _, unused⟩
    · rw [done, World.hasLog, same]
      exact account.single
    · rw [done, World.hasDone, unused]
      simp
  · rw [done]
    rcases aside.logs name with same | ⟨_, absent, unused⟩
    · rw [World.hasLog, same]
      exact account.kept here
    · have either := account.kept here
      rw [World.hasLog, World.hasDone, absent, unused] at either
      simp at either

theorem LogFiles.aside (files : LogFiles known published waiting w) (aside : Aside w w') :
    LogFiles known published waiting w' := by
  refine ⟨fun name log => (files.account name log).aside aside, files.distinct, fun name member => ?_⟩
  obtain ⟨log, there⟩ := files.there name member
  refine ⟨log, ?_⟩
  rcases aside.logs name with same | ⟨_, absent, _⟩
  · rw [World.hasLog, same]
    exact there
  · rw [World.hasLog, absent] at there
    cases there

/-- A rename that touches no log file. -/
theorem LogFiles.elsewhere (files : LogFiles known published waiting w) {oldName newName : Path} {content : Content}
    (notOld : oldName.dir ≠ .log) (notNew : newName.dir ≠ .log) {published' waiting' : List Text}
    (counted : ∀ name, (if newName.dir = .changes ∧ name ∈ content.logNames then 1 else 0) +
      (if name ∈ published then 1 else 0) = if name ∈ published' then 1 else 0)
    (same : waiting' = waiting) :
    LogFiles known published' waiting' (w.rename oldName newName content) := by
  have get (name : Text) : (w.rename oldName newName content).get ⟨.log, name⟩ = w.get ⟨.log, name⟩ :=
    World.get_rename_ne _ _ _ (by rintro rfl; exact notOld rfl) (by rintro rfl; exact notNew rfl)
  have hasLog (name : Text) : (w.rename oldName newName content).hasLog name = w.hasLog name :=
    congrArg Option.isSome (get name)
  have hasDone (name : Text) : (w.rename oldName newName content).hasDone name = w.hasDone name :=
    congrArg Option.isSome (get _)
  subst same
  refine ⟨fun name log => ?_, files.distinct, fun name member => ?_⟩
  · have account := files.account name log
    refine ⟨?_, ?_, ?_⟩
    · rw [timesPublished_rename, hasDone, account.count, ← counted name]
      omega
    · rw [hasLog, hasDone]
      exact account.single
    · rw [hasLog, hasDone]
      exact account.kept
  · rw [hasLog]
    exact files.there name member

/-- A log file gets its last name. -/
theorem LogFiles.done {logFile : Text} {remaining : List Text} {content : Content}
    (files : LogFiles known (logFile :: remaining) (logFile :: remaining) w) :
    LogFiles known remaining remaining (w.rename ⟨.log, logFile⟩ (doneFile logFile) content) := by
  obtain ⟨ownLog, there⟩ := files.there logFile (by simp)
  obtain ⟨absent, distinct⟩ := List.nodup_cons.mp files.distinct
  have counts (name : Text) : (w.rename ⟨.log, logFile⟩ (doneFile logFile) content).timesPublished name =
      w.timesPublished name := by
    rw [timesPublished_rename]
    simp [doneFile]
  have other {name : Text} (log : isLog name = true) (different : name ≠ logFile) :
      (w.rename ⟨.log, logFile⟩ (doneFile logFile) content).hasLog name = w.hasLog name ∧
        (w.rename ⟨.log, logFile⟩ (doneFile logFile) content).hasDone name = w.hasDone name := by
    have notOld : (⟨.log, name⟩ : Path) ≠ ⟨.log, logFile⟩ := fun same => different (congrArg Path.name same)
    have notDone : doneFile name ≠ doneFile logFile := fun same => different (doneFile_inj same)
    exact ⟨congrArg Option.isSome (World.get_rename_ne _ _ _ notOld (doneFile_ne log logFile)),
      congrArg Option.isSome (World.get_rename_ne _ _ _ (doneFile_ne ownLog name).symm notDone)⟩
  refine ⟨fun name log => ?_, distinct, fun name member => ?_⟩
  · have account := files.account name log
    by_cases same : name = logFile
    · subst same
      have notDone : w.hasDone name = false := by
        simpa [there] using account.single
      have gone : (w.rename ⟨.log, name⟩ (doneFile name) content).hasLog name = false := by
        rw [World.hasLog, World.get_rename_old _ _ _ (doneFile_ne log name)]
        rfl
      have arrived : (w.rename ⟨.log, name⟩ (doneFile name) content).hasDone name = true := by
        rw [World.hasDone, World.get_rename_new]
        rfl
      refine ⟨?_, ?_, fun _ => .inr arrived⟩
      · rw [counts, account.count, notDone, arrived]
        simp [absent]
      · rw [gone]
        simp
    · obtain ⟨hasLog, hasDone⟩ := other log same
      refine ⟨?_, ?_, ?_⟩
      · rw [counts, account.count, hasDone]
        simp [same]
      · rw [hasLog, hasDone]
        exact account.single
      · rw [hasLog, hasDone]
        exact account.kept
  · obtain ⟨log, here⟩ := files.there name (List.mem_cons_of_mem _ member)
    have different : name ≠ logFile := ne_of_mem_of_not_mem member absent
    exact ⟨log, (other log different).1.trans here⟩

end Account

/-- Log files are not named on the command line. -/
def NoLogFileOption (options : CreateDiffOptions) : Prop := options.logFileNames = []

theorem logFiles_kept (config : Config) (known : Text → Prop) :
    Keeps config NoLogFileOption (LogFiles known [] []) (fun _ => True)
      (fun plan => LogFiles known plan.published plan.waiting) where
  aside aside := ⟨fun files => files.aside aside, id, fun _ files => files.aside aside⟩
  lock := by
    intro options w plan none prepared files
    obtain ⟨distinct, logs⟩ := prepared.names none
    refine ⟨files.account, distinct, fun name member => ?_⟩
    obtain ⟨source, inside, rfl⟩ := List.mem_map.mp member
    exact ⟨logs source inside, Option.isSome_iff_exists.mpr ⟨_, prepared.present source inside⟩⟩
  moveChange := by
    intro w plan files
    refine files.elsewhere (by decide) (by rintro ⟨⟩) (fun name => ?_) rfl
    by_cases inside : name ∈ plan.sources.map Prod.fst <;>
      simp [Plan.published, Plan.at, Plan.content, Content.logNames, State.changeFile, inside]
  moveState := by
    intro w plan files
    refine files.elsewhere (by decide) (by rintro ⟨⟩) (fun name => ?_) rfl
    by_cases inside : name ∈ plan.sources.map Prod.fst <;>
      simp [Plan.published, Plan.at, Content.logNames, inside]
  moveCopy := by
    intro w plan files
    refine files.elsewhere (by decide) (by decide) (fun name => ?_) rfl
    by_cases inside : name ∈ plan.sources.map Prod.fst <;>
      simp [Plan.published, Plan.at, Content.logNames, inside]
  moveLog files := files.done
  unlock files := files
  stop _ := trivial

/-- Once the lock file is left behind, nothing is renamed. -/
private theorem renames_kept (config : Config) (allowed : CreateDiffOptions → Prop) (moved : List Rename) :
    Keeps config allowed (fun _ => False) (fun w => w.renames = moved) (fun _ _ => False) where
  aside aside := ⟨id, fun same => aside.renames.trans same, fun _ => id⟩
  lock _ _ none := none
  moveChange none := none
  moveState none := none
  moveCopy none := none
  moveLog none := none
  unlock none := none
  stop none := none.elim

/-- Nothing was published so far. -/
structure Unpublished (w : World) : Prop where
  renames : w.renames = []
  done : ∀ name, isLog name = true → w.get (doneFile name) = none

theorem Unpublished.logFiles {w : World} (fresh : Unpublished w) : LogFiles (fun _ => False) [] [] w := by
  refine ⟨fun name log => ⟨?_, ?_, fun none => none.elim⟩, List.nodup_nil, by simp⟩
  · simp [World.timesPublished, World.hasDone, fresh.renames, fresh.done name log]
  · simp [World.hasDone, fresh.done name log]

theorem Unpublished.holds {w : World} (fresh : Unpublished w) (config : Config) :
    Holding.Runs config NoLogFileOption (LogFiles (fun _ => False) [] []) (fun _ => True)
      (fun plan => LogFiles (fun _ => False) plan.published plan.waiting) (w, none) := by
  refine ⟨(none, ()), ?_⟩
  cases found : w.get lockFile with
  | none => exact .inl ⟨found, fresh.logFiles⟩
  | some content => exact .inr ⟨Option.isSome_iff_exists.mpr ⟨content, found⟩, trivial⟩

/-- From a moment on, the log files that are there then are known. -/
theorem LogFiles.learn {published waiting : List Text} {w : World}
    (files : LogFiles (fun _ => False) published waiting w) : LogFiles (fun name => w.hasLog name)
      published waiting w :=
  ⟨fun name log => ⟨(files.account name log).count, (files.account name log).single, .inl⟩,
    files.distinct, files.there⟩

/-- Without the lock file every log file that ever appeared is waiting under its
name, in no published diff, or has the suffix `.done` and is part of exactly one.
With the lock file left behind nothing is renamed any more. -/
theorem createDiff_publishes_once (config : Config) {start w : World} {running : Option (Prog Unit)}
    (fresh : Unpublished start) (reached : DiffRuns config NoLogFileOption (start, none) (w, running)) :
    (∀ w' running', DiffRuns config NoLogFileOption (w, running) (w', running') → w'.get lockFile = none →
      ∀ name, isLog name = true → w.hasLog name →
        w'.hasLog name ∧ ¬ w'.hasDone name ∧ w'.timesPublished name = 0 ∨
          ¬ w'.hasLog name ∧ w'.hasDone name ∧ w'.timesPublished name = 1) ∧
    (running = none → (w.get lockFile).isSome →
      ∀ w' running', DiffRuns config NoLogFileOption (w, none) (w', running') →
        (w'.get lockFile).isSome ∧ w'.renames = w.renames) := by
  have holds := (logFiles_kept config _).runs (fresh.holds config) reached
  refine ⟨fun w' running' later unlocked name log appeared => ?_, fun _ locked w' running' later => ?_⟩
  · have known : Holding.Runs config NoLogFileOption (LogFiles (fun name => w.hasLog name) [] []) (fun _ => True)
        (fun plan => LogFiles (fun name => w.hasLog name) plan.published plan.waiting) (w, running) :=
      holds.also (fun files => files.learn) id (fun _ files => files.learn)
    have settled := ((logFiles_kept config (fun name => w.hasLog name)).runs known later).cases
    simp only [Settled, unlocked, Option.isSome_none, Bool.false_eq_true, false_and, or_false, true_and] at settled
    have account := settled.account name log
    have count := account.count
    have single := account.single
    cases done : w'.hasDone name with
    | true =>
      rw [done] at count single
      refine .inr ⟨fun there => single ⟨there, rfl⟩, rfl, by simpa using count⟩
    | false =>
      rw [done] at count
      have there := account.kept appeared
      rw [done] at there
      exact .inl ⟨by simpa using there, by simp, by simpa using count⟩
  · have stuck : Holding.Runs config NoLogFileOption (fun _ => False) (fun v => v.renames = w.renames)
        (fun _ _ => False) (w, none) := ⟨(none, ()), .inr ⟨locked, rfl⟩⟩
    rcases ((renames_kept config NoLogFileOption w.renames).runs stuck later).cases with settled | ⟨_, _, none⟩
    · rcases settled with ⟨_, none⟩ | settled
      · exact none.elim
      · exact settled
    · exact none.elim

section Example

/-- Two nodes of one changeset. -/
def twoNodes : Database where
  changesets := [⟨10, 5⟩]
  users := [⟨5, "mapper".toList⟩]
  nodes := [plainNode 1 none, plainNode 2 none]

theorem twoNodes_schema : SchemaKeys twoNodes where
  nodes := show ([(plainNode 1 none).toObjectRow, (plainNode 2 none).toObjectRow].map ObjectRow.key).Nodup by decide
  ways := List.nodup_nil
  relations := List.nodup_nil
  nodeTags := by intro child member; cases member
  wayTags := by intro child member; cases member
  wayNodes := by intro child member; cases member
  relationTags := by intro child member; cases member
  relationMembers := by intro child member; cases member

/-- `state.txt` with the number 7, and a log file with the first node. -/
def firstNode : World where
  files := [(⟨.log, "a.log".toList⟩, .text "0/1 1 N n1 v1 c10\n".toList),
    (stateFile, .text "sequenceNumber=7\ntimestamp=2020-03-18T14\\:18\\:49Z\n".toList)]
  tables := { twoNodes with keys := twoNodes_schema }

/-- A run on it that ends. -/
def firstNodePublished : World := ((createDiff {} {}).run World.serve firstNode).2

theorem firstNode_published : Ends (createDiff {} {}) firstNode (.ok ()) firstNodePublished :=
  ends_served (by decide +kernel)

/-- A run on it that is stopped when the change file has its name. -/
def firstNodeStopped : World := (createDiff {} {}).after World.serve 315 firstNode

private theorem firstNode_files : firstNodePublished.get lockFile = none ∧ firstNodePublished.hasDone "a.log".toList ∧
    (firstNodeStopped.get lockFile).isSome ∧ firstNodeStopped.renames.length = 1 := by
  decide +kernel

theorem firstNode_runs {allowed : CreateDiffOptions → Prop} (default : allowed {}) {w : World}
    (visits : (createDiff {} {}).Visits Step firstNode w) : DiffRuns {} allowed (firstNode, none) (w, none) :=
  visits.stopped ⟨⟨{}, default, rfl⟩, Untouched.refl _⟩

theorem firstNode_unpublished : Unpublished firstNode := by
  refine ⟨rfl, fun name _ => ?_⟩
  have notLog : (doneFile name == ⟨.log, "a.log".toList⟩) = false :=
    beq_eq_false_iff_ne.mpr (doneFile_ne (by decide) name).symm
  have notState : (doneFile name == stateFile) = false := beq_eq_false_iff_ne.mpr (by rintro ⟨⟩)
  rw [firstNode, World.get, List.lookup_cons, notLog, List.lookup_cons, notState]
  rfl

/-- The first run is stopped with its lock file, or it ends and has published the log file once. -/
theorem createDiff_publishes_once_node :
    (¬ firstNodePublished.hasLog "a.log".toList ∧ firstNodePublished.hasDone "a.log".toList ∧
      firstNodePublished.timesPublished "a.log".toList = 1) ∧
    (firstNodeStopped.get lockFile).isSome ∧ firstNodeStopped.renames.length = 1 ∧
      ∀ w' running', DiffRuns {} NoLogFileOption (firstNodeStopped, none) (w', running') →
        (w'.get lockFile).isSome ∧ w'.renames = firstNodeStopped.renames := by
  obtain ⟨unlocked, done, locked, moved⟩ := firstNode_files
  have noLogFiles : NoLogFileOption {} := rfl
  have published := (createDiff_publishes_once {} firstNode_unpublished .refl).1 _ _
    (firstNode_runs noLogFiles firstNode_published.visits) unlocked "a.log".toList (by decide) (by decide)
  refine ⟨published.resolve_left (fun waiting => waiting.2.1 done), locked, moved, ?_⟩
  have stopped := firstNode_runs noLogFiles (Program.visits_after World.serves 315 _ _)
  exact (createDiff_publishes_once {} firstNode_unpublished stopped).2 rfl locked

end Example

end Osmdbt
