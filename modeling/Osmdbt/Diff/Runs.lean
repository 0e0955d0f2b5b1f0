import Osmdbt.Diff.Moving
import Osmdbt.System.LogFiles

/-! Runs of create-diff one after the other, each of which may be stopped, while
new log files appear: what a publication has to keep so that all of them keep it. -/

namespace Osmdbt

open General

/-- What happens outside of create-diff: transactions change the tables, and log
files appear under names that were never used. -/
inductive Outside : World → World → Prop where
  | commit (w : World) (wal : List Commit) (tables : Tables) : Outside w { w with wal, tables }
  | logFile (w : World) (name data : Text) (log : isLog name = true) (fresh : w.get ⟨.log, name⟩ = none)
      (unused : w.get (doneFile name) = none) : Outside w (w.put ⟨.log, name⟩ (.text data))

theorem Outside.others {w w' : World} (outside : Outside w w') : Others w w' := by
  cases outside with
  | commit wal tables => exact ⟨fun _ _ here => here, fun _ _ here => here, rfl, rfl, rfl⟩
  | logFile name data log fresh unused =>
    refine ⟨fun path content here => ?_, fun path other none => ?_, rfl, rfl, rfl⟩
    · have different : path ≠ ⟨.log, name⟩ := by
        rintro rfl
        rw [fresh] at here
        cases here
      rwa [World.get_put_ne _ _ _ different]
    · have different : path ≠ ⟨.log, name⟩ := by
        rintro rfl
        exact other rfl
      rwa [World.get_put_ne _ _ _ different]

/-- A run starts, perhaps after a left-over pid file was removed. -/
def Launch (config : Config) (allowed : CreateDiffOptions → Prop) (w : World) (program : Prog Unit)
    (w' : World) : Prop :=
  (∃ options, allowed options ∧ program = createDiff config options) ∧ Untouched (fun path => path.dir = .run) w w'

/-- The runs of create-diff. -/
abbrev DiffRuns (config : Config) (allowed : CreateDiffOptions → Prop) :=
  Relation.ReflTransGen (Sequential Step Outside (Launch config allowed))

/-- Nothing happened but in `tmp_dir` and `run_dir`, and new log files. -/
structure Aside (w w' : World) : Prop where
  renames : w'.renames = w.renames
  changes : ∀ path, path.dir = .changes → w'.get path = w.get path
  logs : ∀ name, w'.get ⟨.log, name⟩ = w.get ⟨.log, name⟩ ∨
    isLog name = true ∧ w.get ⟨.log, name⟩ = none ∧ w.get (doneFile name) = none

theorem Outside.aside {w w' : World} (outside : Outside w w') : Aside w w' := by
  cases outside with
  | commit wal tables => exact ⟨rfl, fun _ _ => rfl, fun _ => .inl rfl⟩
  | logFile name data log fresh unused =>
    refine ⟨rfl, fun path changes => World.get_put_ne _ _ _ ?_, fun other => ?_⟩
    · rintro rfl
      cases changes
    · by_cases same : other = name
      · subst same
        exact .inr ⟨log, fresh, unused⟩
      · exact .inl (World.get_put_ne _ _ _ (fun equal => same (congrArg Path.name equal)))

theorem Untouched.aside {touched : Path → Prop} {w w' : World} (same : Untouched touched w w')
    (inside : ∀ path, touched path → path.dir = .tmp ∨ path.dir = .run) : Aside w w' := by
  refine ⟨same.renames, fun path changes => same.get path (fun here => ?_), fun name =>
    .inl (same.get _ (fun here => ?_))⟩
  · rcases inside path here with tmp | run <;> simp_all
  · rcases inside _ here with tmp | run
    · cases tmp
    · cases run

private theorem scratch_inside (path : Path) (inside : Scratch path) : path.dir = .tmp ∨ path.dir = .run :=
  inside.imp_left And.left

private theorem lock_inside (path : Path) (inside : path = lockFile ∨ path.dir = .run) :
    path.dir = .tmp ∨ path.dir = .run :=
  inside.imp_left (fun (same : path = lockFile) => same ▸ rfl)

/-- `clean` holds without the lock file and `under` while a publication is under way;
`stuck` is what is left when it was stopped. -/
structure Keeps (config : Config) (allowed : CreateDiffOptions → Prop) (clean stuck : World → Prop)
    (under : Plan → World → Prop) : Prop where
  aside : ∀ {w w' : World}, Aside w w' →
    (clean w → clean w') ∧ (stuck w → stuck w') ∧ ∀ plan, under plan w → under plan w'
  lock : ∀ {options : CreateDiffOptions} {w : World} {plan : Plan}, allowed options →
    Prepared config options w plan → clean w → under (plan.at .locked) w
  moveChange : ∀ {w : World} {plan : Plan}, under (plan.at .locked) w →
    under (plan.at .changeMoved) (w.rename newChangeFile plan.state.changeFile plan.content)
  moveState : ∀ {w : World} {plan : Plan}, under (plan.at .changeMoved) w →
    under (plan.at .stateMoved) (w.rename newStateFile plan.state.ownFile (.text plan.stateText))
  moveCopy : ∀ {w : World} {plan : Plan}, under (plan.at .stateMoved) w →
    under (plan.at (.renaming (plan.sources.map Prod.fst))) (w.rename newStateCopy stateFile (.text plan.stateText))
  moveLog : ∀ {w : World} {plan : Plan} {logFile : Text} {remaining : List Text} {content : Content},
    under (plan.at (.renaming (logFile :: remaining))) w →
    under (plan.at (.renaming remaining)) (w.rename ⟨.log, logFile⟩ (doneFile logFile) content)
  unlock : ∀ {w : World} {plan : Plan}, under (plan.at (.renaming [])) w → clean w
  stop : ∀ {w : World} {plan : Plan}, under plan w → stuck w

section Runs

variable {config : Config} {allowed : CreateDiffOptions → Prop} {clean stuck : World → Prop}
  {under : Plan → World → Prop}

/-- No publication is under way: the lock file tells whether one was stopped. -/
def Settled (clean stuck : World → Prop) (w : World) : Prop :=
  w.get lockFile = none ∧ clean w ∨ (w.get lockFile).isSome ∧ stuck w

def Running (clean stuck : World → Prop) (under : Plan → World → Prop) (c : World × (Option Plan × Unit)) : Prop :=
  match c.2.1 with
  | none => Settled clean stuck c.1
  | some plan => (c.1.get lockFile).isSome ∧ under plan c.1

/-- The rules for a run with any of the allowed options. -/
def runRules (config : Config) (allowed : CreateDiffOptions → Prop) : Rules (Option Plan × Unit) where
  step := Step
  rely c c' := Others c.1 c'.1 ∧ c'.2 = c.2
  move c c' := ∃ options, allowed options ∧ DiffMove config options (fun _ => True) (fun _ _ => False) c c'

abbrev Holding.Runs (config : Config) (allowed : CreateDiffOptions → Prop) (clean stuck : World → Prop)
    (under : Plan → World → Prop) : World × Option (Prog Unit) → Prop :=
  Sequential.Holds (runRules config allowed) (fun _ _ => True) (fun _ _ => True)
    (fun c => Settled clean stuck c.1) (Running clean stuck under)

/-- The lock file is the only file of `tmp_dir` that matters. -/
theorem Keeps.settled (keeps : Keeps config allowed clean stuck under) {w w' : World} (aside : Aside w w')
    (lock : w'.get lockFile = w.get lockFile) (settled : Settled clean stuck w) : Settled clean stuck w' := by
  obtain ⟨keepsClean, keepsStuck, _⟩ := keeps.aside aside
  unfold Settled
  rw [lock]
  exact settled.imp (And.imp_right keepsClean) (And.imp_right keepsStuck)

theorem Keeps.running (keeps : Keeps config allowed clean stuck under) {w w' : World} {plan : Option Plan × Unit}
    (aside : Aside w w')
    (lock : w'.get lockFile = w.get lockFile) (running : Running clean stuck under (w, plan)) :
    Running clean stuck under (w', plan) := by
  obtain ⟨_ | plan, u⟩ := plan
  · exact keeps.settled aside lock running
  · exact ⟨lock ▸ running.1, (keeps.aside aside).2.2 plan running.2⟩

theorem lockFile_not_scratch : ¬ Scratch lockFile := by
  rintro (⟨_, other⟩ | run)
  · exact other rfl
  · cases run

theorem Others.lock {w w' : World} (others : Others w w') : w'.get lockFile = w.get lockFile := by
  cases found : w.get lockFile with
  | none => exact others.absent lockFile (by decide) found
  | some content => exact others.kept lockFile content found

/-- One operation of a run. -/
theorem Keeps.moved (keeps : Keeps config allowed clean stuck under) {c c' : World × (Option Plan × Unit)}
    (running : Running clean stuck under c) (move : (runRules config allowed).move c c') :
    Running clean stuck under c' := by
  obtain ⟨options, permitted, move⟩ := move
  cases move with
  | scratch same =>
    exact keeps.settled (same.aside scratch_inside) (same.get _ lockFile_not_scratch) running
  | @lock w plan g free prepared here watched =>
    rcases running with ⟨_, tidy⟩ | ⟨held, _⟩
    · refine ⟨Option.isSome_iff_exists.mpr ⟨_, World.get_put_self _ _ _⟩, ?_⟩
      have aside : Aside w (w.put lockFile (.text [])) :=
        (untouched_put _ _ _).aside (fun path same => same ▸ .inl rfl)
      exact (keeps.aside aside).2.2 _ (keeps.lock permitted prepared tidy)
    · change (w.get lockFile).isSome at held
      rw [free] at held
      cases held
  | during same held => exact ⟨held, (keeps.aside (same.aside lock_inside)).2.2 _ running.2⟩
  | moveChange stored =>
    refine ⟨?_, keeps.moveChange running.2⟩
    rw [World.get_rename_ne _ _ _ (by decide) (by rintro ⟨⟩)]
    exact running.1
  | moveState stored =>
    refine ⟨?_, keeps.moveState running.2⟩
    rw [World.get_rename_ne _ _ _ (by decide) (by rintro ⟨⟩)]
    exact running.1
  | moveCopy stored =>
    refine ⟨?_, keeps.moveCopy running.2⟩
    rw [World.get_rename_ne _ _ _ (by decide) (by decide)]
    exact running.1
  | moveLog stored =>
    refine ⟨?_, keeps.moveLog running.2⟩
    rw [World.get_rename_ne _ _ _ (by rintro ⟨⟩) (by rintro ⟨⟩)]
    exact running.1
  | @unlock w plan g =>
    refine .inl ⟨World.get_drop_self _ _, ?_⟩
    have aside : Aside w (w.drop lockFile) := (untouched_drop _ _).aside (fun path same => same ▸ .inl rfl)
    exact (keeps.aside aside).1 (keeps.unlock running.2)

/-- A run of create-diff is safe wherever it starts. -/
theorem createDiff_safe (config : Config) {options : CreateDiffOptions} (permitted : allowed options) (w : World) :
    (runRules config allowed).Safe (fun _ _ => True) (fun _ _ => True) (createDiff config options)
      (w, (none, ())) := by
  have rules : Ready (fun _ : World × Unit => True) := ⟨fun _ _ => trivial, fun _ _ => trivial⟩
  have before : Before (fun _ : World × Unit => True) (fun _ _ => False) () (fun _ => True) (w, (none, ())) :=
    ⟨rfl, trivial, fun _ none => none.elim, trivial⟩
  have safe := createDiff_triple config options (fun _ _ => False) rules () (w, (none, ())) before
  refine Discipline.Safe.mono (D := diffRules config options (fun _ => True) (fun _ _ => False))
    (fun _ _ _ _ done => done) (fun _ _ change => change) (fun c c' move => ?_)
    (safe.weaken (fun _ _ _ => trivial) (fun _ _ _ => trivial))
  exact ⟨options, permitted, move⟩

/-- What every publication keeps holds after any number of runs. -/
theorem Keeps.runs (keeps : Keeps config allowed clean stuck under) {start current : World × Option (Prog Unit)}
    (initial : Holding.Runs config allowed clean stuck under start) (reached : DiffRuns config allowed start current) :
    Holding.Runs config allowed clean stuck under current := by
  refine Sequential.invariant (D := runRules config allowed) ?_ ?_ ?_ ?_ ?_ initial reached
  · intro w w' t settled outside
    exact ⟨t, keeps.settled outside.aside outside.others.lock settled⟩
  · rintro w w' plan running outside
    exact ⟨plan, ⟨outside.others, rfl⟩, keeps.running outside.aside outside.others.lock running⟩
  · rintro w program w' t settled ⟨⟨options, permitted, rfl⟩, cleaned⟩
    refine ⟨(none, ()), ?_, createDiff_safe config permitted w'⟩
    exact keeps.settled (cleaned.aside (fun _ run => .inr run)) (cleaned.get _ lockFile_not_run) settled
  · exact fun c c' running move => keeps.moved running move
  · rintro w ⟨plan, u⟩ running
    refine ⟨(none, ()), ?_⟩
    cases plan with
    | none => exact running
    | some plan => exact .inr ⟨running.1, keeps.stop running.2⟩

/-- What holds of the files in every state of the runs. -/
theorem Holding.Runs.cases {c : World × Option (Prog Unit)} (holds : Holding.Runs config allowed clean stuck under c) :
    Settled clean stuck c.1 ∨ (c.1.get lockFile).isSome ∧ ∃ plan, under plan c.1 := by
  obtain ⟨w, _ | program⟩ := c
  · obtain ⟨_, settled⟩ := holds
    exact .inl settled
  · obtain ⟨⟨_ | plan, u⟩, running, _⟩ := holds
    · exact .inl running
    · exact .inr ⟨running.1, plan, running.2⟩

/-- More that holds now can be kept from now on. -/
theorem Holding.Runs.also {clean' stuck' : World → Prop} {under' : Plan → World → Prop}
    {c : World × Option (Prog Unit)} (holds : Holding.Runs config allowed clean stuck under c)
    (tidy : clean c.1 → clean' c.1) (left : stuck c.1 → stuck' c.1) (during : ∀ plan, under plan c.1 →
      under' plan c.1) :
    Holding.Runs config allowed clean' stuck' under' c := by
  have settled (here : Settled clean stuck c.1) : Settled clean' stuck' c.1 :=
    here.imp (And.imp_right tidy) (And.imp_right left)
  obtain ⟨w, _ | program⟩ := c
  · obtain ⟨t, here⟩ := holds
    exact ⟨t, settled here⟩
  · obtain ⟨⟨_ | plan, u⟩, running, safe⟩ := holds
    · exact ⟨(none, u), settled running, safe⟩
    · exact ⟨(some plan, u), ⟨running.1, during plan running.2⟩, safe⟩

end Runs

end Osmdbt
