import Osmdbt.System.Frame
import Osmdbt.Diff.CreateDiff
import Osmdbt.Diff.Duplicates

/-! create-diff as a publisher: which moves its operations amount to, with a plan
that follows the publication from the lock file on. -/

namespace Osmdbt

open General

/-- How far a publication is. -/
inductive Stage where
  | locked
  | changeMoved
  | stateMoved
  | renaming (remaining : List Text)
  deriving DecidableEq

/-- What is being published. -/
structure Plan where
  sources : List (Text × Text)
  objects : DiffObjects
  state : State
  stateText : Text
  stage : Stage := .locked

def Plan.content (plan : Plan) : Content := .osc plan.sources (some plan.objects)

def Plan.at (plan : Plan) (stage : Stage) : Plan := { plan with stage }

/-- The state follows the one in `state.txt`. -/
def Follows (config : Config) (w : World) (state : State) : Prop :=
  ∃ data last, w.get stateFile = some (.text data) ∧ State.parse (stateFile.text config) data = .ok last ∧
    last.sequenceNumber < 999999999 ∧ state.sequenceNumber = last.sequenceNumber + 1

/-- The objects come from the entries of the sources. -/
def WrittenFrom (sources : List (Text × Text)) (objects : DiffObjects) : Prop :=
  ∃ entries, readEntries (sources.map Prod.snd) = .ok entries ∧
    ∀ type k, (objects.keys type).count k ≤ occurrences type k entries

/-- More entries were read than `--max-changes` allows. -/
def LimitReached (options : CreateDiffOptions) (sources : List (Text × Text)) : Prop :=
  ∃ entries, readEntries (sources.map Prod.snd) = .ok entries ∧ options.maxChanges.toNat < entries.length

def Present (w : World) (sources : List (Text × Text)) : Prop :=
  ∀ source ∈ sources, w.get ⟨.log, source.1⟩ = some (.text source.2)

/-- What stands in `tmp_dir` when the lock file is created. -/
structure Prepared (config : Config) (options : CreateDiffOptions) (w : World) (plan : Plan) : Prop where
  change : w.get newChangeFile = some plan.content
  own : w.get newStateFile = some (.text plan.stateText)
  copy : w.get newStateCopy = some (.text plan.stateText)
  text : ∃ now, plan.stateText = plan.state.toText now
  number : options.initState = 0 → Follows config w plan.state
  present : Present w plan.sources
  names : options.logFileNames = [] →
    (plan.sources.map Prod.fst).Nodup ∧ ∀ source ∈ plan.sources, isLog source.1 = true
  written : WrittenFrom plan.sources plan.objects

/-- What create-diff may change while it holds no lock file. -/
def Scratch (path : Path) : Prop := (path.dir = .tmp ∧ path ≠ lockFile) ∨ path.dir = .run

section Moves

variable {γ : Type} (config : Config) (options : CreateDiffOptions) (ready : World × γ → Prop)
    (watch : γ → Text → Prop)

/-- What one operation of create-diff amounts to. `watch` names log files that are
there from the start. -/
inductive DiffMove : World × (Option Plan × γ) → World × (Option Plan × γ) → Prop where
  | scratch {w w' : World} {g : γ} (same : Untouched Scratch w w') : DiffMove (w, (none, g)) (w', (none, g))
  | lock {w : World} {plan : Plan} {g : γ} (free : w.get lockFile = none)
      (prepared : Prepared config options w plan) (here : ready (w, g))
      (watched : options.logFileNames = [] →
        ∀ name, watch g name → name ∈ plan.sources.map Prod.fst ∨ LimitReached options plan.sources) :
      DiffMove (w, (none, g)) (w.put lockFile (.text []), (some (plan.at .locked), g))
  | during {w w' : World} {plan : Plan} {g : γ} (same : Untouched (fun path => path = lockFile ∨ path.dir = .run) w w')
      (held : (w'.get lockFile).isSome) : DiffMove (w, (some plan, g)) (w', (some plan, g))
  | moveChange {w : World} {plan : Plan} {g : γ} (stored : w.get newChangeFile = some plan.content) :
      DiffMove (w, (some (plan.at .locked), g))
        (w.rename newChangeFile plan.state.changeFile plan.content, (some (plan.at .changeMoved), g))
  | moveState {w : World} {plan : Plan} {g : γ} (stored : w.get newStateFile = some (.text plan.stateText)) :
      DiffMove (w, (some (plan.at .changeMoved), g))
        (w.rename newStateFile plan.state.ownFile (.text plan.stateText), (some (plan.at .stateMoved), g))
  | moveCopy {w : World} {plan : Plan} {g : γ} (stored : w.get newStateCopy = some (.text plan.stateText)) :
      DiffMove (w, (some (plan.at .stateMoved), g))
        (w.rename newStateCopy stateFile (.text plan.stateText),
          (some (plan.at (.renaming (plan.sources.map Prod.fst))), g))
  | moveLog {w : World} {plan : Plan} {g : γ} {logFile : Text} {remaining : List Text} {content : Content}
      (stored : w.get ⟨.log, logFile⟩ = some content) :
      DiffMove (w, (some (plan.at (.renaming (logFile :: remaining))), g))
        (w.rename ⟨.log, logFile⟩ ⟨.log, logFile ++ ".done".toList⟩ content,
          (some (plan.at (.renaming remaining)), g))
  | unlock {w : World} {plan : Plan} {g : γ} :
      DiffMove (w, (some (plan.at (.renaming [])), g)) (w.drop lockFile, (none, g))

/-- What others may do while create-diff runs: existing files keep their content,
and new files appear in `log_dir` only. -/
structure Others (w w' : World) : Prop where
  kept : ∀ path content, w.get path = some content → w'.get path = some content
  absent : ∀ path, path.dir ≠ .log → w.get path = none → w'.get path = none
  slot : w'.slot = w.slot
  returned : w'.returned = w.returned
  renames : w'.renames = w.renames

def diffRules : Rules (Option Plan × γ) where
  step := Step
  rely c c' := Others c.1 c'.1 ∧ c'.2 = c.2
  move := DiffMove config options ready watch

end Moves

/-- A fact about the files that survives the others and changes of `touched` files. -/
structure Lasting (touched : Path → Prop) (F : World → Prop) : Prop where
  others : ∀ {w w'}, Others w w' → F w → F w'
  kept : ∀ {w w'}, Untouched touched w w' → F w → F w'

namespace Lasting

variable {touched : Path → Prop} {F F' : World → Prop}

theorem const {p : Prop} : Lasting touched (fun _ => p) := ⟨fun _ here => here, fun _ here => here⟩

theorem and (first : Lasting touched F) (second : Lasting touched F') : Lasting touched (fun w => F w ∧ F' w) :=
  ⟨fun change here => ⟨first.others change here.1, second.others change here.2⟩,
    fun same here => ⟨first.kept same here.1, second.kept same here.2⟩⟩

theorem get (path : Path) (outside : ¬ touched path) (content : Content) :
    Lasting touched (fun w => w.get path = some content) :=
  ⟨fun change here => change.kept path content here, fun same here => (same.get path outside).trans here⟩

theorem mono {narrower : Path → Prop} (lasting : Lasting touched F) (fewer : ∀ path, narrower path → touched path) :
    Lasting narrower F :=
  ⟨lasting.others, fun same here => lasting.kept (same.mono fewer) here⟩

theorem every {ι : Type} {F : ι → World → Prop} (each : ∀ i, Lasting touched (F i)) :
    Lasting touched (fun w => ∀ i, F i w) :=
  ⟨fun change here i => (each i).others change (here i), fun same here i => (each i).kept same (here i)⟩

theorem implies {p : Prop} (each : p → Lasting touched F) : Lasting touched (fun w => p → F w) :=
  ⟨fun change here holds => (each holds).others change (here holds),
    fun same here holds => (each holds).kept same (here holds)⟩

theorem some {ι : Type} {F : ι → World → Prop} (each : ∀ i, Lasting touched (F i)) :
    Lasting touched (fun w => ∃ i, F i w) :=
  ⟨fun change ⟨i, here⟩ => ⟨i, (each i).others change here⟩, fun same ⟨i, here⟩ => ⟨i, (each i).kept same here⟩⟩

theorem present {sources : List (Text × Text)} (outside : ∀ path, touched path → path.dir ≠ .log) :
    Lasting touched (fun w => Present w sources) :=
  Lasting.every (fun _ => Lasting.implies (fun _ => Lasting.get _ (fun inside => outside _ inside rfl) _))

theorem follows {config : Config} {state : State} (outside : ¬ touched stateFile) :
    Lasting touched (fun w => Follows config w state) :=
  Lasting.some (fun _ => Lasting.some (fun _ => (Lasting.get _ outside _).and Lasting.const))

end Lasting

/-- A condition at the start that create-diff does not disturb before it locks. -/
structure Ready {γ : Type} (ready : World × γ → Prop) : Prop where
  others : ∀ {w w' g}, Others w w' → ready (w, g) → ready (w', g)
  kept : ∀ {w w' g}, Untouched Scratch w w' → ready (w, g) → ready (w', g)

theorem scratch_not_log (path : Path) (inside : Scratch path) : path.dir ≠ .log := by
  rcases inside with ⟨tmp, _⟩ | run <;> simp [*]

section Assertions

variable {γ : Type} {config : Config} {options : CreateDiffOptions} {ready : World × γ → Prop}
  {watch : γ → Text → Prop}

/-- No publication is under way. -/
structure Before (ready : World × γ → Prop) (watch : γ → Text → Prop) (g : γ) (F : World → Prop)
    (c : World × (Option Plan × γ)) : Prop where
  idle : c.2 = (none, g)
  here : ready (c.1, g)
  watched : ∀ name, watch g name → isLog name = true ∧ (c.1.get ⟨.log, name⟩).isSome
  fact : F c.1

theorem Before.imp {g : γ} {F F' : World → Prop} {c : World × (Option Plan × γ)} (before : Before ready watch g F c)
    (more : F c.1 → F' c.1) : Before ready watch g F' c :=
  ⟨before.idle, before.here, before.watched, more before.fact⟩

/-- A publication is under way. -/
structure Holding (plan : Plan) (F : World → Prop) (c : World × (Option Plan × γ)) : Prop where
  planned : c.2.1 = some plan
  held : (c.1.get lockFile).isSome
  fact : F c.1

/-- Either no publication is under way, or the lock file is there. -/
def Ended (c : World × (Option Plan × γ)) : Prop := c.2.1 = none ∨ (c.1.get lockFile).isSome

theorem Others.isSome {w w' : World} (others : Others w w') {path : Path} (present : (w.get path).isSome) :
    (w'.get path).isSome := by
  obtain ⟨content, found⟩ := Option.isSome_iff_exists.mp present
  rw [others.kept path content found]
  rfl

variable (rules : Ready ready)

variable (config options watch) in
include rules in
theorem before_quiet {touched : Path → Prop} (scratch : ∀ path, touched path → Scratch path) (g : γ)
    {F : World → Prop} (lasting : Lasting touched F) :
    Quiet (diffRules config options ready watch) touched (Before ready watch g F) where
  stable := by
    rintro ⟨w, t⟩ ⟨w', _⟩ ⟨change, rfl⟩ before
    exact ⟨before.idle, rules.others change before.here,
      fun name watched => ⟨(before.watched name watched).1, change.isSome (before.watched name watched).2⟩,
      lasting.others change before.fact⟩
  kept := by
    rintro w w' t before same
    refine ⟨before.idle, rules.kept (same.mono scratch) before.here, fun name watched => ?_,
      lasting.kept same before.fact⟩
    have outside : ¬ touched ⟨.log, name⟩ := fun inside => scratch_not_log _ (scratch _ inside) rfl
    exact ⟨(before.watched name watched).1, same.get _ outside ▸ (before.watched name watched).2⟩
  allowed := by
    rintro w w' t before same
    obtain rfl : t = (none, g) := before.idle
    exact .scratch (same.mono scratch)

theorem lockFile_not_run : lockFile.dir ≠ .run := by decide

variable (config options ready watch) in
theorem holding_quiet (plan : Plan) {F : World → Prop} (lasting : Lasting (fun path => path.dir = .run) F) :
    Quiet (diffRules config options ready watch) (fun path => path.dir = .run) (Holding plan F) where
  stable := by
    rintro ⟨w, pl, g⟩ ⟨w', _⟩ ⟨change, rfl⟩ holding
    exact ⟨holding.planned, change.isSome holding.held, lasting.others change holding.fact⟩
  kept := by
    rintro w w' ⟨pl, g⟩ holding same
    exact ⟨holding.planned, same.get _ lockFile_not_run ▸ holding.held, lasting.kept same holding.fact⟩
  allowed := by
    rintro w w' ⟨pl, g⟩ holding same
    obtain rfl : pl = some plan := holding.planned
    exact .during (same.mono (fun _ inside => .inr inside)) (same.get _ lockFile_not_run ▸ holding.held)

theorem ended_quiet :
    Quiet (diffRules config options ready watch) (fun path => path.dir = .run) Ended where
  stable := by
    rintro ⟨w, pl, g⟩ ⟨w', _⟩ ⟨change, rfl⟩ ended
    exact ended.imp id change.isSome
  kept := by
    rintro w w' ⟨pl, g⟩ ended same
    exact ended.imp id (fun held => same.get _ lockFile_not_run ▸ held)
  allowed := by
    rintro w w' ⟨pl, g⟩ ended same
    cases pl with
    | none => exact .scratch (same.mono (fun _ inside => .inr inside))
    | some plan =>
      rcases ended with none | held
      · cases none
      · exact .during (same.mono (fun _ inside => .inr inside)) (same.get _ lockFile_not_run ▸ held)

theorem Before.ended {g : γ} {F : World → Prop} {c : World × (Option Plan × γ)} (before : Before ready watch g F c) :
    Ended c := .inl (congrArg Prod.fst before.idle)

theorem Holding.ended {plan : Plan} {F : World → Prop} {c : World × (Option Plan × γ)} (holding : Holding plan F c) :
    Ended c := .inr holding.held

end Assertions

end Osmdbt
