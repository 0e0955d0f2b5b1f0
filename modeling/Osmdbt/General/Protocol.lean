import Osmdbt.General.Completion
import Mathlib.Logic.Function.Basic

/-! Phases a program goes through, told from its operations and their replies, and
interleaved processes whose phases are recorded. With them: a flag that one process at
a time can take. -/

namespace Osmdbt.General

variable {Op : Type} {Reply : Op → Type} {ε α β σ φ : Type}

/-- `advance` is the phase after an operation. What is `allowed` depends on the phase;
only `possible` replies are considered. -/
structure Protocol (Op : Type) (Reply : Op → Type) (φ : Type) where
  allowed : φ → Op → Prop
  possible : (op : Op) → Reply op → Prop
  advance : φ → (op : Op) → Reply op → φ

namespace Protocol

variable (P : Protocol Op Reply φ)

/-- From a phase on, only allowed operations are asked for; the program returns in a phase
with `post` and raises in one with `failed`. -/
def Follows (post : α → φ → Prop) (failed : φ → Prop) : Program Op Reply ε α → φ → Prop
  | .pure value, phase => post value phase
  | .raise _, phase => failed phase
  | .abort, _ => True
  | .perform op next, phase => P.allowed phase op ∧
      ∀ reply, P.possible op reply → Follows post failed (next reply) (P.advance phase op reply)

variable {P} {post : α → φ → Prop} {failed : φ → Prop} {phase : φ}

theorem Follows.weaken {post' : α → φ → Prop} {program : Program Op Reply ε α}
    (follows : P.Follows post failed program phase)
    (normal : ∀ value later, post value later → post' value later) : P.Follows post' failed program phase := by
  induction program generalizing phase with
  | pure value => exact normal value phase follows
  | raise fault => exact follows
  | abort => trivial
  | perform op next ih => exact ⟨follows.1, fun reply possible => ih reply (follows.2 reply possible)⟩

theorem Follows.bind {program : Program Op Reply ε α} {next : α → Program Op Reply ε β} {post : β → φ → Prop}
    (follows : P.Follows (fun value later => P.Follows post failed (next value) later) failed program phase) :
    P.Follows post failed (program >>= next) phase := by
  change P.Follows post failed (program.bind next) phase
  induction program generalizing phase with
  | pure value => exact follows
  | raise fault => exact follows
  | abort => trivial
  | perform op resume ih => exact ⟨follows.1, fun reply possible => ih reply (follows.2 reply possible)⟩

/-- The destructor runs in the phase in which the scope ends. -/
theorem Follows.scope {program : Program Op Reply ε α} {cleanup : Program Op Reply ε Unit}
    (follows : P.Follows (fun value later => P.Follows (fun _ => post value) failed cleanup later)
      (fun later => P.Follows (fun _ => failed) failed cleanup later) program phase) :
    P.Follows post failed (program.scope cleanup) phase := by
  induction program generalizing phase with
  | pure value => exact Follows.bind follows
  | raise fault => exact Follows.bind follows
  | abort => trivial
  | perform op next ih => exact ⟨follows.1, fun reply possible => ih reply (follows.2 reply possible)⟩

/-- A program whose operations do not matter stays in its phase. -/
theorem Follows.of_uses {quiet : Op → Prop} {result : α → Prop} {program : Program Op Reply ε α}
    (uses : program.Uses quiet result)
    (stays : ∀ op, quiet op → P.allowed phase op ∧ ∀ reply, P.possible op reply → P.advance phase op reply = phase)
    (normal : ∀ value, result value → post value phase) (exceptional : failed phase) :
        P.Follows post failed program phase := by
  induction program with
  | pure value => exact normal value uses
  | raise fault => exact exceptional
  | abort => trivial
  | perform op next ih =>
    refine ⟨(stays op uses.1).1, fun reply possible => ?_⟩
    rw [(stays op uses.1).2 reply possible]
    exact ih reply (uses.2 reply)

end Protocol

/-- What is left of the program, unless the process was stopped, and its phase. -/
structure Process (Op : Type) (Reply : Op → Type) (ε α φ : Type) where
  program : Option (Program Op Reply ε α)
  phase : φ

namespace Process

def Ended (process : Process Op Reply ε α φ) : Prop :=
  (∃ value, process.program = some (.pure value)) ∨ ∃ fault, process.program = some (.raise fault)

def Stopped (process : Process Op Reply ε α φ) : Prop := process.program = none

def Live (process : Process Op Reply ε α φ) : Prop := ¬ process.Ended ∧ ¬ process.Stopped

end Process

/-- Any number of processes, interleaved operation by operation; a stopped one keeps the
phase it was in. -/
inductive Interleaved {ι : Type} [DecidableEq ι] (P : Protocol Op Reply φ) (step : σ → (op : Op) → Reply op → σ → Prop)
    (env : σ → σ → Prop) (launch : Program Op Reply ε α → Prop) (first : φ) :
    σ × (ι → Option (Process Op Reply ε α φ)) → σ × (ι → Option (Process Op Reply ε α φ)) → Prop where
  | env {s s' processes} (change : env s s') : Interleaved P step env launch first (s, processes) (s', processes)
  | start {s processes program} (i : ι) (free : processes i = none) (begin : launch program) :
      Interleaved P step env launch first (s, processes) (s, Function.update processes i (some ⟨some program, first⟩))
  | perform {s processes op next phase reply s'} (i : ι)
      (running : processes i = some ⟨some (.perform op next), phase⟩)
      (possible : P.possible op reply) (done : step s op reply s') :
      Interleaved P step env launch first (s, processes)
        (s', Function.update processes i (some ⟨some (next reply), P.advance phase op reply⟩))
  | stop {s processes program phase} (i : ι) (running : processes i = some ⟨some program, phase⟩) :
      Interleaved P step env launch first (s, processes) (s, Function.update processes i (some ⟨none, phase⟩))

/-- The phases of the processes. -/
def phases {ι : Type} (processes : ι → Option (Process Op Reply ε α φ)) (i : ι) :
    Option φ := (processes i).map Process.phase

section Interleaving

variable {ι : Type} [DecidableEq ι] {P : Protocol Op Reply φ} {step : σ → (op : Op) → Reply op → σ → Prop}
    {env : σ → σ → Prop}
  {launch : Program Op Reply ε α → Prop} {first : φ}

theorem phases_update (processes : ι → Option (Process Op Reply ε α φ)) (i : ι) (process : Process Op Reply ε α φ) :
    phases (Function.update processes i (some process)) =
      Function.update (phases processes) i (some process.phase) := by
  funext j
  by_cases same : j = i
  · subst same
    simp [phases]
  · simp [phases, same]

/-- What interleaved processes keep whose programs follow the protocol. -/
theorem Interleaved.invariant {post : α → φ → Prop} {failed : φ → Prop} {I : σ → (ι → Option φ) → Prop}
    (environment : ∀ s s' phases, I s phases → env s s' → I s' phases)
    (launched : ∀ program, launch program → P.Follows post failed program first)
    (started : ∀ s phases i, I s phases → phases i = none → I s (Function.update phases i (some first)))
    (moved : ∀ s phases i phase op reply s', I s phases → phases i = some phase → P.allowed phase op →
      step s op reply s' →
      I s' (Function.update phases i (some (P.advance phase op reply))))
    {start current : σ × (ι → Option (Process Op Reply ε α φ))} (fresh : ∀ i, start.2 i = none)
    (initial : I start.1 (fun _ => none))
    (reached : Relation.ReflTransGen (Interleaved P step env launch first) start current) :
    I current.1 (phases current.2) ∧
      ∀ i program phase, current.2 i = some ⟨some program, phase⟩ → P.Follows post failed program phase := by
  induction reached with
  | refl =>
    refine ⟨?_, fun i program phase running => by simp [fresh i] at running⟩
    have none : phases start.2 = fun _ => none := funext (fun i => by simp [phases, fresh i])
    rwa [none]
  | @tail before after _ taken ih =>
    obtain ⟨here, follows⟩ := ih
    -- the other processes are as before
    have others {processes : ι → Option (Process Op Reply ε α φ)} {i : ι} {process : Process Op Reply ε α φ}
        (earlier : ∀ j program phase, processes j = some ⟨some program, phase⟩ → P.Follows post failed program phase)
        (own : ∀ program, process.program = some program → P.Follows post failed program process.phase) (j : ι)
        (program : Program Op Reply ε α) (phase : φ)
        (running : Function.update processes i (some process) j = some ⟨some program, phase⟩) :
            P.Follows post failed program phase := by
      by_cases same : j = i
      · subst same
        obtain rfl : process = ⟨some program, phase⟩ := by simpa using running
        exact own program rfl
      · exact earlier j program phase (by simpa [same] using running)
    cases taken with
    | env change => exact ⟨environment _ _ _ here change, follows⟩
    | start i free begin =>
      refine ⟨?_, others follows (fun program same => ?_)⟩
      · rw [phases_update]
        exact started _ _ i here (by simp [phases, free])
      · obtain rfl := Option.some.inj same
        exact launched _ begin
    | perform i running possible done =>
      obtain ⟨allowed, rest⟩ := follows i _ _ running
      refine ⟨?_, others follows (fun program same => ?_)⟩
      · rw [phases_update]
        exact moved _ _ i _ _ _ _ here (by simp [phases, running]) allowed done
      · obtain rfl := Option.some.inj same
        exact rest _ possible
    | @stop s processes program phase i running =>
      refine ⟨?_, others follows (fun program same => nomatch same)⟩
      rw [phases_update]
      have same : Function.update (phases processes) i (some phase) = phases processes :=
        Function.update_eq_self_iff.mpr (by simp [phases, running])
      rwa [same]

/-- A first part of a program can be run to its end. -/
theorem Protocol.Follows.runs {γ : Type} {part : Program Op Reply ε γ} {next : γ → Program Op Reply ε α} {value : γ}
    {post : γ → φ → Prop} {failed : φ → Prop} {phase : φ} (follows : P.Follows post failed part phase) {s s' : σ}
    (ends : part.Ends (fun s op reply s' => P.possible op reply ∧ step s op reply s') s (.ok value) s') (i : ι)
    (processes : ι → Option (Process Op Reply ε α φ)) :
    ∃ later, post value later ∧ Relation.ReflTransGen (Interleaved P step env launch first)
      (s, Function.update processes i (some ⟨some (part >>= next), phase⟩))
      (s', Function.update processes i (some ⟨some (next value), later⟩)) := by
  change ∃ later, post value later ∧ Relation.ReflTransGen (Interleaved P step env launch first)
    (s, Function.update processes i (some ⟨some (part.bind next), phase⟩)) _
  induction part generalizing s phase with
  | pure other =>
    obtain ⟨same, rfl⟩ := ends
    obtain rfl := Except.ok.inj same
    exact ⟨phase, follows, .refl⟩
  | raise fault => cases ends.1
  | abort => exact ends.elim
  | perform op resume ih =>
    obtain ⟨reply, s₁, ⟨possible, done⟩, rest⟩ := ends
    obtain ⟨later, reached, steps⟩ := ih reply (follows.2 reply possible) rest
    refine ⟨later, reached, .head ?_ steps⟩
    have performed : Interleaved P step env launch first
        (s, Function.update processes i (some ⟨some (.perform op (fun reply => (resume reply).bind next)), phase⟩))
          _ :=
      .perform i (Function.update_self ..) possible done
    rwa [Function.update_idem] at performed

end Interleaving

/-- The flag is up exactly when some process holds it, and only one does. -/
structure Exclusive {ι : Type} (holds : φ → Prop) (up : Prop) (phases : ι → Option φ) : Prop where
  held : up ↔ ∃ i phase, phases i = some phase ∧ holds phase
  single : ∀ i j phase phase', phases i = some phase → phases j = some phase' → holds phase → holds phase' → i = j

namespace Exclusive

variable {ι : Type} [DecidableEq ι] {holds : φ → Prop} {up up' : Prop} {phases : ι → Option φ} {i : ι} {phase : φ}

omit [DecidableEq ι] in
theorem none (down : ¬ up) : Exclusive holds up (fun _ : ι => none) :=
  ⟨⟨fun here => absurd here down, (fun ⟨_, _, wrong, _⟩ => nomatch wrong)⟩, (fun _ _ _ _ wrong => nomatch wrong)⟩

/-- A phase that holds the flag like the one before, or not like none before. -/
theorem keep (exclusive : Exclusive holds up phases) (same : up' ↔ up)
    (like : holds phase ↔ ∃ before, phases i = some before ∧ holds before) :
    Exclusive holds up' (Function.update phases i (some phase)) := by
  have as (j : ι) : (∃ later, Function.update phases i (some phase) j = some later ∧ holds later) ↔
      ∃ before, phases j = some before ∧ holds before := by
    by_cases own : j = i
    · subst own
      simpa using like
    · simp [own]
  refine ⟨?_, fun j k one other atJ atK holdsOne holdsOther => ?_⟩
  · rw [same, exclusive.held]
    exact exists_congr (fun j => (as j).symm)
  · obtain ⟨before, there, holding⟩ := (as j).mp ⟨one, atJ, holdsOne⟩
    obtain ⟨before', there', holding'⟩ := (as k).mp ⟨other, atK, holdsOther⟩
    exact exclusive.single j k before before' there there' holding holding'

/-- A flag that is down can be taken. -/
theorem take (exclusive : Exclusive holds up phases) (down : ¬ up) (raised : up') (holding : holds phase) :
    Exclusive holds up' (Function.update phases i (some phase)) := by
  have nobody (j : ι) (before : φ) (there : phases j = some before) : ¬ holds before :=
    fun here => down (exclusive.held.mpr ⟨j, before, there, here⟩)
  have own (j : ι) (later : φ) (there : Function.update phases i (some phase) j = some later)
      (here : holds later) : j = i := by
    by_contra other
    exact nobody j later (by simpa [other] using there) here
  refine ⟨⟨fun _ => ⟨i, phase, Function.update_self .., holding⟩, fun _ => raised⟩,
    fun j k one other atJ atK holdsOne holdsOther => ?_⟩
  exact (own j one atJ holdsOne).trans (own k other atK holdsOther).symm

/-- The one who holds the flag takes it down. -/
theorem release (exclusive : Exclusive holds up phases) {before : φ} (there : phases i = some before)
    (holding : holds before)
    (down : ¬ up') (free : ¬ holds phase) : Exclusive holds up' (Function.update phases i (some phase)) := by
  have nobody (j : ι) (later : φ) (here : Function.update phases i (some phase) j = some later) : ¬ holds later := by
    by_cases own : j = i
    · subst own
      obtain rfl : phase = later := by simpa using here
      exact free
    · have atJ : phases j = some later := by simpa [own] using here
      exact fun holdsLater => own (exclusive.single j i later before atJ there holdsLater holding)
  refine ⟨⟨fun raised => absurd raised down, fun ⟨j, later, here, holdsLater⟩ =>
    absurd holdsLater (nobody j later here)⟩, ?_⟩
  exact fun j _ later _ here _ holdsLater _ => absurd holdsLater (nobody j later here)

end Exclusive

end Osmdbt.General
