import Osmdbt.General.Completion
import Osmdbt.General.Safety
import Mathlib.Logic.Function.Basic

/-! Systems of programs: one that runs to its end, one run after the other with
stops, and any number of them interleaved. -/

namespace Osmdbt.General

variable {Op : Type} {Reply : Op → Type} {ε α σ τ : Type}

/-- A safe program that ran to its end satisfies its postcondition. -/
theorem Execution.post {D : Discipline Op Reply σ τ} {env : σ → σ → Prop}
    (follows : ∀ {s s' : σ} (t : τ), env s s' → ∃ t', D.rely (s, t) (s', t'))
    {program : Program Op Reply ε α} {s s' : σ} {result : Except ε α}
    (run : Execution D.step env program s result s') {post : α → σ × τ → Prop} {failed : ε → σ × τ → Prop}
    {t : τ} (safe : D.Safe post failed program (s, t)) :
    ∃ t', match result with
      | .ok value => post value (s', t')
      | .error fault => failed fault (s', t') := by
  induction run generalizing t with
  | pure value s => exact ⟨t, safe _ .refl⟩
  | raise fault s => exact ⟨t, safe _ .refl⟩
  | env change _ ih =>
    obtain ⟨t', here⟩ := follows t change
    exact ih (safe.later (.single here))
  | perform done _ ih =>
    obtain ⟨t₂, _, rest⟩ := safe _ .refl _ _ done
    exact ih rest

/-- One run at a time: it may be stopped between two operations, and the next
one starts from whatever was left. -/
inductive Sequential (step : σ → (op : Op) → Reply op → σ → Prop) (env : σ → σ → Prop)
    (launch : σ → Program Op Reply ε α → σ → Prop) :
    σ × Option (Program Op Reply ε α) → σ × Option (Program Op Reply ε α) → Prop where
  | env {s s' current} (change : env s s') : Sequential step env launch (s, current) (s', current)
  | start {s program s'} (begin : launch s program s') : Sequential step env launch (s, none) (s', some program)
  | perform {s op next reply s'} (done : step s op reply s') :
      Sequential step env launch (s, some (.perform op next)) (s', some (next reply))
  | stop {s program} : Sequential step env launch (s, some program) (s, none)

/-- A run that is started here, and stopped in a state it comes to. -/
theorem Program.Visits.stopped {step : σ → (op : Op) → Reply op → σ → Prop} {env : σ → σ → Prop}
    {launch : σ → Program Op Reply ε α → σ → Prop} {program : Program Op Reply ε α} {s s' : σ}
    (begin : launch s program s)
    (visits : program.Visits step s s') : Relation.ReflTransGen (Sequential step env launch) (s, none) (s', none) := by
  refine .head (.start begin) ?_
  clear begin
  induction program generalizing s with
  | perform op next ih =>
    rcases visits with rfl | ⟨reply, s₁, done, rest⟩
    · exact .single .stop
    · exact .head (.perform done) (ih reply rest)
  | _ =>
    obtain rfl : s' = s := visits
    exact .single .stop

/-- `idle` between two runs; during a run `busy`, and what is left of it is safe. -/
def Sequential.Holds (D : Discipline Op Reply σ τ) (post : α → σ × τ → Prop) (failed : ε → σ × τ → Prop)
    (idle busy : σ × τ → Prop) : σ × Option (Program Op Reply ε α) → Prop
  | (s, none) => ∃ t, idle (s, t)
  | (s, some program) => ∃ t, busy (s, t) ∧ D.Safe post failed program (s, t)

/-- What a sequential system keeps. -/
theorem Sequential.invariant {D : Discipline Op Reply σ τ} {env : σ → σ → Prop}
    {launch : σ → Program Op Reply ε α → σ → Prop} {idle busy : σ × τ → Prop}
    {post : α → σ × τ → Prop} {failed : ε → σ × τ → Prop}
    (envIdle : ∀ s s' t, idle (s, t) → env s s' → ∃ t', idle (s', t'))
    (envBusy : ∀ s s' t, busy (s, t) → env s s' → ∃ t', D.rely (s, t) (s', t') ∧ busy (s', t'))
    (launched : ∀ s program s' t, idle (s, t) → launch s program s' →
      ∃ t', busy (s', t') ∧ D.Safe post failed program (s', t'))
    (moved : ∀ c c', busy c → D.move c c' → busy c')
    (stopped : ∀ s t, busy (s, t) → ∃ t', idle (s, t'))
    {start current : σ × Option (Program Op Reply ε α)} (initial : Holds D post failed idle busy start)
    (reached : Relation.ReflTransGen (Sequential D.step env launch) start current) :
    Holds D post failed idle busy current := by
  induction reached with
  | refl => exact initial
  | @tail before after _ step ih =>
    cases step with
    | @env s s' cur change =>
      cases cur with
      | none =>
        obtain ⟨t, here⟩ := ih
        exact envIdle s s' t here change
      | some program =>
        obtain ⟨t, here, safe⟩ := ih
        obtain ⟨t', relied, later⟩ := envBusy s s' t here change
        exact ⟨t', later, safe.later (.single relied)⟩
    | start begin =>
      obtain ⟨t, here⟩ := ih
      exact launched _ _ _ t here begin
    | perform done =>
      obtain ⟨t, here, safe⟩ := ih
      obtain ⟨t₂, move, rest⟩ := safe _ .refl _ _ done
      exact ⟨t₂, moved _ _ here move, rest⟩
    | stop =>
      obtain ⟨t, here, _⟩ := ih
      exact stopped _ t here

/-- Any number of processes, interleaved operation by operation. -/
inductive Concurrent {ι : Type} [DecidableEq ι] (step : σ → (op : Op) → Reply op → σ → Prop)
    (env : σ → σ → Prop) (launch : Program Op Reply ε α → Prop) :
    σ × (ι → Option (Program Op Reply ε α)) → σ × (ι → Option (Program Op Reply ε α)) → Prop where
  | env {s s' processes} (change : env s s') : Concurrent step env launch (s, processes) (s', processes)
  | start {s processes program} (i : ι) (free : processes i = none) (begin : launch program) :
      Concurrent step env launch (s, processes) (s, Function.update processes i (some program))
  | perform {s processes op next reply s'} (i : ι) (running : processes i = some (.perform op next))
      (done : step s op reply s') :
      Concurrent step env launch (s, processes) (s', Function.update processes i (some (next reply)))
  | stop {s processes} (i : ι) : Concurrent step env launch (s, processes) (s, Function.update processes i none)

/-- A process that is started here, works alone, and is gone in a state it comes to. -/
theorem Program.Visits.process {ι : Type} [DecidableEq ι] {step : σ → (op : Op) → Reply op → σ → Prop}
    {env : σ → σ → Prop} {launch : Program Op Reply ε α → Prop} {program : Program Op Reply ε α} {s s' : σ}
    {processes : ι → Option (Program Op Reply ε α)} (i : ι) (free : processes i = none) (begin : launch program)
    (visits : program.Visits step s s') :
    Relation.ReflTransGen (Concurrent step env launch) (s, processes) (s', processes) := by
  have gone {current : ι → Option (Program Op Reply ε α)} (others : Function.update current i none = processes) :
      Relation.ReflTransGen (Concurrent step env launch) (s', current) (s', processes) := others ▸ .single (.stop i)
  have working {rest : Program Op Reply ε α} {s : σ} (visits : rest.Visits step s s') :
      Relation.ReflTransGen (Concurrent step env launch) (s, Function.update processes i (some rest))
        (s', processes) := by
    have others (current : Option (Program Op Reply ε α)) :
        Function.update (Function.update processes i current) i none = processes := by
      rw [Function.update_idem, ← free, Function.update_eq_self]
    induction rest generalizing s with
    | perform op next ih =>
      rcases visits with rfl | ⟨reply, s₁, done, rest⟩
      · exact gone (others _)
      · have moved := ih reply rest
        have replaced : Function.update (Function.update processes i (some (perform op next))) i (some (next reply)) =
            Function.update processes i (some (next reply)) := Function.update_idem ..
        rw [← replaced] at moved
        exact .head (.perform i (Function.update_self i _ processes) done) moved
    | _ =>
      obtain rfl : s' = s := visits
      exact gone (others _)
  exact .head (.start i free begin) (working visits)

/-- What interleaved processes keep, when every own move is one the others rely on. -/
theorem Concurrent.invariant {ι : Type} [DecidableEq ι] {D : ι → Discipline Op Reply σ τ}
    {step : σ → (op : Op) → Reply op → σ → Prop} (same : ∀ i, (D i).step = step) {env : σ → σ → Prop}
    {launch : Program Op Reply ε α → Prop} {inv : σ × τ → Prop}
    {post : α → σ × τ → Prop} {failed : ε → σ × τ → Prop}
    (environment : ∀ s s' t, inv (s, t) → env s s' →
      ∃ t', inv (s', t') ∧ ∀ i, (D i).rely (s, t) (s', t'))
    (launched : ∀ i program c, inv c → launch program → (D i).Safe post failed program c)
    (moved : ∀ i c c', inv c → (D i).move c c' → inv c' ∧ ∀ j, j ≠ i → (D j).rely c c')
    {start current : σ × (ι → Option (Program Op Reply ε α))} (fresh : ∀ i, start.2 i = none)
    (initial : ∃ t, inv (start.1, t))
    (reached : Relation.ReflTransGen (Concurrent step env launch) start current) :
    ∃ t, inv (current.1, t) ∧
      ∀ i program, current.2 i = some program → (D i).Safe post failed program (current.1, t) := by
  induction reached with
  | refl =>
    obtain ⟨t, here⟩ := initial
    exact ⟨t, here, fun i program running => by simp [fresh i] at running⟩
  | @tail before after _ taken ih =>
    obtain ⟨t, here, safe⟩ := ih
    cases taken with
    | @env s s' processes change =>
      obtain ⟨t', later, relied⟩ := environment s s' t here change
      exact ⟨t', later, fun i program running => (safe i program running).later (.single (relied i))⟩
    | @start s processes program i free begin =>
      refine ⟨t, here, fun j other running => ?_⟩
      by_cases own : j = i
      · subst own
        obtain rfl : program = other := by simpa using running
        exact launched j program (s, t) here begin
      · exact safe j other (by simpa [own] using running)
    | @perform s processes op next reply s' i running done =>
      obtain ⟨t₂, move, rest⟩ := safe i _ running (s, t) .refl reply s' (same i ▸ done)
      obtain ⟨later, others⟩ := moved i _ _ here move
      refine ⟨t₂, later, fun j other active => ?_⟩
      by_cases own : j = i
      · subst own
        obtain rfl : next reply = other := by simpa using active
        exact rest
      · exact (safe j other (by simpa [own] using active)).later (.single (others j own))
    | @stop s processes i =>
      refine ⟨t, here, fun j other running => ?_⟩
      by_cases own : j = i
      · subst own
        simp at running
      · exact safe j other (by simpa [own] using running)

end Osmdbt.General
