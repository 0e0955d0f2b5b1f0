import Osmdbt.General.System

/-! Programs that go on in the same way after different replies. Their runs over one kind
of states are runs over another, when each operation does there what it does here and
gets a reply that makes no difference. -/

namespace Osmdbt.General

namespace Program

variable {Op : Type} {Reply : Op → Type} {ε α β : Type}

/-- Only allowed operations are asked for, and replies that are alike lead to the same rest. -/
def Indifferent (allowed : Op → Prop) (alike : (op : Op) → Reply op → Reply op → Prop) (post : α → Prop) :
    Program Op Reply ε α → Prop
  | .pure value => post value
  | .raise _ => True
  | .abort => True
  | .perform op next =>
    allowed op ∧ ∀ reply reply', alike op reply reply' → next reply = next reply' ∧
      Indifferent allowed alike post (next reply)

section Rules

variable {allowed : Op → Prop} {alike : (op : Op) → Reply op → Reply op → Prop} {post : α → Prop}

theorem Indifferent.weaken {post' : α → Prop} {program : Program Op Reply ε α}
    (here : program.Indifferent allowed alike post)
    (wider : ∀ value, post value → post' value) : program.Indifferent allowed alike post' := by
  induction program with
  | pure value => exact wider value here
  | raise fault => trivial
  | abort => trivial
  | perform op next ih =>
    refine ⟨here.1, fun reply reply' same => ?_⟩
    obtain ⟨equal, rest⟩ := here.2 reply reply' same
    exact ⟨equal, ih reply rest⟩

/-- Operations whose replies are alike only when they are equal. -/
theorem Uses.indifferent {program : Program Op Reply ε α}
    (uses : program.Uses (fun op => allowed op ∧ ∀ reply reply', alike op reply reply' → reply = reply') post) :
    program.Indifferent allowed alike post := by
  induction program with
  | pure value => exact uses
  | raise fault => trivial
  | abort => trivial
  | perform op next ih =>
    obtain ⟨⟨here, strict⟩, later⟩ := uses
    exact ⟨here, fun reply reply' same => ⟨congrArg next (strict reply reply' same), ih reply (later reply)⟩⟩

theorem Indifferent.bind {program : Program Op Reply ε α} {next : α → Program Op Reply ε β} {post' : β → Prop}
    (first : program.Indifferent allowed alike post)
    (rest : ∀ value, post value → (next value).Indifferent allowed alike post') :
    (program >>= next).Indifferent allowed alike post' := by
  change (program.bind next).Indifferent allowed alike post'
  induction program with
  | pure value => exact rest value first
  | raise fault => trivial
  | abort => trivial
  | perform op resume ih =>
    refine ⟨first.1, fun reply reply' same => ?_⟩
    obtain ⟨equal, later⟩ := first.2 reply reply' same
    exact ⟨congrArg (fun program => program.bind next) equal, ih reply later⟩

theorem Indifferent.scope {program : Program Op Reply ε α} {cleanup : Program Op Reply ε Unit}
    (first : program.Indifferent allowed alike post) (last : cleanup.Indifferent allowed alike (fun _ => True)) :
    (program.scope cleanup).Indifferent allowed alike post := by
  induction program with
  | pure value => exact last.bind (fun _ _ => first)
  | raise fault => exact last.bind (fun _ _ => trivial)
  | abort => trivial
  | perform op resume ih =>
    refine ⟨first.1, fun reply reply' same => ?_⟩
    obtain ⟨equal, later⟩ := first.2 reply reply' same
    exact ⟨congrArg (fun program => program.scope cleanup) equal, ih reply later⟩

end Rules

end Program

variable {Op : Type} {Reply : Op → Type} {ε α σ τ : Type}

/-- The steps over `τ` are steps over `σ`, between states that belong together. -/
structure Simulates (allowed : Op → Prop) (alike : (op : Op) → Reply op → Reply op → Prop) (belong : σ → τ → Prop)
    (step : σ → (op : Op) → Reply op → σ → Prop) (env : σ → σ → Prop) (step' : τ → (op : Op) → Reply op → τ → Prop)
    (env' : τ → τ → Prop) : Prop where
  performed : ∀ s t op reply' t', belong s t → allowed op → step' t op reply' t' →
    ∃ reply s', alike op reply reply' ∧ step s op reply s' ∧ belong s' t'
  changed : ∀ s t t', belong s t → env' t t' → belong s t' ∨ ∃ s', env s s' ∧ belong s' t'

section Simulation

variable {ι : Type} [DecidableEq ι] {allowed : Op → Prop} {alike : (op : Op) → Reply op → Reply op → Prop}
    {belong : σ → τ → Prop}
  {step : σ → (op : Op) → Reply op → σ → Prop} {env : σ → σ → Prop} {step' : τ → (op : Op) → Reply op → τ → Prop}
  {env' : τ → τ → Prop} {launch : Program Op Reply ε α → Prop}

/-- Interleaved processes that come to a state there come to one here that belongs to it,
and have the same left to do. -/
theorem Concurrent.simulated (simulates : Simulates allowed alike belong step env step' env')
    (indifferent : ∀ program, launch program → program.Indifferent allowed alike (fun _ => True)) {s : σ} {t t' : τ}
    {processes : ι → Option (Program Op Reply ε α)} (together : belong s t)
    (reached : Relation.ReflTransGen (Concurrent step' env' launch) (t, fun _ => none) (t', processes)) :
    ∃ s', Relation.ReflTransGen (Concurrent step env launch) (s, fun _ => none) (s', processes) ∧ belong s' t' := by
  have all : ∃ s', Relation.ReflTransGen (Concurrent step env launch) (s, fun _ => none) (s', processes) ∧
    belong s' t' ∧
      ∀ i program, processes i = some program → program.Indifferent allowed alike (fun _ => True) := by
    generalize done : ((t', processes) : τ × (ι → Option (Program Op Reply ε α))) = current at reached
    induction reached generalizing t' processes with
    | refl =>
      obtain ⟨rfl, rfl⟩ := Prod.mk.inj done
      exact ⟨s, .refl, together, fun _ _ none => nomatch none⟩
    | @tail before _ _ taken ih =>
      obtain ⟨t₁, processes₁⟩ := before
      obtain ⟨s₁, earlier, belongs, running⟩ := ih rfl
      cases taken with
      | env change =>
        obtain ⟨rfl, rfl⟩ := Prod.mk.inj done
        rcases simulates.changed s₁ t₁ t' belongs change with belongs | ⟨s₂, change, belongs⟩
        · exact ⟨s₁, earlier, belongs, running⟩
        · exact ⟨s₂, earlier.tail (.env change), belongs, running⟩
      | start i free begin =>
        obtain ⟨rfl, rfl⟩ := Prod.mk.inj done
        refine ⟨s₁, earlier.tail (.start i free begin), belongs, fun j other active => ?_⟩
        by_cases own : j = i
        · subst own
          rw [Function.update_self] at active
          exact Option.some.inj active ▸ indifferent _ begin
        · rw [Function.update_of_ne own] at active
          exact running j other active
      | @perform _ _ op next reply' _ i here step =>
        obtain ⟨rfl, rfl⟩ := Prod.mk.inj done
        obtain ⟨allowed, rest⟩ := running i _ here
        obtain ⟨reply, s₂, same, step, belongs⟩ := simulates.performed s₁ t₁ op reply' t' belongs allowed step
        obtain ⟨equal, later⟩ := rest reply reply' same
        rw [← equal]
        refine ⟨s₂, earlier.tail (.perform i here step), belongs, fun j other active => ?_⟩
        by_cases own : j = i
        · subst own
          rw [Function.update_self] at active
          exact Option.some.inj active ▸ later
        · rw [Function.update_of_ne own] at active
          exact running j other active
      | stop i =>
        obtain ⟨rfl, rfl⟩ := Prod.mk.inj done
        refine ⟨s₁, earlier.tail (.stop i), belongs, fun j other active => ?_⟩
        by_cases own : j = i
        · subst own
          rw [Function.update_self] at active
          cases active
        · rw [Function.update_of_ne own] at active
          exact running j other active
  obtain ⟨s', reached, belongs, _⟩ := all
  exact ⟨s', reached, belongs⟩

end Simulation

end Osmdbt.General
