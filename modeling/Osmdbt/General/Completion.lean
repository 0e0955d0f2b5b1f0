import Osmdbt.General.Program

/-! Runs without interference: what a program that ends leaves behind, part by part,
and runs computed from a server that answers every operation. -/

namespace Osmdbt.General

namespace Program

variable {Op : Type} {Reply : Op → Type} {ε α β σ : Type}

/-- The program, started in `s`, ends in `s'`. -/
def Ends (step : σ → (op : Op) → Reply op → σ → Prop) : Program Op Reply ε α → σ → Except ε α → σ → Prop
  | .pure value, s, result, s' => result = .ok value ∧ s' = s
  | .raise fault, s, result, s' => result = .error fault ∧ s' = s
  | .abort, _, _, _ => False
  | .perform op next, s, result, s' => ∃ reply s₁, step s op reply s₁ ∧ Ends step (next reply) s₁ result s'

/-- A run of the program, started in `s`, comes to `s'`; it may go on or be stopped there. -/
def Visits (step : σ → (op : Op) → Reply op → σ → Prop) : Program Op Reply ε α → σ → σ → Prop
  | .perform op next, s, s' => s' = s ∨ ∃ reply s₁, step s op reply s₁ ∧ Visits step (next reply) s₁ s'
  | _, s, s' => s' = s

variable {step : σ → (op : Op) → Reply op → σ → Prop} {s s' : σ}

theorem Ends.visits {program : Program Op Reply ε α} {result : Except ε α} (ends : program.Ends step s result s') :
    program.Visits step s s' := by
  induction program generalizing s with
  | pure value => exact ends.2
  | raise fault => exact ends.2
  | abort => exact ends.elim
  | perform op next ih =>
    obtain ⟨reply, s₁, done, rest⟩ := ends
    exact .inr ⟨reply, s₁, done, ih reply rest⟩

/-- A run to its end is one in which nobody else does anything. -/
theorem Ends.execution {env : σ → σ → Prop} {program : Program Op Reply ε α} {result : Except ε α}
    (ends : program.Ends step s result s') : Execution step env program s result s' := by
  induction program generalizing s with
  | pure value =>
    obtain ⟨rfl, rfl⟩ := ends
    exact .pure value s'
  | raise fault =>
    obtain ⟨rfl, rfl⟩ := ends
    exact .raise fault s'
  | abort => exact ends.elim
  | perform op next ih =>
    obtain ⟨reply, s₁, done, rest⟩ := ends
    exact .perform done (ih reply rest)

/-- What every permitted step is, every run is made of. -/
theorem Ends.within {step' : σ → (op : Op) → Reply op → σ → Prop}
    (each : ∀ s op reply s', step s op reply s' → step' s op reply s')
    {program : Program Op Reply ε α} {result : Except ε α} (ends : program.Ends step s result s') :
    program.Ends step' s result s' := by
  induction program generalizing s with
  | pure value => exact ends
  | raise fault => exact ends
  | abort => exact ends.elim
  | perform op next ih =>
    obtain ⟨reply, s₁, done, rest⟩ := ends
    exact ⟨reply, s₁, each s op reply s₁ done, ih reply rest⟩

theorem Visits.within {step' : σ → (op : Op) → Reply op → σ → Prop} {allowed : Op → Prop} {post : α → Prop}
    {program : Program Op Reply ε α} (uses : program.Uses allowed post)
    (each : ∀ s op reply s', allowed op → step s op reply s' → step' s op reply s')
    (visits : program.Visits step s s') :
    program.Visits step' s s' := by
  induction program generalizing s with
  | pure value => exact visits
  | raise fault => exact visits
  | abort => exact visits
  | perform op next ih =>
    rcases visits with rfl | ⟨reply, s₁, done, rest⟩
    · exact .inl rfl
    · exact .inr ⟨reply, s₁, each s op reply s₁ uses.1 done, ih reply (uses.2 reply) rest⟩

theorem ends_request {op : Op} {result : Except ε (Reply op)} :
    (request op : Program Op Reply ε (Reply op)).Ends step s result s' ↔
      ∃ reply, step s op reply s' ∧ result = .ok reply := by
  constructor
  · rintro ⟨reply, s₁, done, rfl, rfl⟩
    exact ⟨reply, done, rfl⟩
  · rintro ⟨reply, done, rfl⟩
    exact ⟨reply, s', done, rfl, rfl⟩

theorem ends_lift {value result : Except ε α} :
    (lift value : Program Op Reply ε α).Ends step s result s' ↔ result = value ∧ s' = s := by
  cases value <;> exact Iff.rfl

theorem ends_ite {condition : Prop} [Decidable condition] {yes no : Program Op Reply ε α} {result : Except ε α} :
    (if condition then yes else no).Ends step s result s' ↔
      condition ∧ yes.Ends step s result s' ∨ ¬ condition ∧ no.Ends step s result s' := by
  split
  · rename_i here
    exact ⟨fun ends => .inl ⟨here, ends⟩, fun ends => ends.elim And.right (fun wrong => absurd here wrong.1)⟩
  · rename_i here
    exact ⟨fun ends => .inr ⟨here, ends⟩, fun ends => ends.elim (fun wrong => absurd wrong.1 here) And.right⟩

theorem ends_assert {condition : Prop} [Decidable condition] {result : Except ε Unit} :
    (Program.assert condition : Program Op Reply ε Unit).Ends step s result s' ↔
      condition ∧ result = .ok () ∧ s' = s := by
  unfold Program.assert
  split
  · rename_i holds
    exact ⟨fun ends => ⟨holds, ends⟩, And.right⟩
  · rename_i fails
    exact ⟨False.elim, fun both => fails both.1⟩

theorem ends_bind {program : Program Op Reply ε α} {next : α → Program Op Reply ε β} {result : Except ε β} :
    (program >>= next).Ends step s result s' ↔
      (∃ value s₁, program.Ends step s (.ok value) s₁ ∧ (next value).Ends step s₁ result s') ∨
        ∃ fault, result = .error fault ∧ program.Ends step s (.error fault) s' := by
  change (program.bind next).Ends step s result s' ↔ _
  induction program generalizing s with
  | pure value =>
    constructor
    · exact fun ends => .inl ⟨value, s, ⟨rfl, rfl⟩, ends⟩
    · rintro (⟨other, s₁, ⟨same, rfl⟩, ends⟩ | ⟨fault, _, wrong, _⟩)
      · obtain rfl := Except.ok.inj same
        exact ends
      · cases wrong
  | raise fault =>
    constructor
    · rintro ⟨rfl, rfl⟩
      exact .inr ⟨fault, rfl, rfl, rfl⟩
    · rintro (⟨other, s₁, ⟨wrong, _⟩, _⟩ | ⟨other, rfl, same, rfl⟩)
      · cases wrong
      · exact ⟨congrArg Except.error (Except.error.inj same), rfl⟩
  | abort =>
    constructor
    · exact False.elim
    · rintro (⟨_, _, wrong, _⟩ | ⟨_, _, wrong⟩) <;> exact wrong.elim
  | perform op resume ih =>
    constructor
    · rintro ⟨reply, s₁, done, rest⟩
      rcases (ih reply).mp rest with ⟨value, s₂, first, second⟩ | ⟨fault, same, first⟩
      · exact .inl ⟨value, s₂, ⟨reply, s₁, done, first⟩, second⟩
      · exact .inr ⟨fault, same, reply, s₁, done, first⟩
    · rintro (⟨value, s₂, ⟨reply, s₁, done, first⟩, second⟩ | ⟨fault, same, reply, s₁, done, first⟩)
      · exact ⟨reply, s₁, done, (ih reply).mpr (.inl ⟨value, s₂, first, second⟩)⟩
      · exact ⟨reply, s₁, done, (ih reply).mpr (.inr ⟨fault, same, first⟩)⟩

theorem ends_bind_ok {program : Program Op Reply ε α} {next : α → Program Op Reply ε β} {value : β} :
    (program >>= next).Ends step s (.ok value) s' ↔
      ∃ middle s₁, program.Ends step s (.ok middle) s₁ ∧ (next middle).Ends step s₁ (.ok value) s' := by
  rw [ends_bind]
  exact ⟨fun either => either.resolve_right (by rintro ⟨_, wrong, _⟩; cases wrong), .inl⟩

/-- The destructor runs in either case; an exception of its own replaces the result. -/
theorem ends_scope {program : Program Op Reply ε α} {cleanup : Program Op Reply ε Unit} {result : Except ε α} :
    (program.scope cleanup).Ends step s result s' ↔
      ∃ first s₁, program.Ends step s first s₁ ∧ (cleanup.Ends step s₁ (.ok ()) s' ∧ result = first ∨
        ∃ fault, cleanup.Ends step s₁ (.error fault) s' ∧ result = .error fault) := by
  induction program generalizing s with
  | pure value =>
    change (cleanup >>= fun _ => Pure.pure value).Ends step s result s' ↔ _
    rw [ends_bind]
    constructor
    · rintro (⟨_, s₁, clean, rfl, rfl⟩ | ⟨fault, rfl, clean⟩)
      · exact ⟨_, s, ⟨rfl, rfl⟩, .inl ⟨clean, rfl⟩⟩
      · exact ⟨_, s, ⟨rfl, rfl⟩, .inr ⟨fault, clean, rfl⟩⟩
    · rintro ⟨_, _, ⟨rfl, rfl⟩, ⟨clean, rfl⟩ | ⟨fault, clean, rfl⟩⟩
      · exact .inl ⟨(), s', clean, rfl, rfl⟩
      · exact .inr ⟨fault, rfl, clean⟩
  | raise raised =>
    change (cleanup >>= fun _ => (raise raised : Program Op Reply ε _)).Ends step s result s' ↔ _
    rw [ends_bind]
    constructor
    · rintro (⟨_, s₁, clean, rfl, rfl⟩ | ⟨fault, rfl, clean⟩)
      · exact ⟨_, s, ⟨rfl, rfl⟩, .inl ⟨clean, rfl⟩⟩
      · exact ⟨_, s, ⟨rfl, rfl⟩, .inr ⟨fault, clean, rfl⟩⟩
    · rintro ⟨_, _, ⟨rfl, rfl⟩, ⟨clean, rfl⟩ | ⟨fault, clean, rfl⟩⟩
      · exact .inl ⟨(), s', clean, rfl, rfl⟩
      · exact .inr ⟨fault, rfl, clean⟩
  | abort =>
    constructor
    · exact False.elim
    · rintro ⟨_, _, wrong, _⟩
      exact wrong.elim
  | perform op next ih =>
    constructor
    · rintro ⟨reply, s₁, done, rest⟩
      obtain ⟨first, s₂, body, clean⟩ := (ih reply).mp rest
      exact ⟨first, s₂, ⟨reply, s₁, done, body⟩, clean⟩
    · rintro ⟨first, s₂, ⟨reply, s₁, done, body⟩, clean⟩
      exact ⟨reply, s₁, done, (ih reply).mpr ⟨first, s₂, body, clean⟩⟩

theorem visits_bind {program : Program Op Reply ε α} {next : α → Program Op Reply ε β}
    (visits : (program >>= next).Visits step s s') : program.Visits step s s' ∨
      ∃ value s₁, program.Ends step s (.ok value) s₁ ∧ (next value).Visits step s₁ s' := by
  change (program.bind next).Visits step s s' at visits
  induction program generalizing s with
  | pure value => exact .inr ⟨value, s, ⟨rfl, rfl⟩, visits⟩
  | raise fault => exact .inl visits
  | abort => exact .inl visits
  | perform op resume ih =>
    rcases visits with rfl | ⟨reply, s₁, done, rest⟩
    · exact .inl (.inl rfl)
    · rcases ih reply rest with first | ⟨value, s₂, first, second⟩
      · exact .inl (.inr ⟨reply, s₁, done, first⟩)
      · exact .inr ⟨value, s₂, ⟨reply, s₁, done, first⟩, second⟩

theorem visits_scope {program : Program Op Reply ε α} {cleanup : Program Op Reply ε Unit}
    (visits : (program.scope cleanup).Visits step s s') : program.Visits step s s' ∨
      ∃ result s₁, program.Ends step s result s₁ ∧ cleanup.Visits step s₁ s' := by
  induction program generalizing s with
  | pure value =>
    rcases visits_bind visits with here | ⟨_, s₁, clean, after⟩
    · exact .inr ⟨.ok value, s, ⟨rfl, rfl⟩, here⟩
    · obtain rfl : s' = s₁ := after
      exact .inr ⟨.ok value, s, ⟨rfl, rfl⟩, clean.visits⟩
  | raise fault =>
    rcases visits_bind visits with here | ⟨_, s₁, clean, after⟩
    · exact .inr ⟨.error fault, s, ⟨rfl, rfl⟩, here⟩
    · obtain rfl : s' = s₁ := after
      exact .inr ⟨.error fault, s, ⟨rfl, rfl⟩, clean.visits⟩
  | abort => exact .inl visits
  | perform op next ih =>
    rcases visits with rfl | ⟨reply, s₁, done, rest⟩
    · exact .inl (.inl rfl)
    · rcases ih reply rest with body | ⟨result, s₂, body, clean⟩
      · exact .inl (.inr ⟨reply, s₁, done, body⟩)
      · exact .inr ⟨result, s₂, ⟨reply, s₁, done, body⟩, clean⟩

/-- A run comes to the state it starts from. -/
theorem Visits.start (program : Program Op Reply ε α) (s : σ) : program.Visits step s s := by
  cases program with
  | perform op next => exact .inl rfl
  | _ => exact rfl

theorem Ends.then_visits {program : Program Op Reply ε α} {next : α → Program Op Reply ε β} {value : α} {s₁ : σ}
    (first : program.Ends step s (.ok value) s₁) (rest : (next value).Visits step s₁ s') :
    (program >>= next).Visits step s s' := by
  change (program.bind next).Visits step s s'
  induction program generalizing s with
  | pure other =>
    obtain ⟨same, rfl⟩ := first
    obtain rfl := Except.ok.inj same
    exact rest
  | raise fault => cases first.1
  | abort => exact first.elim
  | perform op resume ih =>
    obtain ⟨reply, s₂, done, later⟩ := first
    exact .inr ⟨reply, s₂, done, ih reply later⟩

theorem Visits.bind {program : Program Op Reply ε α} {next : α → Program Op Reply ε β}
    (visits : program.Visits step s s') :
    (program >>= next).Visits step s s' := by
  change (program.bind next).Visits step s s'
  induction program generalizing s with
  | perform op resume ih =>
    rcases visits with rfl | ⟨reply, s₁, done, rest⟩
    · exact .inl rfl
    · exact .inr ⟨reply, s₁, done, ih reply rest⟩
  | _ =>
    obtain rfl : s' = s := visits
    exact .start _ _

theorem Visits.scope {program : Program Op Reply ε α} {cleanup : Program Op Reply ε Unit}
    (visits : program.Visits step s s') :
    (program.scope cleanup).Visits step s s' := by
  induction program generalizing s with
  | perform op next ih =>
    rcases visits with rfl | ⟨reply, s₁, done, rest⟩
    · exact .inl rfl
    · exact .inr ⟨reply, s₁, done, ih reply rest⟩
  | _ =>
    obtain rfl : s' = s := visits
    exact .start _ _

/-- What a program keeps in every state it comes to. -/
theorem Visits.kept {allowed : Op → Prop} {post : α → Prop} {program : Program Op Reply ε α} {P : σ → Prop}
    (uses : program.Uses allowed post) (visits : program.Visits step s s')
    (each : ∀ s op reply s', P s → allowed op → step s op reply s' → P s') (here : P s) : P s' := by
  induction program generalizing s with
  | pure value => exact visits ▸ here
  | raise fault => exact visits ▸ here
  | abort => exact visits ▸ here
  | perform op next ih =>
    rcases visits with rfl | ⟨reply, s₁, done, rest⟩
    · exact here
    · exact ih reply (uses.2 reply) rest (each s op reply s₁ here uses.1 done)

/-- Steps that are of another kind as long as something is kept. -/
theorem Visits.within_kept {step' : σ → (op : Op) → Reply op → σ → Prop} {allowed : Op → Prop} {post : α → Prop}
    {program : Program Op Reply ε α} {P : σ → Prop} (uses : program.Uses allowed post)
    (each : ∀ s op reply s', P s → allowed op → step s op reply s' → step' s op reply s' ∧ P s') (here : P s)
    (visits : program.Visits step s s') : program.Visits step' s s' := by
  induction program generalizing s with
  | pure value => exact visits
  | raise fault => exact visits
  | abort => exact visits
  | perform op next ih =>
    rcases visits with rfl | ⟨reply, s₁, done, rest⟩
    · exact .inl rfl
    · obtain ⟨done', here'⟩ := each s op reply s₁ here uses.1 done
      exact .inr ⟨reply, s₁, done', ih reply (uses.2 reply) here' rest⟩

/-- What a program keeps that only performs allowed operations. -/
theorem Ends.kept {allowed : Op → Prop} {post : α → Prop} {program : Program Op Reply ε α} {result : Except ε α}
    {P : σ → Prop} (uses : program.Uses allowed post) (ends : program.Ends step s result s')
    (each : ∀ s op reply s', P s → allowed op → step s op reply s' → P s') (here : P s) : P s' :=
  ends.visits.kept uses each here

theorem Ends.raised {may : ε → Prop} {program : Program Op Reply ε α} {fault : ε} (raises : program.Raises may)
    (ends : program.Ends step s (.error fault) s') : may fault := by
  induction program generalizing s with
  | pure value => cases ends.1
  | raise other =>
    obtain rfl := Except.error.inj ends.1
    exact raises
  | abort => exact ends.elim
  | perform op next ih =>
    obtain ⟨reply, s₁, _, rest⟩ := ends
    exact ih reply (raises reply) rest

/-- A run is repeated from any similar state when the allowed operations are, unless the
run comes to a bad state, which it cannot leave. -/
theorem Ends.simulate_unless {allowed : Op → Prop} {post : α → Prop} {program : Program Op Reply ε α}
    {result : Except ε α}
    {τ : Type} {step' : τ → (op : Op) → Reply op → τ → Prop} {R : σ → τ → Prop} {bad : σ → Prop}
    (uses : program.Uses allowed post) (ends : program.Ends step s result s')
    (each : ∀ s op reply s' t, R s t → allowed op → step s op reply s' → bad s' ∨ ∃ t', step' t op reply t' ∧ R s' t')
    (stays : ∀ s op reply s', bad s → allowed op → step s op reply s' → bad s')
    {t : τ} (similar : R s t) : bad s' ∨ ∃ t', program.Ends step' t result t' ∧ R s' t' := by
  induction program generalizing s t with
  | pure value =>
    obtain ⟨rfl, rfl⟩ := ends
    exact .inr ⟨t, ⟨rfl, rfl⟩, similar⟩
  | raise fault =>
    obtain ⟨rfl, rfl⟩ := ends
    exact .inr ⟨t, ⟨rfl, rfl⟩, similar⟩
  | abort => exact ends.elim
  | perform op next ih =>
    obtain ⟨reply, s₁, done, rest⟩ := ends
    rcases each s op reply s₁ t similar uses.1 done with wrong | ⟨t₁, done', similar'⟩
    · exact .inl (rest.kept (uses.2 reply) stays wrong)
    · rcases ih reply (uses.2 reply) rest similar' with wrong | ⟨t', rest', last⟩
      · exact .inl wrong
      · exact .inr ⟨t', ⟨reply, t₁, done', rest'⟩, last⟩

theorem Ends.simulate {allowed : Op → Prop} {post : α → Prop} {program : Program Op Reply ε α} {result : Except ε α}
    {τ : Type} {step' : τ → (op : Op) → Reply op → τ → Prop} {R : σ → τ → Prop} (uses : program.Uses allowed post)
    (ends : program.Ends step s result s')
    (each : ∀ s op reply s' t, R s t → allowed op → step s op reply s' → ∃ t', step' t op reply t' ∧ R s' t')
    {t : τ} (similar : R s t) : ∃ t', program.Ends step' t result t' ∧ R s' t' := by
  have always := ends.simulate_unless uses (fun s op reply s' t similar used done =>
    .inr (each s op reply s' t similar used done))
    (fun _ _ _ _ (wrong : False) _ _ => wrong) similar
  exact always.resolve_left id

/-- A run of the program, started in `s`, comes to an assertion that fails. -/
def Aborts (step : σ → (op : Op) → Reply op → σ → Prop) : Program Op Reply ε α → σ → Prop
  | .abort, _ => True
  | .perform op next, s => ∃ reply s₁, step s op reply s₁ ∧ Aborts step (next reply) s₁
  | _, _ => False

theorem aborts_pure {value : α} : ¬ (Pure.pure value : Program Op Reply ε α).Aborts step s := id

theorem aborts_raise {fault : ε} : ¬ (raise fault : Program Op Reply ε α).Aborts step s := id

theorem aborts_request {op : Op} : ¬ (request op : Program Op Reply ε (Reply op)).Aborts step s :=
  fun ⟨_, _, _, wrong⟩ => wrong

theorem aborts_lift {value : Except ε α} : ¬ (lift value : Program Op Reply ε α).Aborts step s := by
  cases value <;> exact id

theorem aborts_assert {condition : Prop} [Decidable condition] :
    (Program.assert condition : Program Op Reply ε Unit).Aborts step s ↔ ¬ condition := by
  unfold Program.assert
  split
  · rename_i holds
    exact ⟨False.elim, fun fails => fails holds⟩
  · rename_i fails
    exact ⟨fun _ => fails, fun _ => trivial⟩

theorem aborts_bind {program : Program Op Reply ε α} {next : α → Program Op Reply ε β} :
    (program >>= next).Aborts step s ↔
      program.Aborts step s ∨ ∃ value s₁, program.Ends step s (.ok value) s₁ ∧ (next value).Aborts step s₁ := by
  change (program.bind next).Aborts step s ↔ _
  induction program generalizing s with
  | pure value =>
    constructor
    · exact fun aborts => .inr ⟨value, s, ⟨rfl, rfl⟩, aborts⟩
    · rintro (wrong | ⟨other, s₁, ⟨same, rfl⟩, aborts⟩)
      · exact wrong.elim
      · obtain rfl := Except.ok.inj same
        exact aborts
  | raise fault =>
    constructor
    · exact False.elim
    · rintro (wrong | ⟨_, _, ⟨wrong, _⟩, _⟩)
      · exact wrong.elim
      · cases wrong
  | abort => exact ⟨fun _ => .inl trivial, fun _ => trivial⟩
  | perform op resume ih =>
    constructor
    · rintro ⟨reply, s₁, done, rest⟩
      rcases (ih reply).mp rest with first | ⟨value, s₂, first, second⟩
      · exact .inl ⟨reply, s₁, done, first⟩
      · exact .inr ⟨value, s₂, ⟨reply, s₁, done, first⟩, second⟩
    · rintro (⟨reply, s₁, done, first⟩ | ⟨value, s₂, ⟨reply, s₁, done, first⟩, second⟩)
      · exact ⟨reply, s₁, done, (ih reply).mpr (.inl first)⟩
      · exact ⟨reply, s₁, done, (ih reply).mpr (.inr ⟨value, s₂, first, second⟩)⟩

/-- The system, and next to it what somebody notes down about every operation. -/
def Observed {τ : Type} (step : σ → (op : Op) → Reply op → σ → Prop) (note : τ → (op : Op) → Reply op →
    τ → Prop) (c : σ × τ)
    (op : Op) (reply : Reply op) (c' : σ × τ) : Prop :=
  step c.1 op reply c'.1 ∧ note c.2 op reply c'.2

section Observed

variable {τ : Type} {note : τ → (op : Op) → Reply op → τ → Prop} {c c' : σ × τ} {program : Program Op Reply ε α}
  {result : Except ε α}

theorem Ends.unobserved (ends : program.Ends (Observed step note) c result c') :
    program.Ends step c.1 result c'.1 := by
  have each (c : σ × τ) (op : Op) (reply : Reply op) (c' : σ × τ) (s : σ) (same : s = c.1) (_ : True)
      (done : Observed step note c op reply c') : ∃ s', step s op reply s' ∧ s' = c'.1 := by
    subst same
    exact ⟨c'.1, done.1, rfl⟩
  obtain ⟨s', ran, rfl⟩ := ends.simulate program.uses_anything each rfl
  exact ran

/-- Every run can be observed when every reply can be noted. -/
theorem Ends.observed (ends : program.Ends step s result s') (t : τ) (notes : ∀ t op reply, ∃ t', note t op reply t') :
    ∃ t', program.Ends (Observed step note) (s, t) result (s', t') := by
  have each (s : σ) (op : Op) (reply : Reply op) (s' : σ) (c : σ × τ) (same : s = c.1) (_ : True)
    (done : step s op reply s') :
      ∃ c', Observed step note c op reply c' ∧ s' = c'.1 := by
    subst same
    obtain ⟨t', noted⟩ := notes c.2 op reply
    exact ⟨(s', t'), ⟨done, noted⟩, rfl⟩
  obtain ⟨⟨_, t'⟩, ran, rfl⟩ := ends.simulate program.uses_anything each (show s = (s, t).1 from rfl)
  exact ⟨t', ran⟩

variable {allowed : Op → Prop} {post : α → Prop} (uses : program.Uses allowed post)
include uses

/-- Nothing is noted during operations that are not looked at. -/
theorem Ends.unnoted (ends : program.Ends (Observed step note) c result c')
    (quiet : ∀ t op reply t', allowed op → note t op reply t' → t' = t) : c'.2 = c.2 := by
  have each (c₁ : σ × τ) (op : Op) (reply : Reply op) (c₂ : σ × τ) (here : c₁.2 = c.2) (used : allowed op)
      (done : Observed step note c₁ op reply c₂) : c₂.2 = c.2 := (quiet _ _ _ _ used done.2).trans here
  exact @Ends.kept _ _ _ _ _ _ _ _ _ _ _ _ (fun c₁ => c₁.2 = c.2) uses ends each rfl

theorem Ends.quietly (ends : program.Ends step s result s') (t : τ) (quiet : ∀ t op reply, allowed op →
    note t op reply t) :
    program.Ends (Observed step note) (s, t) result (s', t) := by
  have each (s : σ) (op : Op) (reply : Reply op) (s' : σ) (c : σ × τ) (same : c = (s, t)) (used : allowed op)
      (done : step s op reply s') : ∃ c', Observed step note c op reply c' ∧ c' = (s', t) := by
    subst same
    exact ⟨(s', t), ⟨done, quiet t op reply used⟩, rfl⟩
  obtain ⟨c, ran, rfl⟩ := ends.simulate uses each rfl
  exact ran

end Observed

section Refinement

variable {τ : Type} {Op' : Type} {Reply' : Op' → Type} {step' : τ → (op : Op') → Reply' op → τ → Prop}
    {before middle after : σ → τ → Prop}

/-- Every run to the end is one of another program with the same result, on related states. -/
def Refines (step : σ → (op : Op) → Reply op → σ → Prop) (step' : τ → (op : Op') → Reply' op → τ → Prop)
    (before after : σ → τ → Prop)
    (program : Program Op Reply ε α) (program' : Program Op' Reply' ε α) : Prop :=
  ∀ s t result s', before s t → program.Ends step s result s' → ∃ t', program'.Ends step' t result t' ∧ after s' t'

/-- Part by part; what holds in between has to be enough when the first part fails. -/
theorem Refines.bind {first : Program Op Reply ε α} {first' : Program Op' Reply' ε α} {next : α → Program Op Reply ε β}
    {next' : α → Program Op' Reply' ε β} (part : Refines step step' before middle first first')
    (rest : ∀ value, Refines step step' middle after (next value) (next' value))
    (enough : ∀ s t, middle s t → after s t) :
    Refines step step' before after (first >>= next) (first' >>= next') := by
  intro s t result s' here ends
  rcases ends_bind.mp ends with ⟨value, s₁, ended, later⟩ | ⟨fault, rfl, failed⟩
  · obtain ⟨t₁, ended', here₁⟩ := part s t _ s₁ here ended
    obtain ⟨t', later', last⟩ := rest value s₁ t₁ result s' here₁ later
    exact ⟨t', ends_bind.mpr (.inl ⟨value, t₁, ended', later'⟩), last⟩
  · obtain ⟨t', failed', last⟩ := part s t _ s' here failed
    exact ⟨t', ends_bind.mpr (.inr ⟨fault, rfl, failed'⟩), enough s' t' last⟩

end Refinement

/-- The run in which `serve` answers every operation. -/
def run (serve : σ → (op : Op) → Reply op × σ) : Program Op Reply ε α → σ → Option (Except ε α) × σ
  | .pure value, s => (some (.ok value), s)
  | .raise fault, s => (some (.error fault), s)
  | .abort, s => (none, s)
  | .perform op next, s => run serve (next (serve s op).1) (serve s op).2

theorem ends_run {serve : σ → (op : Op) → Reply op × σ} (serves : ∀ s op, step s op (serve s op).1 (serve s op).2)
    {program : Program Op Reply ε α} {result : Except ε α} (ran : (program.run serve s).1 = some result) :
    program.Ends step s result (program.run serve s).2 := by
  induction program generalizing s with
  | pure value => exact ⟨(Option.some.inj ran).symm, rfl⟩
  | raise fault => exact ⟨(Option.some.inj ran).symm, rfl⟩
  | abort => cases ran
  | perform op next ih => exact ⟨_, _, serves s op, ih _ ran⟩

/-- The first `n` operations of that run. -/
def after (serve : σ → (op : Op) → Reply op × σ) : Nat → Program Op Reply ε α → σ → σ
  | n + 1, .perform op next, s => after serve n (next (serve s op).1) (serve s op).2
  | _, _, s => s

theorem visits_after {serve : σ → (op : Op) → Reply op × σ} (serves : ∀ s op, step s op (serve s op).1 (serve s op).2)
    (n : Nat) (program : Program Op Reply ε α) (s : σ) : program.Visits step s (program.after serve n s) := by
  induction n generalizing program s with
  | zero => exact .start program s
  | succ n ih =>
    cases program with
    | perform op next => exact .inr ⟨_, _, serves s op, ih _ _⟩
    | _ => exact rfl

end Program

end Osmdbt.General
