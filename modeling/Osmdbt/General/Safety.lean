import Osmdbt.General.Program

/-! Rules for programs that may be stopped, or overtaken by others, between any
two operations. A ghost value of type `τ` follows the state `σ`; what the ghost
does at an operation is chosen by the proof. -/

namespace Osmdbt.General

/-- `rely`: what others may do between two operations. `move`: what every own
operation has to amount to. -/
structure Discipline (Op : Type) (Reply : Op → Type) (σ τ : Type) where
  step : σ → (op : Op) → Reply op → σ → Prop
  rely : σ × τ → σ × τ → Prop
  move : σ × τ → σ × τ → Prop

namespace Discipline

variable {Op : Type} {Reply : Op → Type} {ε α β σ τ : Type} (D : Discipline Op Reply σ τ)

abbrev Later : σ × τ → σ × τ → Prop := Relation.ReflTransGen D.rely

/-- Whatever is replied and whatever others do, every operation is a permitted
move, a returned value satisfies `post` and a raised exception `failed`. -/
def Safe (post : α → σ × τ → Prop) (failed : ε → σ × τ → Prop) : Program Op Reply ε α → σ × τ → Prop
  | .pure value, c => ∀ c', D.Later c c' → post value c'
  | .raise fault, c => ∀ c', D.Later c c' → failed fault c'
  | .abort, _ => True
  | .perform op next, c => ∀ c₁, D.Later c c₁ → ∀ reply s₂, D.step c₁.1 op reply s₂ →
      ∃ t₂, D.move c₁ (s₂, t₂) ∧ Safe post failed (next reply) (s₂, t₂)

def Stable (P : σ × τ → Prop) : Prop := ∀ c c', D.rely c c' → P c → P c'

/-- Started where `P` holds, the program is safe. -/
def Triple (P : σ × τ → Prop) (program : Program Op Reply ε α) (post : α → σ × τ → Prop)
    (failed : ε → σ × τ → Prop) : Prop := ∀ c, P c → D.Safe post failed program c

variable {D} {P : σ × τ → Prop} {post : α → σ × τ → Prop} {failed : ε → σ × τ → Prop}

theorem Stable.later (stable : D.Stable P) {c c' : σ × τ} (later : D.Later c c') (here : P c) : P c' := by
  induction later with
  | refl => exact here
  | tail _ last ih => exact stable _ _ last ih

theorem Stable.and {P' : σ × τ → Prop} (first : D.Stable P) (second : D.Stable P') :
    D.Stable (fun c => P c ∧ P' c) :=
  fun c c' change both => ⟨first c c' change both.1, second c c' change both.2⟩

theorem Stable.const {p : Prop} : D.Stable (fun _ => p) := fun _ _ _ here => here

theorem Stable.exists {ι : Type} {P : ι → σ × τ → Prop} (stable : ∀ i, D.Stable (P i)) :
    D.Stable (fun c => ∃ i, P i c) :=
  fun c c' change ⟨i, here⟩ => ⟨i, stable i c c' change here⟩

theorem Safe.later {program : Program Op Reply ε α} {c c' : σ × τ} (safe : D.Safe post failed program c)
    (later : D.Later c c') : D.Safe post failed program c' := by
  cases program with
  | pure value => exact fun c₁ more => safe c₁ (later.trans more)
  | raise fault => exact fun c₁ more => safe c₁ (later.trans more)
  | abort => trivial
  | perform op next => exact fun c₁ more => safe c₁ (later.trans more)

theorem Safe.weaken {post' : α → σ × τ → Prop} {failed' : ε → σ × τ → Prop}
    {program : Program Op Reply ε α} {c : σ × τ} (safe : D.Safe post failed program c)
    (normal : ∀ value c, post value c → post' value c)
    (exceptional : ∀ fault c, failed fault c → failed' fault c) :
    D.Safe post' failed' program c := by
  induction program generalizing c with
  | pure value => exact fun c' later => normal _ _ (safe c' later)
  | raise fault => exact fun c' later => exceptional _ _ (safe c' later)
  | abort => trivial
  | perform op next ih =>
    intro c₁ later reply s₂ done
    obtain ⟨t₂, moved, rest⟩ := safe c₁ later reply s₂ done
    exact ⟨t₂, moved, ih reply rest⟩

theorem Safe.bind {program : Program Op Reply ε α} {next : α → Program Op Reply ε β}
    {post : β → σ × τ → Prop} {c : σ × τ}
    (safe : D.Safe (fun value => D.Safe post failed (next value)) failed program c) :
    D.Safe post failed (program >>= next) c := by
  change D.Safe post failed (program.bind next) c
  induction program generalizing c with
  | pure value => exact safe c .refl
  | raise fault => exact safe
  | abort => trivial
  | perform op resume ih =>
    intro c₁ later reply s₂ done
    obtain ⟨t₂, moved, rest⟩ := safe c₁ later reply s₂ done
    exact ⟨t₂, moved, ih reply rest⟩

/-- The destructor runs after a value and after an exception. -/
theorem Safe.scope {program : Program Op Reply ε α} {cleanup : Program Op Reply ε Unit} {c : σ × τ}
    (safe : D.Safe (fun value => D.Safe (fun _ => post value) failed cleanup)
      (fun fault => D.Safe (fun _ => failed fault) failed cleanup) program c)
    (stablePost : ∀ value, D.Stable (post value)) (stableFailed : ∀ fault, D.Stable (failed fault)) :
    D.Safe post failed (program.scope cleanup) c := by
  induction program generalizing c with
  | pure value =>
    refine Safe.bind ((safe c .refl).weaken ?_ (fun _ _ here => here))
    exact fun _ c' here c₁ later => (stablePost value).later later here
  | raise fault =>
    refine Safe.bind ((safe c .refl).weaken ?_ (fun _ _ here => here))
    exact fun _ c' here c₁ later => (stableFailed fault).later later here
  | abort => trivial
  | perform op next ih =>
    intro c₁ later reply s₂ done
    obtain ⟨t₂, moved, rest⟩ := safe c₁ later reply s₂ done
    exact ⟨t₂, moved, ih reply rest⟩

theorem Triple.pure {value : α} (stable : D.Stable (post value)) (here : ∀ c, P c → post value c) :
    D.Triple P (Pure.pure value : Program Op Reply ε α) post failed :=
  fun c start _ later => stable.later later (here c start)

theorem Triple.raise {fault : ε} (stable : D.Stable (failed fault)) (here : ∀ c, P c → failed fault c) :
    D.Triple P (.raise fault : Program Op Reply ε α) post failed :=
  fun c start _ later => stable.later later (here c start)

theorem Triple.assert {condition : Prop} [Decidable condition] (stable : D.Stable P) :
    D.Triple P (Program.assert condition : Program Op Reply ε Unit) (fun _ c => condition ∧ P c) failed := by
  intro c here
  unfold Program.assert
  split
  · rename_i holds
    exact fun c' later => ⟨holds, stable.later later here⟩
  · trivial

theorem Triple.lift {result : Except ε α} (stable : D.Stable P)
    (exceptional : ∀ fault, result = .error fault → ∀ c, P c → failed fault c) :
    D.Triple P (Program.lift result : Program Op Reply ε α) (fun value c => result = .ok value ∧ P c) failed := by
  intro c here
  cases result with
  | ok value => exact fun c' later => ⟨rfl, stable.later later here⟩
  | error fault => exact fun c' later => exceptional fault rfl c' (stable.later later here)

theorem Triple.bind {program : Program Op Reply ε α} {next : α → Program Op Reply ε β}
    {middle : α → σ × τ → Prop} {post : β → σ × τ → Prop} (first : D.Triple P program middle failed)
    (rest : ∀ value, D.Triple (middle value) (next value) post failed) :
    D.Triple P (program >>= next) post failed :=
  fun c here => Safe.bind ((first c here).weaken (fun value c' => rest value c') (fun _ _ fault => fault))

/-- `Triple.bind` with the assertion in between spelled out. -/
theorem Triple.via {program : Program Op Reply ε α} {next : α → Program Op Reply ε β} (middle : α → σ × τ → Prop)
    {post : β → σ × τ → Prop} (first : D.Triple P program middle failed)
    (rest : ∀ value, D.Triple (middle value) (next value) post failed) :
    D.Triple P (program >>= next) post failed := first.bind rest

theorem Triple.weaken {P' : σ × τ → Prop} {post' : α → σ × τ → Prop} {failed' : ε → σ × τ → Prop}
    {program : Program Op Reply ε α} (triple : D.Triple P program post failed)
    (before : ∀ c, P' c → P c) (normal : ∀ value c, post value c → post' value c)
    (exceptional : ∀ fault c, failed fault c → failed' fault c) : D.Triple P' program post' failed' :=
  fun c here => (triple c (before c here)).weaken normal exceptional

theorem Triple.before {P' : σ × τ → Prop} {program : Program Op Reply ε α}
    (triple : D.Triple P program post failed) (before : ∀ c, P' c → P c) :
    D.Triple P' program post failed :=
  fun c here => triple c (before c here)

/-- What is known to exist may be named before the program starts. -/
theorem Triple.exists {ι : Type} {P : ι → σ × τ → Prop} {program : Program Op Reply ε α}
    (each : ∀ i, D.Triple (P i) program post failed) : D.Triple (fun c => ∃ i, P i c) program post failed := by
  rintro c ⟨i, here⟩
  exact each i c here

theorem Triple.given {p : Prop} {program : Program Op Reply ε α} (triple : p → D.Triple P program post failed) :
    D.Triple (fun c => p ∧ P c) program post failed :=
  fun c here => triple here.1 c here.2

theorem Triple.ite {p : Prop} [Decidable p] {first second : Program Op Reply ε α}
    (positive : p → D.Triple P first post failed) (negative : ¬ p → D.Triple P second post failed) :
    D.Triple P (if p then first else second) post failed := by
  split
  · rename_i holds
    exact positive holds
  · rename_i fails
    exact negative fails

/-- One operation from a stable assertion. -/
theorem Triple.perform {op : Op} {next : Reply op → Program Op Reply ε α} (stable : D.Stable P)
    (run : ∀ c reply s₂, P c → D.step c.1 op reply s₂ →
      ∃ t₂, D.move c (s₂, t₂) ∧ D.Safe post failed (next reply) (s₂, t₂)) :
    D.Triple P (.perform op next) post failed :=
  fun _ here c₁ later reply s₂ done => run c₁ reply s₂ (stable.later later here) done

theorem Triple.request {op : Op} {post : Reply op → σ × τ → Prop} (stable : D.Stable P)
    (stablePost : ∀ reply, D.Stable (post reply))
    (run : ∀ c reply s₂, P c → D.step c.1 op reply s₂ → ∃ t₂, D.move c (s₂, t₂) ∧ post reply (s₂, t₂)) :
    D.Triple P (Program.request op : Program Op Reply ε (Reply op)) post failed := by
  refine Triple.perform stable (fun c reply s₂ here done => ?_)
  obtain ⟨t₂, moved, result⟩ := run c reply s₂ here done
  exact ⟨t₂, moved, fun c' later => (stablePost reply).later later result⟩

/-- A loop over a list: the invariant speaks about what is still to do. -/
theorem Triple.forM {ι : Type} {body : ι → Program Op Reply ε Unit} (inv : List ι → σ × τ → Prop)
    (items : List ι) (stable : D.Stable (inv []))
    (each : ∀ item rest, D.Triple (inv (item :: rest)) (body item) (fun _ => inv rest) failed) :
    D.Triple (inv items) (items.forM body) (fun _ => inv []) failed := by
  induction items with
  | nil => exact Triple.pure stable (fun c here => here)
  | cons item rest ih =>
    change D.Triple _ (body item >>= fun _ => rest.forM body) _ _
    exact Triple.bind (each item rest) (fun _ => ih)

/-- What is safe under more interference is safe under less, and for more permitted moves. -/
theorem Safe.mono {D' : Discipline Op Reply σ τ} {program : Program Op Reply ε α} {c : σ × τ}
    (step : ∀ s op reply s', D'.step s op reply s' → D.step s op reply s')
    (rely : ∀ c c', D'.rely c c' → D.rely c c') (move : ∀ c c', D.move c c' → D'.move c c')
    (safe : D.Safe post failed program c) : D'.Safe post failed program c := by
  have later {c c' : σ × τ} (change : D'.Later c c') : D.Later c c' :=
    Relation.ReflTransGen.mono rely c c' change
  induction program generalizing c with
  | pure value => exact fun c' change => safe c' (later change)
  | raise fault => exact fun c' change => safe c' (later change)
  | abort => trivial
  | perform op next ih =>
    intro c₁ change reply s₂ done
    obtain ⟨t₂, moved, rest⟩ := safe c₁ (later change) reply s₂ (step _ _ _ _ done)
    exact ⟨t₂, move _ _ moved, ih reply rest⟩

/-- What every move keeps, besides, holds at the end. -/
theorem Safe.also {inv : σ × τ → Prop} {program : Program Op Reply ε α} {c : σ × τ} (stable : D.Stable inv)
    (kept : ∀ c c', inv c → D.move c c' → inv c') (safe : D.Safe post failed program c) (here : inv c) :
    D.Safe (fun value c => post value c ∧ inv c) (fun fault c => failed fault c ∧ inv c) program c := by
  induction program generalizing c with
  | pure value => exact fun c' later => ⟨safe c' later, stable.later later here⟩
  | raise fault => exact fun c' later => ⟨safe c' later, stable.later later here⟩
  | abort => trivial
  | perform op next ih =>
    intro c₁ later reply s₂ done
    obtain ⟨t₂, moved, rest⟩ := safe c₁ later reply s₂ done
    exact ⟨t₂, moved, ih reply rest (kept _ _ (stable.later later here) moved)⟩

/-- A program whose every allowed operation is a move that keeps `P`. -/
theorem Triple.uses {allowed : Op → Prop} {result : α → Prop} {program : Program Op Reply ε α}
    (uses : program.Uses allowed result) (stable : D.Stable P)
    (each : ∀ c op reply s₂, P c → allowed op → D.step c.1 op reply s₂ → ∃ t₂, D.move c (s₂, t₂) ∧ P (s₂, t₂)) :
    D.Triple P program (fun value c => result value ∧ P c) (fun _ => P) := by
  intro c here
  induction program generalizing c with
  | pure value => exact fun c' later => ⟨uses, stable.later later here⟩
  | raise fault => exact fun c' later => stable.later later here
  | abort => trivial
  | perform op next ih =>
    intro c₁ later reply s₂ done
    obtain ⟨t₂, moved, still⟩ := each c₁ op reply s₂ (stable.later later here) uses.1 done
    exact ⟨t₂, moved, ih reply (uses.2 reply) _ still⟩

end Discipline

end Osmdbt.General
