import Mathlib.Logic.Relation

/-! Programs that perform operations one at a time. A program can return, raise
an exception, abort without cleaning up, or be stopped between two operations. -/

namespace Osmdbt.General

/-- A program over operations `Op` whose replies have the types `Reply`. -/
inductive Program (Op : Type) (Reply : Op → Type) (ε α : Type) where
  | pure (value : α)
  | raise (fault : ε)
  | abort
  | perform (op : Op) (next : Reply op → Program Op Reply ε α)

namespace Program

variable {Op : Type} {Reply : Op → Type} {ε α β : Type}

def bind : Program Op Reply ε α → (α → Program Op Reply ε β) → Program Op Reply ε β
  | .pure value, next => next value
  | .raise fault, _ => .raise fault
  | .abort, _ => .abort
  | .perform op resume, next => .perform op (fun reply => (resume reply).bind next)

instance : Monad (Program Op Reply ε) where
  pure := .pure
  bind := bind

/-- One operation and its reply. -/
def request (op : Op) : Program Op Reply ε (Reply op) := .perform op .pure

/-- A pure computation that may raise. -/
def lift : Except ε α → Program Op Reply ε α
  | .ok value => .pure value
  | .error fault => .raise fault

/-- `assert`: a failing one ends the process on the spot. -/
def assert (condition : Prop) [Decidable condition] : Program Op Reply ε Unit :=
  if condition then .pure () else .abort

/-- A destructor: it runs when the scope ends, by a value or by an exception. -/
def scope : Program Op Reply ε α → Program Op Reply ε Unit → Program Op Reply ε α
  | .pure value, cleanup => cleanup.bind (fun _ => .pure value)
  | .raise fault, cleanup => cleanup.bind (fun _ => .raise fault)
  | .abort, _ => .abort
  | .perform op next, cleanup => .perform op (fun reply => (next reply).scope cleanup)

theorem bind_pure (program : Program Op Reply ε α) : program.bind .pure = program := by
  induction program with
  | pure value => rfl
  | raise fault => rfl
  | abort => rfl
  | perform op next ih => simp only [bind, ih]

theorem bind_assoc {γ : Type} (program : Program Op Reply ε α) (first : α → Program Op Reply ε β)
    (second : β → Program Op Reply ε γ) :
    (program.bind first).bind second = program.bind (fun value => (first value).bind second) := by
  induction program with
  | pure value => rfl
  | raise fault => rfl
  | abort => rfl
  | perform op next ih => simp only [bind, ih]

instance : LawfulMonad (Program Op Reply ε) := LawfulMonad.mk' _ bind_pure (fun _ _ => rfl) bind_assoc

/-- Whatever is replied, only allowed operations are asked for and a returned
value satisfies `post`. -/
def Uses (allowed : Op → Prop) (post : α → Prop) : Program Op Reply ε α → Prop
  | .pure value => post value
  | .raise _ => True
  | .abort => True
  | .perform op next => allowed op ∧ ∀ reply, Uses allowed post (next reply)

variable {allowed : Op → Prop} {post : α → Prop}

theorem Uses.weaken {allowed' : Op → Prop} {post' : α → Prop} {program : Program Op Reply ε α}
    (uses : program.Uses allowed post) (wider : ∀ op, allowed op → allowed' op)
    (result : ∀ value, post value → post' value) :
    program.Uses allowed' post' := by
  induction program with
  | pure value => exact result value uses
  | raise fault => trivial
  | abort => trivial
  | perform op next ih => exact ⟨wider op uses.1, fun reply => ih reply (uses.2 reply)⟩

theorem uses_anything (program : Program Op Reply ε α) : program.Uses (fun _ => True) (fun _ => True) := by
  induction program with
  | pure value => trivial
  | raise fault => trivial
  | abort => trivial
  | perform op next ih => exact ⟨trivial, ih⟩

theorem Uses.pure {value : α} (result : post value) :
    (Pure.pure value : Program Op Reply ε α).Uses allowed post := result

theorem Uses.raise {fault : ε} : (Program.raise fault : Program Op Reply ε α).Uses allowed post := trivial

theorem Uses.request {op : Op} (here : allowed op) :
    (Program.request op : Program Op Reply ε (Reply op)).Uses allowed (fun _ => True) := ⟨here, fun _ => trivial⟩

theorem Uses.lift {result : Except ε α} :
    (Program.lift result : Program Op Reply ε α).Uses allowed (fun value => result = .ok value) := by
  cases result with
  | ok value => exact rfl
  | error fault => trivial

theorem Uses.assert {condition : Prop} [Decidable condition] :
    (Program.assert condition : Program Op Reply ε Unit).Uses allowed (fun _ => condition) := by
  unfold Program.assert
  split
  · rename_i holds
    exact holds
  · trivial

theorem Uses.ite {condition : Prop} [Decidable condition] {yes no : Program Op Reply ε α}
    (first : condition → yes.Uses allowed post) (second : ¬ condition → no.Uses allowed post) :
    (if condition then yes else no).Uses allowed post := by
  split
  · rename_i holds
    exact first holds
  · rename_i fails
    exact second fails

theorem Uses.bind {program : Program Op Reply ε α} {next : α → Program Op Reply ε β} {post' : β → Prop}
    (first : program.Uses allowed post) (rest : ∀ value, post value → (next value).Uses allowed post') :
    (program >>= next).Uses allowed post' := by
  change (program.bind next).Uses allowed post'
  induction program with
  | pure value => exact rest value first
  | raise fault => trivial
  | abort => trivial
  | perform op resume ih => exact ⟨first.1, fun reply => ih reply (first.2 reply)⟩

theorem Uses.scope {program : Program Op Reply ε α} {cleanup : Program Op Reply ε Unit}
    (first : program.Uses allowed post) (last : cleanup.Uses allowed (fun _ => True)) :
    (program.scope cleanup).Uses allowed post := by
  induction program with
  | pure value => exact Uses.bind last (fun _ _ => first)
  | raise fault => exact Uses.bind last (fun _ _ => trivial)
  | abort => trivial
  | perform op resume ih => exact ⟨first.1, fun reply => ih reply (first.2 reply)⟩

theorem Uses.forM {ι : Type} {body : ι → Program Op Reply ε Unit} {items : List ι}
    (each : ∀ item ∈ items, (body item).Uses allowed (fun _ => True)) :
    (items.forM body).Uses allowed (fun _ => True) := by
  induction items with
  | nil => trivial
  | cons item rest ih =>
    change (body item >>= fun _ => rest.forM body).Uses allowed _
    exact Uses.bind (each item (by simp)) (fun _ _ => ih (fun other member => each other (by simp [member])))

/-- Whatever is replied, only such exceptions are raised. -/
def Raises (may : ε → Prop) : Program Op Reply ε α → Prop
  | .pure _ => True
  | .raise fault => may fault
  | .abort => True
  | .perform _ next => ∀ reply, Raises may (next reply)

theorem Raises.bind {may : ε → Prop} {program : Program Op Reply ε α} {next : α → Program Op Reply ε β}
    (first : program.Raises may)
    (later : ∀ value, (next value).Raises may) : (program >>= next).Raises may := by
  change (program.bind next).Raises may
  induction program with
  | pure value => exact later value
  | raise fault => exact first
  | abort => trivial
  | perform op resume ih => exact fun reply => ih reply (first reply)

theorem Raises.ite {may : ε → Prop} {condition : Prop} [Decidable condition] {yes no : Program Op Reply ε α}
    (first : yes.Raises may)
    (second : no.Raises may) : (if condition then yes else no).Raises may := by
  split
  · exact first
  · exact second

theorem Raises.forM {may : ε → Prop} {ι : Type} {body : ι → Program Op Reply ε Unit} {items : List ι}
    (each : ∀ item, (body item).Raises may) : (items.forM body).Raises may := by
  induction items with
  | nil => trivial
  | cons item rest ih => exact (each item).bind (fun _ => ih)

end Program

/-- A program runs to its end while `env` steps may happen before every operation. -/
inductive Execution {Op : Type} {Reply : Op → Type} {ε α σ : Type}
    (step : σ → (op : Op) → Reply op → σ → Prop) (env : σ → σ → Prop) :
    Program Op Reply ε α → σ → Except ε α → σ → Prop where
  | pure (value : α) (s : σ) : Execution step env (.pure value) s (.ok value) s
  | raise (fault : ε) (s : σ) : Execution step env (.raise fault) s (.error fault) s
  | env {program : Program Op Reply ε α} {s s₁ s' : σ} {result : Except ε α} (change : env s s₁)
      (rest : Execution step env program s₁ result s') : Execution step env program s result s'
  | perform {op : Op} {next : Reply op → Program Op Reply ε α} {reply : Reply op} {s s₁ s' : σ}
      {result : Except ε α} (done : step s op reply s₁)
      (rest : Execution step env (next reply) s₁ result s') :
      Execution step env (.perform op next) s result s'

end Osmdbt.General
