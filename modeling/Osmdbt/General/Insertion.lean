import Mathlib.Data.List.Basic

/-! Lists with further entries put anywhere into them, and what reads over the
further entries. -/

namespace Osmdbt.General

/-- The second list is the first one with extra entries inserted. -/
inductive Inserted {α : Type} (extra : α → Prop) : List α → List α → Prop
  | nil : Inserted extra [] []
  | keep (a : α) {base more : List α} : Inserted extra base more → Inserted extra (a :: base) (a :: more)
  | insert {a : α} {base more : List α} : extra a → Inserted extra base more → Inserted extra base (a :: more)

namespace Inserted

variable {α β : Type} {extra : α → Prop} {base more : List α}

theorem refl (base : List α) : Inserted extra base base := by
  induction base with
  | nil => exact .nil
  | cons a rest ih => exact .keep a ih

/-- A loop that passes over the extra entries. -/
theorem foldlM_eq {m : Type → Type} [Monad m] [LawfulMonad m] {step : β → α → m β}
    (skips : ∀ a, extra a → ∀ state, step state a = pure state) (inserted : Inserted extra base more) (state : β) :
    more.foldlM step state = base.foldlM step state := by
  induction inserted generalizing state with
  | nil => rfl
  | keep a _ ih => simp only [List.foldlM_cons, ih]
  | insert here _ ih => rw [List.foldlM_cons, skips _ here, pure_bind, ih]

theorem filter_eq {kept : α → Bool} (drops : ∀ a, extra a → kept a = false) (inserted : Inserted extra base more) :
    more.filter kept = base.filter kept := by
  induction inserted with
  | nil => rfl
  | keep a _ ih => rw [List.filter_cons, List.filter_cons, ih]
  | insert here _ ih => rw [List.filter_cons_of_neg (by simp [drops _ here]), ih]

end Inserted

end Osmdbt.General
