import Mathlib.Data.Char
import Mathlib.Data.List.Lex
import Mathlib.Data.Prod.Lex
import Mathlib.Order.Lattice
import Mathlib.Order.Lex

/-! Values shared by all commands. A C++ string is a list of characters, one for
each byte; identifiers keep the fixed-width types of the source. -/

namespace Osmdbt

abbrev Text := List Char

instance : LawfulBEq Text := inferInstance

/-- How a function of the source ends when it does not return. -/
inductive Fault where
  | runtimeError (what : Text)
  | systemError (what : Text)
  | outOfRange
  | conversionError
  /-- An operation the C++ standard leaves undefined. -/
  | undefined
  deriving DecidableEq, Repr

/-- The three values of `osmium::item_type` an object can have. -/
inductive ItemType where
  | node
  | way
  | relation
  deriving DecidableEq, Repr

/-- `osmium::item_type_to_char` -/
def ItemType.toChar : ItemType → Char
  | .node => 'n'
  | .way => 'w'
  | .relation => 'r'

/-- `osmium::char_to_item_type`; every other item type is `none`. -/
def charToItemType (c : Char) : Option ItemType :=
  if c = 'n' then some .node
  else if c = 'w' then some .way
  else if c = 'r' then some .relation
  else none

@[simp] theorem charToItemType_toChar (type : ItemType) : charToItemType type.toChar = some type := by
  cases type <;> decide

theorem ItemType.exists_iff {P : ItemType → Prop} : (∃ type, P type) ↔ (P .node ∨ P .way) ∨ P .relation := by
  constructor
  · rintro ⟨type, here⟩
    cases type <;> simp [here]
  · rintro ((here | here) | here) <;> exact ⟨_, here⟩

theorem ItemType.forall_iff {P : ItemType → Prop} : (∀ type, P type) ↔ (P .node ∧ P .way) ∧ P .relation := by
  constructor
  · exact fun every => ⟨⟨every .node, every .way⟩, every .relation⟩
  · rintro ⟨⟨node, way⟩, relation⟩ type
    cases type <;> assumption

/-- `osmium::Timestamp`: seconds since 1970, 0 is the invalid timestamp. -/
abbrev Timestamp := UInt32

/-- A 32-bit value is not changed by the way through a wider signed type. -/
theorem ofInt_toNat (v : UInt32) : UInt32.ofInt (v.toNat : Int) = v := by
  have bound := v.toNat_lt
  have same : ((v.toNat : Int) % 2 ^ 32).toNat = v.toNat := by omega
  rw [UInt32.ofInt, same, UInt32.ofNat_toNat]

/-- An object version, ordered by id and then version. -/
abbrev Key := Lex (Int × Nat)

instance : LawfulBEq Key := inferInstance

def key (id : Int64) (version : UInt32) : Key := toLex (id.toInt, version.toNat)

theorem key_inj {id id' : Int64} {version version' : UInt32} :
    key id version = key id' version' ↔ id = id' ∧ version = version' := by
  rw [key, key, toLex_inj, Prod.mk.injEq, Int64.toInt_inj, UInt32.toNat_inj]

end Osmdbt
