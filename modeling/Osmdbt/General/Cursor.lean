import Mathlib.Data.List.Basic
import Mathlib.Data.Nat.Digits.Lemmas

/-! Readers that move an offset through a row of bytes, and how statements about
single fields compose to statements about whole messages. -/

namespace Osmdbt.General

structure Cursor where
  bytes : List UInt8
  offset : Nat
  deriving DecidableEq, Repr

abbrev Reader (ε : Type) := StateT Cursor (Except ε)

/-- At any place of a row shorter than `limit`, the reader takes exactly `bytes`
and returns `value`, whatever follows. -/
def Reads {ε α : Type} (limit : Nat) (reader : Reader ε α) (bytes : List UInt8) (value : α) : Prop :=
  ∀ (row : List UInt8) (offset : Nat) (rest : List UInt8), row.length < limit → offset ≤ row.length →
    row.drop offset = bytes ++ rest →
    reader.run ⟨row, offset⟩ = .ok (value, ⟨row, offset + bytes.length⟩)

variable {ε α β : Type} {limit : Nat}

theorem Reads.pure (value : α) : Reads limit (Pure.pure value : Reader ε α) [] value := by
  intro row offset rest _ _ _
  rfl

/-- A pure computation takes no bytes. -/
theorem Reads.lift {result : Except ε α} {value : α} (success : result = .ok value) :
    Reads limit (liftM result : Reader ε α) [] value := by
  subst success
  intro row offset rest _ _ _
  rfl

theorem Reads.bind {first : Reader ε α} {next : α → Reader ε β} {front back : List UInt8} {value : α}
    {result : β} (reads : Reads limit first front value) (continues : Reads limit (next value) back result) :
    Reads limit (first >>= next) (front ++ back) result := by
  intro row offset rest short inside split
  rw [List.append_assoc] at split
  have later : row.drop (offset + front.length) = back ++ rest := by
    rw [← List.drop_drop, split, List.drop_left]
  have bound : offset + front.length ≤ row.length := by
    have lengths := congrArg List.length split
    simp only [List.length_drop, List.length_append] at lengths
    omega
  have done := reads row offset (back ++ rest) short inside split
  rw [StateT.run_bind, done]
  have rest' := continues row (offset + front.length) rest short bound later
  rw [List.length_append, ← Nat.add_assoc]
  exact rest'

theorem Reads.map {reader : Reader ε α} {bytes : List UInt8} {value : α} (reads : Reads limit reader bytes value)
    (f : α → β) : Reads limit (f <$> reader) bytes (f value) := by
  have both : Reads limit (reader >>= fun value => Pure.pure (f value)) (bytes ++ []) (f value) :=
    reads.bind (Reads.pure (f value))
  rw [List.append_nil] at both
  rwa [map_eq_pure_bind]

/-- At any place of a row shorter than `limit` that goes on with `bytes`, the
reader raises `fault`. -/
def Rejects {ε α : Type} (limit : Nat) (reader : Reader ε α) (bytes : List UInt8) (fault : ε) : Prop :=
  ∀ (row : List UInt8) (offset : Nat) (rest : List UInt8), row.length < limit → offset ≤ row.length →
    row.drop offset = bytes ++ rest → reader.run ⟨row, offset⟩ = .error fault

theorem Rejects.throw (fault : ε) : Rejects limit (MonadExcept.throw fault : Reader ε α) [] fault := by
  intro row offset rest _ _ _
  rfl

theorem Reads.rejects {first : Reader ε α} {next : α → Reader ε β} {front back : List UInt8} {value : α}
    {fault : ε} (reads : Reads limit first front value) (rejects : Rejects limit (next value) back fault) :
    Rejects limit (first >>= next) (front ++ back) fault := by
  intro row offset rest short inside split
  rw [List.append_assoc] at split
  have later : row.drop (offset + front.length) = back ++ rest := by
    rw [← List.drop_drop, split, List.drop_left]
  have bound : offset + front.length ≤ row.length := by
    have lengths := congrArg List.length split
    simp only [List.length_drop, List.length_append] at lengths
    omega
  rw [StateT.run_bind, reads row offset (back ++ rest) short inside split]
  exact rejects row (offset + front.length) rest short bound later

/-- Reading a whole row from its start. -/
theorem Reads.run {reader : Reader ε α} {bytes : List UInt8} {value : α} (reads : Reads limit reader bytes value)
    (rest : List UInt8) (short : (bytes ++ rest).length < limit) :
    reader.run ⟨bytes ++ rest, 0⟩ = .ok (value, ⟨bytes ++ rest, bytes.length⟩) := by
  simpa using reads (bytes ++ rest) 0 rest short (Nat.zero_le _) rfl

/-- How a value lies in a row: where it starts, and where the offset is behind it. -/
abbrev Layout (α : Type) := List UInt8 → Nat → α → Nat → Prop

/-- The reader fails with `bad` exactly where the layout is not complete, and reads
what the layout says. -/
structure ReadsLayout (bad : ε) (reader : Reader ε α) (layout : Layout α) : Prop where
  sound : ∀ row offset value last, layout row offset value last → reader.run ⟨row, offset⟩ = .ok (value, ⟨row, last⟩)
  complete : ∀ row offset, reader.run ⟨row, offset⟩ ≠ .error bad → ∃ value last, layout row offset value last

section Layouts

variable {bad : ε} {first : Reader ε α} {next : α → Reader ε β} {layout : Layout α}

theorem ReadsLayout.pure (value : α) : ReadsLayout bad (Pure.pure value : Reader ε α)
    (fun _ offset value' last => value' = value ∧ last = offset) where
  sound := by
    rintro row offset _ _ ⟨rfl, rfl⟩
    rfl
  complete row offset _ := ⟨value, offset, rfl, rfl⟩

theorem ReadsLayout.safe_bind (reads : ReadsLayout bad first layout) {row : List UInt8} {offset : Nat} :
    (first >>= next).run ⟨row, offset⟩ ≠ .error bad ↔
      ∃ value last, layout row offset value last ∧ (next value).run ⟨row, last⟩ ≠ .error bad := by
  rw [StateT.run_bind]
  constructor
  · intro safe
    obtain ⟨value, last, here⟩ := reads.complete row offset (fun failed => safe (by rw [failed]; rfl))
    rw [reads.sound row offset value last here] at safe
    exact ⟨value, last, here, safe⟩
  · rintro ⟨value, last, here, safe⟩
    rw [reads.sound row offset value last here]
    exact safe

/-- What follows may fail in other ways. -/
theorem safe_bind_of_safe (never : ∀ value c, (next value).run c ≠ .error bad) {c : Cursor} :
    (first >>= next).run c ≠ .error bad ↔ first.run c ≠ .error bad := by
  rw [StateT.run_bind]
  cases result : first.run c with
  | error fault => simp only [bind, Except.bind, ne_eq, Except.error.injEq]
  | ok pair => exact iff_of_true (never pair.1 pair.2) (by simp)

theorem ReadsLayout.bind (reads : ReadsLayout bad first layout) {layout' : α → Layout β}
    (rest : ∀ value, ReadsLayout bad (next value) (layout' value)) : ReadsLayout bad (first >>= next)
      (fun row offset result last => ∃ value middle, layout row offset value middle ∧
        layout' value row middle result last) where
  sound := by
    rintro row offset result last ⟨value, middle, here, there⟩
    rw [StateT.run_bind, reads.sound row offset value middle here]
    exact (rest value).sound row middle result last there
  complete row offset safe := by
    obtain ⟨value, middle, here, safe'⟩ := reads.safe_bind.mp safe
    obtain ⟨result, last, there⟩ := (rest value).complete row middle safe'
    exact ⟨result, last, value, middle, here, there⟩

theorem ReadsLayout.congr (reads : ReadsLayout bad first layout) {layout' : Layout α}
    (same : ∀ row offset value last, layout' row offset value last ↔ layout row offset value last) :
    ReadsLayout bad first layout' where
  sound row offset value last here := reads.sound row offset value last ((same row offset value last).mp here)
  complete row offset safe := by
    obtain ⟨value, last, here⟩ := reads.complete row offset safe
    exact ⟨value, last, (same row offset value last).mpr here⟩

end Layouts

def bigEndian (bytes : List UInt8) : Nat := bytes.foldl (fun n byte => n * 256 + byte.toNat) 0

/-- The `size` bytes of a number, most significant byte first. -/
def toBigEndian : Nat → Nat → List UInt8
  | 0, _ => []
  | size + 1, n => toBigEndian size (n / 256) ++ [UInt8.ofNat n]

@[simp] theorem length_toBigEndian (size n : Nat) : (toBigEndian size n).length = size := by
  induction size generalizing n with
  | zero => rfl
  | succ size ih => simp [toBigEndian, ih]

theorem bigEndian_toBigEndian (size n : Nat) : bigEndian (toBigEndian size n) = n % 256 ^ size := by
  induction size generalizing n with
  | zero => simp [toBigEndian, bigEndian, Nat.mod_one]
  | succ size ih =>
    have front : (toBigEndian size (n / 256)).foldl (fun n byte => n * 256 + byte.toNat) 0 =
        n / 256 % 256 ^ size := ih (n / 256)
    rw [toBigEndian, bigEndian, List.foldl_append, front]
    simp only [List.foldl_cons, List.foldl_nil, UInt8.toNat_ofNat', Nat.reducePow]
    rw [Nat.pow_succ, Nat.mul_comm (256 ^ size) 256, Nat.mod_mul]
    ring

/-- The signed number with the same bits. -/
def asSigned (size n : Nat) : Int := if n < 256 ^ size / 2 then n else (n : Int) - (256 ^ size : Nat)

/-- The bits of a signed number. -/
def fromSigned (size : Nat) (z : Int) : Nat := (z % (256 ^ size : Nat)).toNat

theorem asSigned_fromSigned {size : Nat} (positive : 0 < size) {z : Int}
    (range : -(256 ^ size / 2 : Nat) ≤ z ∧ z < (256 ^ size / 2 : Nat)) :
    asSigned size (fromSigned size z) = z := by
  have even : 2 * (256 ^ size / 2) = 256 ^ size := by
    obtain ⟨k, rfl⟩ := Nat.exists_eq_add_of_lt positive
    rw [Nat.zero_add, Nat.pow_succ]
    omega
  unfold asSigned fromSigned
  generalize 256 ^ size = modulus at range even ⊢
  by_cases negative : z < 0
  · have value : z % (modulus : Int) = z + modulus := by
      rw [← Int.add_emod_right, Int.emod_eq_of_lt (by omega) (by omega)]
    rw [value, if_neg (by omega)]
    omega
  · have value : z % (modulus : Int) = z := Int.emod_eq_of_lt (by omega) (by omega)
    rw [value, if_pos (by omega)]
    omega

end Osmdbt.General
