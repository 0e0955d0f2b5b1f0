import Osmdbt.Pgoutput.Memory

/-! Tuples at any place of any row, also of rows longer than an offset can count. -/

namespace Osmdbt.Pgoutput

open General

/-- The bytes that are at this offset of the row. -/
def BytesAt (row : Bytes) (offset : Nat) (bytes : Bytes) : Prop :=
  ∃ before after, row = before ++ bytes ++ after ∧ offset = before.length

section BytesAt

variable {row start rest bytes : Bytes} {offset : Nat}

theorem BytesAt.front (held : BytesAt row offset (start ++ rest)) : BytesAt row offset start := by
  obtain ⟨before, after, rfl, rfl⟩ := held
  exact ⟨before, rest ++ after, by simp only [List.append_assoc], rfl⟩

theorem BytesAt.back (held : BytesAt row offset (start ++ rest)) : BytesAt row (offset + start.length) rest := by
  obtain ⟨before, after, rfl, rfl⟩ := held
  exact ⟨before ++ start, after, by simp only [List.append_assoc], List.length_append.symm⟩

theorem BytesAt.inside (held : BytesAt row offset bytes) : offset + bytes.length ≤ row.length := by
  obtain ⟨before, after, rfl, rfl⟩ := held
  rw [List.length_append, List.length_append]
  exact Nat.le_add_right _ _

theorem BytesAt.taken (held : BytesAt row offset bytes) : (row.drop offset).take bytes.length = bytes := by
  obtain ⟨before, after, rfl, rfl⟩ := held
  rw [List.append_assoc, List.drop_left, List.take_left]

theorem BytesAt.number {size n : Nat} (held : BytesAt row offset (toBigEndian size n)) (small : n < 256 ^ size) :
    offset + size ≤ row.length ∧ number row offset size = n := by
  have inside := held.inside
  have taken := held.taken
  rw [length_toBigEndian] at inside taken
  exact ⟨inside, by rw [Pgoutput.number, taken, bigEndian_toBigEndian, Nat.mod_eq_of_lt small]⟩

/-- A byte with a category. -/
theorem BytesAt.category {c : Char} (held : BytesAt row offset [charByte c]) (ascii : c.toNat < 256) :
    offset + 1 ≤ row.length ∧ Pgoutput.number row offset 1 = c.toNat :=
  held.number (n := c.toNat) ascii

end BytesAt

theorem behind_eq {offset size : Nat} (small : offset + size < 2 ^ 32) : behind offset size = offset + size :=
  Nat.mod_eq_of_lt small

section Encoded

variable {row : Bytes} {offset : Nat}

private theorem textAt_encoded {bytes : Bytes} (held : BytesAt row offset (toBigEndian 4 bytes.length ++ bytes))
    (small : offset + (4 + bytes.length) < 2 ^ 32) :
    TextAt row offset (bytesText bytes) (offset + (4 + bytes.length)) := by
  obtain ⟨inside, length⟩ := held.front.number (show bytes.length < 256 ^ 4 by omega)
  have text := held.back
  rw [length_toBigEndian] at text
  have start : behind offset 4 = offset + 4 := behind_eq (by omega)
  have here : TextAt row offset (bytesText ((row.drop (behind offset 4)).take bytes.length))
      (behind (behind offset 4) bytes.length) :=
    .length inside length.symm (by rw [start]; exact text.inside)
  rwa [start, text.taken, behind_eq (by omega), Nat.add_assoc] at here

private theorem columnAt_encoded {column : ColumnData} (held : BytesAt row offset column.encode)
    (small : offset + column.encode.length < 2 ^ 32) :
    ColumnAt row offset column.value (offset + column.encode.length) := by
  have absent {c : Char} (only : BytesAt row offset [charByte c]) (ascii : c.toNat < 256) (other : c.toNat ≠ 't'.toNat)
      (bound : offset + 1 < 2 ^ 32) : ColumnAt row offset none (offset + 1) := by
    obtain ⟨inside, category⟩ := only.category ascii
    have here : ColumnAt row offset none (behind offset 1) := .absent inside (by rwa [category])
    rwa [behind_eq bound] at here
  cases column with
  | null => exact absent held (by decide) (by decide) small
  | unchanged => exact absent held (by decide) (by decide) small
  | text bytes =>
    have split : BytesAt row offset ([charByte 't'] ++ (toBigEndian 4 bytes.length ++ bytes)) := held
    have length : (ColumnData.text bytes).encode.length = 1 + (4 + bytes.length) := by
      simp only [ColumnData.encode, List.cons_append, List.length_cons, List.length_append, length_toBigEndian]
      omega
    rw [length] at small ⊢
    obtain ⟨inside, category⟩ := split.front.category (by decide)
    have start : behind offset 1 = offset + 1 := behind_eq (by omega)
    refine .text inside category ?_
    rw [start, ← Nat.add_assoc]
    exact textAt_encoded split.back (by omega)

private theorem columnsAt_encoded {tuple : TupleData} (held : BytesAt row offset (tuple.flatMap ColumnData.encode))
    (small : offset + (tuple.flatMap ColumnData.encode).length < 2 ^ 32) :
    ColumnsAt row tuple.length offset (tuple.map ColumnData.value)
        (offset + (tuple.flatMap ColumnData.encode).length) := by
  induction tuple generalizing offset with
  | nil => exact .none offset
  | cons column tuple ih =>
    rw [List.flatMap_cons] at held small ⊢
    rw [List.length_append] at small ⊢
    have first := columnAt_encoded held.front (by omega)
    have later := ih held.back (by omega)
    rw [← Nat.add_assoc]
    exact .column first later

end Encoded

/-- Wherever an encoded tuple is in a row, its columns are read and the offset is exactly behind it. -/
theorem readTupleData_encodeTuple (before after : Bytes) {tuple : TupleData} (few : tuple.length ≤ 32767)
    (inside : before.length + (encodeTuple tuple).length < 2 ^ 32) :
    readTupleData.run ⟨before ++ encodeTuple tuple ++ after, before.length⟩ =
      .ok (tuple.map ColumnData.value,
        ⟨before ++ encodeTuple tuple ++ after, before.length + (encodeTuple tuple).length⟩) := by
  have held : BytesAt (before ++ encodeTuple tuple ++ after) before.length (encodeTuple tuple) :=
    ⟨before, after, rfl, rfl⟩
  have length : (encodeTuple tuple).length = 2 + (tuple.flatMap ColumnData.encode).length := by
    rw [encodeTuple, List.length_append, length_toBigEndian]
  obtain ⟨count, columns⟩ := held.front.number (show tuple.length < 256 ^ 2 by omega)
  have signed : (asSigned 2 tuple.length).toNat = tuple.length := by
    unfold asSigned
    rw [if_pos (by omega), Int.toNat_natCast]
  have start : behind before.length 2 = before.length + 2 := behind_eq (by omega)
  refine readTupleData_layout.sound _ _ _ _ ⟨count, ?_⟩
  rw [columns, signed, start, length, ← Nat.add_assoc]
  have rest := held.back
  rw [length_toBigEndian] at rest
  exact columnsAt_encoded rest (by omega)

theorem readTupleData_encodeTuple_nul :
    readTupleData.run ⟨[0xFF, 0, 3, charByte 'n', charByte 't', 0, 0, 0, 2, 0, charByte 'A', charByte 'u', 7], 1⟩ =
      .ok ([none, some ['\x00', 'A'], none],
        ⟨[0xFF, 0, 3, charByte 'n', charByte 't', 0, 0, 0, 2, 0, charByte 'A', charByte 'u', 7], 12⟩) :=
  @readTupleData_encodeTuple [0xFF] [7] [.null, .text [0, charByte 'A'], .unchanged] (by decide) (by decide)

end Osmdbt.Pgoutput
