import BlockShading.Proofs.Text.Boundaries

/-!
# Positions in a text

The line that holds an offset begins at it or before it, so the start of the line and the column
add up to the offset. Main statement: offsets inside a text have the same line and column only if
they are the same offset. The bytes of a line are looked up by their offsets in the text.
-/

namespace BlockShading.Text

theorem le_of_lt_startsUpTo {offset i : Nat} {starts : List Nat}
    (h : i < startsUpTo offset starts) : ∃ start, starts[i]? = some start ∧ start ≤ offset := by
  induction starts generalizing i with
  | nil => simp [startsUpTo] at h
  | cons first rest ih =>
    rw [startsUpTo] at h
    split at h
    · omega
    · next hfirst =>
      cases i with
      | zero => exact ⟨first, rfl, Nat.not_lt.mp hfirst⟩
      | succ i => simpa using ih (Nat.lt_of_succ_lt_succ h)

theorem bytes_append (xs ys : List Char) : bytes (xs ++ ys) = bytes xs ++ bytes ys := by
  simp [bytes]

end BlockShading.Text

namespace BlockShading.LineIndex

open Text

variable (index : LineIndex)

theorem startOf_lineOf_le (offset : Nat) : index.startOf (index.lineOf offset) ≤ offset := by
  cases hline : index.lineOf offset with
  | zero => simp [startOf_eq]
  | succ line =>
    have hlt : line < startsUpTo offset (index.starts.drop 1) := by
      rw [lineOf] at hline
      omega
    obtain ⟨start, hstart, hle⟩ := le_of_lt_startsUpTo hlt
    rw [List.getElem?_drop, Nat.add_comm] at hstart
    simpa [startOf, hstart] using hle

theorem startOf_le_size (line : Nat) : index.startOf line ≤ index.size := by
  rw [startOf_eq, index.size_eq, index.text_eq line]
  simp

theorem startOf_add_column (offset : Nat) :
    index.startOf (index.position offset).1 + (index.position offset).2 =
      min offset index.size := by
  have hline := index.startOf_lineOf_le offset
  have hsize := index.startOf_le_size (index.lineOf offset)
  simp only [position]
  omega

/-- Up to the end of a text, the position of an offset tells the offset. -/
theorem position_inj {a b : Nat} (ha : a ≤ index.size) (hb : b ≤ index.size) :
    index.position a = index.position b ↔ a = b := by
  constructor
  · intro h
    have hsum := index.startOf_add_column a
    rw [h, index.startOf_add_column b] at hsum
    omega
  · intro h
    rw [h]

/-- The bytes of a line stand in the text from its start on. -/
theorem getElem?_bytes {line i : Nat} (h : i < (index.lineBytes line).length) :
    (bytes index.text)[index.startOf line + i]? = (index.lineBytes line)[i]? := by
  have hbefore : (bytes (index.lines.take line).flatten).length = index.startOf line := by
    rw [length_bytes, startOf_eq]
  rw [index.text_eq line, bytes_append, bytes_append, List.getElem?_append_right (by omega),
    hbefore, Nat.add_sub_cancel_left]
  exact List.getElem?_append_left h

/-- Every byte of the indentation of a line is a space or a tab. -/
theorem isIndent_of_mem_indentOf (line : Nat) {offset : Nat}
    (hstart : (index.indentOf line).start ≤ offset) (hstop : offset < (index.indentOf line).stop) :
    ∃ byte, (bytes index.text)[offset]? = some byte ∧ isIndent byte = true := by
  obtain ⟨i, rfl⟩ : ∃ i, offset = index.startOf line + i := Nat.exists_eq_add_of_le hstart
  have hi : i < ((index.lineBytes line).takeWhile isIndent).length :=
    Nat.lt_of_add_lt_add_left hstop
  have hleading := List.takeWhile_prefix (l := index.lineBytes line) isIndent
  have hbyte := List.getElem?_eq_getElem hi
  refine ⟨_, ?_, List.all_eq_true.mp List.all_takeWhile _ (List.mem_of_getElem? hbyte)⟩
  rw [index.getElem?_bytes (Nat.lt_of_lt_of_le hi hleading.length_le)]
  exact List.prefix_iff_getElem?.mp hleading i hi

end BlockShading.LineIndex
