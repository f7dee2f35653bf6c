import BlockShading.Proofs.Text.Lines
import Mathlib.Data.List.TakeWhile

/-!
# Measured indentation

The indentation of a line begins with it, ends inside it, and is as long as it can be: a line that
is blank to its end has no break and is the last. Main statements: an extent is measured as the
indentation of each line from the one of its start to the one of its end. Since the end is looked up
as if it belonged to the extent, these are the lines that share a byte with the extent and, where
the extent ends with a line, the line after it too.
-/

namespace BlockShading

open Text

theorem Text.not_isIndentChar_of_isBreak {c : Char} (h : isBreak c = true) :
    isIndentChar c = false := by
  have hendings : ∀ ending ∈ lineEndings, ∀ c ∈ ending, isIndentChar c = false := by
    simp [lineEndings, isIndentChar]
  exact hendings [c] (isBreak_iff.mp h) c (List.mem_singleton_self c)

namespace LineIndex

variable (index : LineIndex) {extent : Extent} {line i : Nat}

/-- Whether an extent is the longest run of blanks at the start of a line. -/
structure IsIndentation (line : Nat) (extent : Extent) : Prop where
  start_eq : extent.start = index.startOf line
  ordered : extent.start ≤ extent.stop
  in_line : extent.stop ≤ index.startOf line + (index.lineBytes line).length
  in_text : extent.stop ≤ index.size
  blank : ∀ offset, extent.start ≤ offset → offset < extent.stop →
    ∃ byte, (bytes index.text)[offset]? = some byte ∧ isIndent byte = true
  maximal : extent.stop = index.size ∨
    ∃ byte, (bytes index.text)[extent.stop]? = some byte ∧ isIndent byte = false

/-- Whether a line shares a byte with an extent; the break counts to the line it ends. -/
def Touches (extent : Extent) (line : Nat) : Prop :=
  ∃ offset, extent.start ≤ offset ∧ offset < extent.stop ∧
    index.startOf line ≤ offset ∧ offset < index.startOf line + (index.lineBytes line).length

/-- A line that is blank to its end is the last one: breaks are no blanks. -/
theorem lineCount_le_of_blank (h : ∀ byte ∈ index.lineBytes line, isIndent byte = true) :
    index.lineCount ≤ line + 1 := by
  by_contra hlt
  obtain ⟨c, hmem, hbreak⟩ := index.exists_isBreak (Nat.not_le.mp hlt)
  obtain ⟨byte, more, hencoded, hbyte⟩ :=
    utf8EncodeChar_of_not_isIndentChar (not_isIndentChar_of_isBreak hbreak)
  have hbytes : byte ∈ index.lineBytes line := List.mem_flatMap.mpr ⟨c, hmem, by simp [hencoded]⟩
  rw [h byte hbytes] at hbyte
  cases hbyte

theorem indentOf_stop_le_next (line : Nat) :
    (index.indentOf line).stop ≤ index.startOf (line + 1) := by
  rw [startOf_succ]
  exact Nat.add_le_add_left (List.takeWhile_sublist isIndent).length_le _

theorem indentOf_maximal (line : Nat) :
    (index.indentOf line).stop = index.size ∨
      ∃ byte, (bytes index.text)[(index.indentOf line).stop]? = some byte ∧
        isIndent byte = false := by
  have hsplit := List.takeWhile_append_dropWhile (p := isIndent) (l := index.lineBytes line)
  have hstop : (index.indentOf line).stop =
      index.startOf line + ((index.lineBytes line).takeWhile isIndent).length := rfl
  cases hrest : (index.lineBytes line).dropWhile isIndent with
  | nil =>
    -- The line is blank to its end, which is therefore the end of the text.
    left
    have hlast := index.lineCount_le_of_blank (List.dropWhile_eq_nil_iff.mp hrest)
    rw [hrest, List.append_nil] at hsplit
    rw [hstop, hsplit, ← startOf_succ, index.startOf_of_lineCount_le hlast]
  | cons byte more =>
    right
    have hbyte := List.head?_dropWhile_not isIndent (index.lineBytes line)
    rw [hrest] at hbyte hsplit
    have hat : ((index.lineBytes line).takeWhile isIndent ++ byte :: more)[
        ((index.lineBytes line).takeWhile isIndent).length]? = some byte := by simp
    rw [hsplit] at hat
    refine ⟨byte, ?_, hbyte⟩
    rw [hstop, index.getElem?_bytes (List.getElem?_eq_some_iff.mp hat).1, hat]

theorem isIndentation_indentOf (line : Nat) : index.IsIndentation line (index.indentOf line) where
  start_eq := rfl
  ordered := Nat.le_add_right _ _
  in_line := index.startOf_succ line ▸ index.indentOf_stop_le_next line
  in_text := index.indentOf_stop_le line
  blank _ hstart hstop := index.isIndent_of_mem_indentOf line hstart hstop
  maximal := index.indentOf_maximal line

/-- Indentation touches no line but its own. -/
theorem IsIndentation.eq_of_touches {index : LineIndex} {other : Nat}
    (h : index.IsIndentation line extent) (htouch : index.Touches extent other) : other = line := by
  obtain ⟨offset, hfrom, hto, hother⟩ := htouch
  have hsize : offset < index.size := hto.trans_le h.in_text
  have hown : index.lineOf offset = line :=
    (index.lineOf_eq_iff hsize).mpr ⟨h.start_eq ▸ hfrom, hto.trans_le h.in_line⟩
  rw [← (index.lineOf_eq_iff hsize).mpr hother, hown]

theorem length_measure (extent : Extent) :
    (index.measure extent).length = index.lineOf extent.stop + 1 - index.lineOf extent.start := by
  simp [measure]

theorem measure_getElem? {e : Extent} (h : (index.measure extent)[i]? = some e) :
    index.lineOf extent.start + i ≤ index.lineOf extent.stop ∧
      e = index.indentOf (index.lineOf extent.start + i) := by
  have hi := (List.getElem?_eq_some_iff.mp h).1
  rw [length_measure] at hi
  rw [measure, List.getElem?_map, List.getElem?_range' hi, Option.map_some, Nat.one_mul] at h
  exact ⟨by omega, (Option.some.inj h).symm⟩

/-- Lines are measured in order, and no indentation reaches into the next line. -/
theorem measure_pairwise (extent : Extent) :
    (index.measure extent).Pairwise fun a b => a.start < b.start ∧ a.stop ≤ b.start := by
  have hlast := index.lineOf_lt_lineCount extent.stop
  rw [measure, List.pairwise_map]
  apply List.Pairwise.imp_of_mem _ (List.pairwise_lt_range' 1)
  intro a b ha hb hab
  rw [List.mem_range'_1] at hb
  constructor
  · exact index.startOf_lt_startOf hab (by omega)
  · calc (index.indentOf a).stop ≤ index.startOf (a + 1) := index.indentOf_stop_le_next a
      _ ≤ index.startOf b := index.startOf_mono hab

/-- An extent is measured line by line, from the line of its start to the line of its end: each line
gives its indentation, in order and without overlap. A reversed extent gives none, unless both its
ends are on one line. -/
theorem measure_by_lines (extent : Extent) :
    (extent.start ≤ extent.stop →
      (index.measure extent).length =
          index.lineOf extent.stop - index.lineOf extent.start + 1 ∧
        (∀ i e, (index.measure extent)[i]? = some e →
          index.lineOf extent.start + i < index.lineCount ∧
            index.IsIndentation (index.lineOf extent.start + i) e) ∧
        (index.measure extent).Pairwise fun a b => a.start < b.start ∧ a.stop ≤ b.start) ∧
      (index.lineOf extent.stop < index.lineOf extent.start → index.measure extent = []) := by
  refine ⟨fun hordered => ⟨?_, ?_, index.measure_pairwise extent⟩, ?_⟩
  · have hlines := index.lineOf_mono hordered
    rw [length_measure]
    omega
  · intro i e he
    obtain ⟨hline, rfl⟩ := index.measure_getElem? he
    have hlast := index.lineOf_lt_lineCount extent.stop
    exact ⟨by omega, index.isIndentation_indentOf _⟩
  · intro hreversed
    apply List.eq_nil_of_length_eq_zero
    rw [length_measure]
    omega

theorem touches_iff (hpos : extent.start < extent.stop) (hstop : extent.stop ≤ index.size) :
    index.Touches extent line ↔
      index.lineOf extent.start ≤ line ∧ line ≤ index.lineOf (extent.stop - 1) := by
  constructor
  · rintro ⟨offset, hfrom, hto, hline⟩
    rw [← (index.lineOf_eq_iff (by omega)).mpr hline]
    exact ⟨index.lineOf_mono hfrom, index.lineOf_mono (by omega)⟩
  · rintro ⟨hfirst, hlast⟩
    have hline : line < index.lineCount := hlast.trans_lt (index.lineOf_lt_lineCount _)
    have hbefore := (index.le_lineOf_iff hline).mp hlast
    -- The first byte of both is where the extent begins, or else where the line does.
    by_cases hstart : index.startOf line ≤ extent.start
    · have hsame : index.lineOf extent.start = line :=
        hfirst.antisymm ((index.le_lineOf_iff hline).mpr hstart)
      exact ⟨extent.start, le_rfl, hpos, (index.lineOf_eq_iff (by omega)).mp hsame⟩
    · have hown := index.lineOf_startOf hline
      exact ⟨index.startOf line, by omega, by omega, (index.lineOf_eq_iff (by omega)).mp hown⟩

/-- An extent inside a text is measured as the indentation of the lines it touches, in order, unless
it ends where a line begins: then the indentation of that line follows, which it does not touch. -/
theorem measure_touched (hpos : extent.start < extent.stop) (hstop : extent.stop ≤ index.size) :
    ∃ touched : List Nat, touched.Pairwise (· < ·) ∧
      (∀ line, line ∈ touched ↔ index.Touches extent line) ∧
      (index.startOf (index.lineOf extent.stop) ≠ extent.stop →
        index.measure extent = touched.map index.indentOf) ∧
      (index.startOf (index.lineOf extent.stop) = extent.stop →
        ¬ index.Touches extent (index.lineOf extent.stop) ∧
          index.measure extent =
            touched.map index.indentOf ++ [index.indentOf (index.lineOf extent.stop)]) := by
  have hlines : index.lineOf extent.start ≤ index.lineOf (extent.stop - 1) :=
    index.lineOf_mono (by omega)
  refine ⟨List.range' (index.lineOf extent.start)
    (index.lineOf (extent.stop - 1) + 1 - index.lineOf extent.start),
    List.pairwise_lt_range' 1, ?_, ?_, ?_⟩
  · intro line
    rw [List.mem_range'_1, index.touches_iff hpos hstop]
    omega
  · intro hinside
    rw [measure, index.lineOf_pred_of_not_begins hinside]
  · intro hbegins
    have hlast := index.lineOf_pred_of_begins (by omega) hbegins
    constructor
    · rw [index.touches_iff hpos hstop]
      omega
    · have hcount : index.lineOf extent.stop + 1 - index.lineOf extent.start =
          (index.lineOf (extent.stop - 1) + 1 - index.lineOf extent.start) + 1 := by omega
      have hnext : index.lineOf extent.start +
          (index.lineOf (extent.stop - 1) + 1 - index.lineOf extent.start) =
            index.lineOf extent.stop := by omega
      rw [measure, hcount, List.range'_1_concat, List.map_append, hnext]
      rfl

def twoStatements : LineIndex := ofString "a;\n  b;"

theorem measure_touched_twoStatements :
    ∃ touched : List Nat, (∀ line, line ∈ touched ↔ twoStatements.Touches ⟨1, 6⟩ line) ∧
      touched.map twoStatements.indentOf = [⟨0, 0⟩, ⟨3, 5⟩] := by
  have hpos : (⟨1, 6⟩ : Extent).start < (⟨1, 6⟩ : Extent).stop := by decide
  obtain ⟨touched, -, hmem, hinside, -⟩ := twoStatements.measure_touched hpos (by decide +kernel)
  refine ⟨touched, hmem, ?_⟩
  rw [← hinside (by decide +kernel)]
  decide +kernel

/-- The first statement with its break touches the first line only, but the next line is measured
too; so is the empty line at the end of a text. -/
theorem twoStatements_measured_past_extent :
    (∀ line, twoStatements.Touches ⟨0, 3⟩ line ↔ line = 0) ∧
      twoStatements.measure ⟨0, 3⟩ = [⟨0, 0⟩, ⟨3, 5⟩] ∧
      (∀ line, (ofString "a;\n").Touches ⟨0, 3⟩ line ↔ line = 0) ∧
      (ofString "a;\n").measure ⟨0, 3⟩ = [⟨0, 0⟩, ⟨3, 3⟩] := by
  have hfirst : twoStatements.lineOf 0 = 0 ∧ twoStatements.lineOf 2 = 0 := by decide +kernel
  have hlast : (ofString "a;\n").lineOf 0 = 0 ∧ (ofString "a;\n").lineOf 2 = 0 := by
    decide +kernel
  refine ⟨fun line => ?_, by decide +kernel, fun line => ?_, by decide +kernel⟩
  · rw [touches_iff _ (by decide) (by decide +kernel)]
    simp only [hfirst]
    omega
  · rw [touches_iff _ (by decide) (by decide +kernel)]
    simp only [hlast]
    omega

end LineIndex

end BlockShading
