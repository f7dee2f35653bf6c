import BlockShading.Proofs.Text.Positions
import Mathlib.Order.Bounds.Defs
import Mathlib.Order.Monotone.Basic

/-!
# Lines as a partition of a text

Every line but the last ends in its only break, so the lines follow each other without a gap and
only the last can be empty. An offset is on the last line that does not begin after it, be it in the
middle of a break or past the end: `LineIndex.le_lineOf_iff`, from which the order of lines and of
positions follows. Main statement: lines, their starts, the line of an offset and its position all
describe this one partition.
-/

namespace BlockShading.Text

variable {cs : List Char} {lines : List (List Char)} {offset line : Nat}

/-- What ends a line: one character, or a carriage return and a line feed together. -/
def lineEndings : List (List Char) :=
  [['\n'], ['\r'], ['\r', '\n'], ['\x0b'], ['\x0c'], ['\u0085'], ['\u2028'], ['\u2029']]

/-- Whether lines are broken where they end: each but the last at the only break in it, the last
nowhere, and never between a carriage return and a line feed. -/
inductive Broken : List (List Char) → Prop
  | last {line : List Char} (plain : ∀ c ∈ line, [c] ∉ lineEndings) : Broken [line]
  | cons {body ending next : List Char} {rest : List (List Char)}
      (plain : ∀ c ∈ body, [c] ∉ lineEndings) (ends : ending ∈ lineEndings)
      (whole : ending = ['\r'] → next.head? ≠ some '\n') (more : Broken (next :: rest)) :
      Broken ((body ++ ending) :: next :: rest)

theorem isBreak_iff {c : Char} : isBreak c = true ↔ [c] ∈ lineEndings := by
  simp [isBreak, lineEndings, or_assoc]

theorem Broken.exists_cons (h : Broken lines) : ∃ next rest, lines = next :: rest := by
  cases h <;> exact ⟨_, _, rfl⟩

theorem Broken.consLine {c : Char} (hc : [c] ∉ lineEndings) (h : Broken lines) :
    Broken (consLine c lines) := by
  cases h with
  | last plain => exact .last (List.forall_mem_cons.mpr ⟨hc, plain⟩)
  | @cons body _ _ _ plain ends whole more =>
    have hplain : ∀ d ∈ c :: body, [d] ∉ lineEndings := List.forall_mem_cons.mpr ⟨hc, plain⟩
    exact .cons hplain ends whole more

/-- The first line begins as the text does. -/
theorem head?_of_splitLines {next : List Char} {rest : List (List Char)} {c : Char}
    (h : splitLines cs = next :: rest) (hhead : next.head? = some c) : cs.head? = some c := by
  rw [← flatten_splitLines cs, h]
  simp [List.head?_append, hhead]

theorem broken_splitLines (cs : List Char) : Broken (splitLines cs) := by
  fun_induction splitLines cs with
  | case1 => exact .last (by simp)
  | case2 rest ih =>
    obtain ⟨next, more, hlines⟩ := ih.exists_cons
    rw [hlines] at ih ⊢
    exact @Broken.cons [] ['\r', '\n'] next more (by simp) (by simp [lineEndings]) (by simp) ih
  | case3 c rest hpair hbreak ih =>
    obtain ⟨next, more, hlines⟩ := ih.exists_cons
    have hwhole : [c] = ['\r'] → next.head? ≠ some '\n' := by
      intro hc hhead
      obtain ⟨tail, rfl⟩ := List.head?_eq_some_iff.mp (head?_of_splitLines hlines hhead)
      exact hpair tail (List.singleton_inj.mp hc) rfl
    rw [hlines] at ih ⊢
    exact @Broken.cons [] [c] next more (by simp) (isBreak_iff.mp hbreak) hwhole ih
  | case4 c rest hpair hbreak ih => exact ih.consLine (isBreak_iff.not.mp hbreak)

theorem splitLines_of_plain {c : Char} (hc : [c] ∉ lineEndings) :
    splitLines (c :: cs) = consLine c (splitLines cs) := by
  have hbreak : ¬ isBreak c = true := isBreak_iff.not.mpr hc
  rw [splitLines, if_neg hbreak]
  rintro tail rfl -
  exact hbreak rfl

theorem splitLines_of_ending {ending : List Char} (h : ending ∈ lineEndings)
    (hwhole : ending = ['\r'] → cs.head? ≠ some '\n') :
    splitLines (ending ++ cs) = ending :: splitLines cs := by
  have hforms : ∀ ending ∈ lineEndings, ending = ['\r', '\n'] ∨ ∃ c, ending = [c] := by
    simp [lineEndings]
  rcases hforms ending h with rfl | ⟨c, rfl⟩
  · simp [splitLines]
  · rw [List.singleton_append, splitLines, if_pos (isBreak_iff.mpr h)]
    rintro tail rfl rfl
    exact hwhole rfl rfl

/-- The next line begins as all that follows does: an empty line is followed by nothing. -/
theorem Broken.head?_flatten {next : List Char} {rest : List (List Char)}
    (h : Broken (next :: rest)) : (next :: rest).flatten.head? = next.head? := by
  cases h with
  | last plain => simp
  | @cons body ending following more plain ends whole hmore =>
    have hnonempty : ∀ ending ∈ lineEndings, ending ≠ [] := by simp [lineEndings]
    obtain ⟨c, tail, hline⟩ := List.exists_cons_of_ne_nil
      (List.append_ne_nil_of_right_ne_nil body (hnonempty ending ends))
    rw [List.flatten_cons, hline]
    rfl

/-- Lines that are broken where they end are the lines of the text that they make up. -/
theorem Broken.splitLines_flatten (h : Broken lines) : splitLines lines.flatten = lines := by
  induction h with
  | @last line plain =>
    induction line with
    | nil => rfl
    | cons c rest ih =>
      rw [List.forall_mem_cons] at plain
      simp only [List.flatten_singleton] at ih ⊢
      rw [splitLines_of_plain plain.1, ih plain.2]
      rfl
  | @cons body ending next rest plain ends whole more ih =>
    induction body with
    | nil =>
      have hwhole : ending = ['\r'] → (next :: rest).flatten.head? ≠ some '\n' := by
        rwa [more.head?_flatten]
      rw [List.nil_append, List.flatten_cons, splitLines_of_ending ends hwhole, ih]
    | cons c body ihbody =>
      rw [List.forall_mem_cons] at plain
      have hbody := ihbody plain.2
      rw [List.flatten_cons] at hbody ⊢
      rw [List.cons_append, List.cons_append, splitLines_of_plain plain.1, hbody]
      rfl

/-- Every line but the last has a break in it. -/
theorem Broken.exists_isBreak (h : Broken lines) (hline : line + 1 < lines.length) :
    ∃ chars, lines[line]? = some chars ∧ ∃ c ∈ chars, isBreak c = true := by
  induction h generalizing line with
  | last plain => simp at hline
  | @cons body ending next rest plain ends whole more ih =>
    cases line with
    | zero =>
      have hbreaks : ∀ ending ∈ lineEndings, ∃ c ∈ ending, isBreak c = true := by
        simp [lineEndings, isBreak]
      obtain ⟨c, hmem, hc⟩ := hbreaks ending ends
      exact ⟨_, rfl, c, List.mem_append_right body hmem, hc⟩
    | succ line => exact ih (by simpa using hline)

theorem length_lineStarts (start : Nat) (lines : List (List Char)) :
    (lineStarts start lines).length = lines.length := by
  induction lines generalizing start with
  | nil => rfl
  | cons line rest ih => simp [lineStarts, ih]

theorem startsUpTo_le_length (offset : Nat) (starts : List Nat) :
    startsUpTo offset starts ≤ starts.length := by
  induction starts with
  | nil => simp [startsUpTo]
  | cons start rest ih =>
    rw [startsUpTo]
    split <;> simp [ih]

/-- The counting of starts stops at one that is after the offset. -/
theorem lt_of_getElem?_startsUpTo {starts : List Nat} {start : Nat}
    (h : starts[startsUpTo offset starts]? = some start) : offset < start := by
  induction starts with
  | nil => simp at h
  | cons first rest ih =>
    rw [startsUpTo] at h
    split at h
    · next hlt =>
      simp at h
      omega
    · exact ih (by simpa using h)

theorem bytes_flatten (lines : List (List Char)) : bytes lines.flatten = lines.flatMap bytes := by
  induction lines with
  | nil => rfl
  | cons line rest ih => simp [bytes_append, ih]

end BlockShading.Text

namespace BlockShading.LineIndex

open Text

variable (index : LineIndex) {line offset a b : Nat}

theorem lines_broken : Broken index.lines := index.lines_eq ▸ broken_splitLines index.text

theorem flatten_lines : index.lines.flatten = index.text := by
  rw [index.lines_eq, flatten_splitLines]

theorem eq_lines_iff (lines : List (List Char)) :
    lines = index.lines ↔ Broken lines ∧ lines.flatten = index.text := by
  constructor
  · rintro rfl
    exact ⟨index.lines_broken, index.flatten_lines⟩
  · rintro ⟨hbroken, htext⟩
    rw [index.lines_eq, ← htext, hbroken.splitLines_flatten]

theorem lineCount_pos : 0 < index.lineCount := by
  obtain ⟨next, rest, hlines⟩ := index.lines_broken.exists_cons
  simp [lineCount, hlines]

theorem length_starts : index.starts.length = index.lineCount := by
  rw [index.starts_eq, length_lineStarts, lineCount]

theorem startOf_succ (line : Nat) :
    index.startOf (line + 1) = index.startOf line + (index.lineBytes line).length := by
  have hflat : (index.lines[line]?.toList).flatten = index.lineChars line := by
    unfold lineChars
    cases index.lines[line]? <;> simp
  rw [startOf_eq, startOf_eq, List.take_add_one, List.flatten_append, byteLength_append, hflat,
    lineBytes, length_bytes]

theorem startOf_mono : Monotone index.startOf := by
  apply monotone_nat_of_le_succ
  intro line
  rw [startOf_succ]
  omega

theorem startOf_of_lineCount_le (h : index.lineCount ≤ line) : index.startOf line = index.size := by
  have hnone : index.starts[line]? = none := by
    rwa [List.getElem?_eq_none_iff, length_starts]
  simp [startOf, hnone]

theorem exists_isBreak (h : line + 1 < index.lineCount) :
    ∃ c ∈ index.lineChars line, isBreak c = true := by
  obtain ⟨chars, hchars, hbreak⟩ := index.lines_broken.exists_isBreak h
  simpa [lineChars, hchars] using hbreak

theorem startOf_lt_succ (h : line + 1 < index.lineCount) :
    index.startOf line < index.startOf (line + 1) := by
  obtain ⟨c, hmem, -⟩ := index.exists_isBreak h
  have hne : byteLength (index.lineChars line) ≠ 0 := by
    rw [ne_eq, byteLength_eq_zero_iff]
    exact List.ne_nil_of_mem hmem
  rw [startOf_succ, lineBytes, length_bytes]
  omega

theorem startOf_lt_startOf (hab : a < b) (hb : b < index.lineCount) :
    index.startOf a < index.startOf b :=
  calc index.startOf a < index.startOf (a + 1) := index.startOf_lt_succ (by omega)
    _ ≤ index.startOf b := index.startOf_mono hab

theorem lineOf_lt_lineCount (offset : Nat) : index.lineOf offset < index.lineCount := by
  have hpos := index.lineCount_pos
  have hle := startsUpTo_le_length offset (index.starts.drop 1)
  rw [List.length_drop, length_starts] at hle
  rw [lineOf]
  omega

theorem lt_startOf_succ_lineOf (h : index.lineOf offset + 1 < index.lineCount) :
    offset < index.startOf (index.lineOf offset + 1) := by
  have hlt : index.lineOf offset + 1 < index.starts.length := by rwa [length_starts]
  have hstart : index.starts[index.lineOf offset + 1]? =
      some (index.startOf (index.lineOf offset + 1)) := by
    simp [startOf, List.getElem?_eq_getElem hlt]
  rw [Nat.add_comm, ← List.getElem?_drop] at hstart
  rw [Nat.add_comm]
  exact lt_of_getElem?_startsUpTo hstart

/-- The lines up to that of an offset are those that do not begin after it. -/
theorem le_lineOf_iff (h : line < index.lineCount) :
    line ≤ index.lineOf offset ↔ index.startOf line ≤ offset := by
  constructor
  · intro hle
    exact (index.startOf_mono hle).trans (index.startOf_lineOf_le offset)
  · intro hstart
    by_contra hlt
    have hnext : offset < index.startOf (index.lineOf offset + 1) :=
      index.lt_startOf_succ_lineOf (by omega)
    have hmono : index.startOf (index.lineOf offset + 1) ≤ index.startOf line :=
      index.startOf_mono (by omega)
    omega

theorem lineOf_mono : Monotone index.lineOf := by
  intro a b hab
  rw [index.le_lineOf_iff (index.lineOf_lt_lineCount a)]
  exact (index.startOf_lineOf_le a).trans hab

theorem lineOf_isGreatest (offset : Nat) :
    IsGreatest {line | line < index.lineCount ∧ index.startOf line ≤ min offset index.size}
      (index.lineOf offset) := by
  constructor
  · refine ⟨index.lineOf_lt_lineCount offset, Nat.le_min.mpr ⟨index.startOf_lineOf_le offset, ?_⟩⟩
    exact index.startOf_le_size _
  · rintro line ⟨hline, hstart⟩
    exact (index.le_lineOf_iff hline).mpr (Nat.le_min.mp hstart).1

/-- A byte is on the line whose bytes it is one of. -/
theorem lineOf_eq_iff (h : offset < index.size) :
    index.lineOf offset = line ↔
      index.startOf line ≤ offset ∧
        offset < index.startOf line + (index.lineBytes line).length := by
  rw [← startOf_succ]
  constructor
  · rintro rfl
    refine ⟨index.startOf_lineOf_le offset, ?_⟩
    by_cases hlast : index.lineOf offset + 1 < index.lineCount
    · exact index.lt_startOf_succ_lineOf hlast
    · rw [index.startOf_of_lineCount_le (Nat.not_lt.mp hlast)]
      exact h
  · rintro ⟨hstart, hnext⟩
    have hline : line < index.lineCount := by
      by_contra hpast
      rw [index.startOf_of_lineCount_le (Nat.not_lt.mp hpast)] at hstart
      omega
    apply Nat.le_antisymm
    · by_contra hlt
      have hmono : index.startOf (line + 1) ≤ index.startOf (index.lineOf offset) :=
        index.startOf_mono (by omega)
      have hle := index.startOf_lineOf_le offset
      omega
    · exact (index.le_lineOf_iff hline).mpr hstart

theorem lineOf_startOf (h : line < index.lineCount) : index.lineOf (index.startOf line) = line := by
  apply Nat.le_antisymm
  · by_contra hlt
    have hstart := index.startOf_lt_startOf (Nat.not_le.mp hlt) (index.lineOf_lt_lineCount _)
    have hle := index.startOf_lineOf_le (index.startOf line)
    omega
  · exact (index.le_lineOf_iff h).mpr (Nat.le_refl _)

/-- Where a line begins, the offset before is on the line before. -/
theorem lineOf_pred_of_begins (hpos : 0 < offset)
    (h : index.startOf (index.lineOf offset) = offset) :
    index.lineOf (offset - 1) + 1 = index.lineOf offset := by
  have hlast := index.lineOf_lt_lineCount offset
  have hbefore : ¬ index.lineOf offset ≤ index.lineOf (offset - 1) := by
    rw [index.le_lineOf_iff hlast]
    omega
  by_contra hne
  -- A line between the two would begin before the offset, hence not after the one before it.
  have hbetween : index.lineOf (offset - 1) + 1 < index.lineOf offset := by omega
  have hstart := index.startOf_lt_startOf hbetween hlast
  have hle := (index.le_lineOf_iff (hbetween.trans hlast)).mpr
    (show index.startOf (index.lineOf (offset - 1) + 1) ≤ offset - 1 by omega)
  omega

theorem lineOf_pred_of_not_begins (h : index.startOf (index.lineOf offset) ≠ offset) :
    index.lineOf (offset - 1) = index.lineOf offset := by
  have hstart := index.startOf_lineOf_le offset
  apply Nat.le_antisymm
  · exact index.lineOf_mono (Nat.sub_le offset 1)
  · rw [index.le_lineOf_iff (index.lineOf_lt_lineCount offset)]
    omega

theorem position_lt (hab : a < b) (hb : b ≤ index.size) :
    Prod.Lex (· < ·) (· < ·) (index.position a) (index.position b) := by
  have ha := index.startOf_add_column a
  have hb' := index.startOf_add_column b
  rw [Prod.lex_def]
  rcases Nat.lt_or_eq_of_le (index.lineOf_mono hab.le) with hlt | heq
  · exact .inl hlt
  · refine .inr ⟨heq, ?_⟩
    have hline : (index.position a).1 = (index.position b).1 := heq
    rw [hline] at ha
    omega

theorem map_lineChars_range : (List.range index.lineCount).map index.lineChars = index.lines := by
  apply List.ext_getElem?
  intro i
  by_cases hi : i < index.lines.length
  · simp [lineChars, lineCount, hi]
  · simp [lineCount, hi]

theorem map_lineBytes_range :
    (List.range index.lineCount).map index.lineBytes = index.lines.map bytes := by
  rw [← map_lineChars_range, List.map_map]
  rfl

theorem flatMap_lineBytes :
    (List.range index.lineCount).flatMap index.lineBytes = bytes index.text := by
  rw [← flatten_lines, bytes_flatten, List.flatMap_def, map_lineBytes_range, List.flatMap_def]

/-- The lines are the only parts of the text that are broken where lines end. They make it up in
order, each begins where the one before ends, and none but the last is empty. The line of an offset
is the last that does not begin after it, where an offset past the end counts as the end; line and
column give the offset back and grow with it. -/
theorem lines_partition :
    (∀ lines, lines = index.lines ↔ Broken lines ∧ lines.flatten = index.text) ∧
      (List.range index.lineCount).map index.lineBytes = index.lines.map bytes ∧
      (List.range index.lineCount).flatMap index.lineBytes = bytes index.text ∧
      index.size = (bytes index.text).length ∧
      index.startOf 0 = 0 ∧
      (∀ line < index.lineCount,
        index.startOf (line + 1) = index.startOf line + (index.lineBytes line).length) ∧
      (∀ line, index.lineCount ≤ line → index.startOf line = index.size) ∧
      (∀ a b, a < b → b < index.lineCount → index.startOf a < index.startOf b) ∧
      (∀ offset, IsGreatest
        {line | line < index.lineCount ∧ index.startOf line ≤ min offset index.size}
        (index.lineOf offset)) ∧
      (∀ offset, (index.position offset).1 = index.lineOf offset ∧
        index.startOf (index.position offset).1 + (index.position offset).2 =
          min offset index.size) ∧
      ∀ a b, a < b → b ≤ index.size →
        Prod.Lex (· < ·) (· < ·) (index.position a) (index.position b) := by
  refine ⟨index.eq_lines_iff, index.map_lineBytes_range, index.flatMap_lineBytes, ?_, ?_,
    fun line _ => index.startOf_succ line, fun line => index.startOf_of_lineCount_le,
    fun a b => index.startOf_lt_startOf, index.lineOf_isGreatest,
    fun offset => ⟨rfl, index.startOf_add_column offset⟩, fun a b => index.position_lt⟩
  · rw [length_bytes, index.size_eq]
  · simp [startOf_eq]

end BlockShading.LineIndex
