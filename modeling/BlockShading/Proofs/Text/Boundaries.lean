import BlockShading.Text.Indent

/-!
# Character boundaries

A boundary of a text is a byte offset at which a character begins or the text ends. A text can be
cut at a boundary, and `slice?` succeeds exactly between two of them. Main statements: from one
boundary to the next it is the width of the character there, and lines begin and their indentation
ends at boundaries, although indentation is found byte by byte.
-/

namespace BlockShading.Text

variable {cs before middle after : List Char} {a b count : Nat} {c : Char}

/-- Whether a byte offset falls between two characters of a text or at one of its ends. -/
def IsBoundary (cs : List Char) (offset : Nat) : Prop :=
  ∃ before after, cs = before ++ after ∧ byteLength before = offset

theorem byteLength_eq_zero_iff : byteLength cs = 0 ↔ cs = [] := by
  cases cs with
  | nil => simp
  | cons c rest =>
    have hpos := c.utf8Size_pos
    simp
    omega

theorem length_bytes (cs : List Char) : (bytes cs).length = byteLength cs := by
  induction cs with
  | nil => rfl
  | cons c rest ih =>
    rw [bytes] at ih
    simp [bytes, ih, String.length_utf8EncodeChar]

theorem dropBytes?_cons (hcount : 0 < count) :
    dropBytes? (c :: cs) count =
      if c.utf8Size ≤ count then dropBytes? cs (count - c.utf8Size) else none := by
  obtain ⟨n, rfl⟩ : ∃ n, count = n + 1 := ⟨count - 1, by omega⟩
  rfl

theorem takeBytes?_cons (hcount : 0 < count) :
    takeBytes? (c :: cs) count =
      if c.utf8Size ≤ count then (takeBytes? cs (count - c.utf8Size)).map (c :: ·) else none := by
  obtain ⟨n, rfl⟩ : ∃ n, count = n + 1 := ⟨count - 1, by omega⟩
  rfl

theorem dropBytes?_append (before after : List Char) :
    dropBytes? (before ++ after) (byteLength before) = some after := by
  induction before with
  | nil => simp [dropBytes?]
  | cons c rest ih =>
    have hpos := c.utf8Size_pos
    rw [List.cons_append, byteLength_cons, dropBytes?_cons (by omega), if_pos (by omega),
      Nat.add_sub_cancel_left, ih]

theorem takeBytes?_append (before after : List Char) :
    takeBytes? (before ++ after) (byteLength before) = some before := by
  induction before with
  | nil => simp [takeBytes?]
  | cons c rest ih =>
    have hpos := c.utf8Size_pos
    rw [List.cons_append, byteLength_cons, takeBytes?_cons (by omega), if_pos (by omega),
      Nat.add_sub_cancel_left, ih, Option.map_some]

theorem eq_append_of_dropBytes? (h : dropBytes? cs count = some after) :
    ∃ before, cs = before ++ after ∧ byteLength before = count := by
  induction cs generalizing count with
  | nil =>
    cases count with
    | zero => exact ⟨[], by simpa [dropBytes?] using h, rfl⟩
    | succ n => simp [dropBytes?] at h
  | cons c rest ih =>
    rcases Nat.eq_zero_or_pos count with rfl | hpos
    · exact ⟨[], by simpa [dropBytes?] using h, rfl⟩
    · rw [dropBytes?_cons hpos] at h
      split at h
      · obtain ⟨before, hbefore, hlength⟩ := ih h
        refine ⟨c :: before, by simp [hbefore], ?_⟩
        simp [hlength]
        omega
      · cases h

theorem eq_append_of_takeBytes? (h : takeBytes? cs count = some before) :
    ∃ after, cs = before ++ after ∧ byteLength before = count := by
  induction cs generalizing count before with
  | nil =>
    cases count with
    | zero =>
      obtain rfl : before = [] := by simpa [takeBytes?] using h.symm
      exact ⟨[], rfl, rfl⟩
    | succ n => simp [takeBytes?] at h
  | cons c rest ih =>
    rcases Nat.eq_zero_or_pos count with rfl | hpos
    · obtain rfl : before = [] := by simpa [takeBytes?] using h.symm
      exact ⟨c :: rest, rfl, rfl⟩
    · rw [takeBytes?_cons hpos] at h
      split at h
      · obtain ⟨taken, htaken, rfl⟩ := Option.map_eq_some_iff.mp h
        obtain ⟨after, hafter, hlength⟩ := ih htaken
        refine ⟨after, by simp [hafter], ?_⟩
        simp [hlength]
        omega
      · cases h

theorem isBoundary_iff_dropBytes? : IsBoundary cs a ↔ (dropBytes? cs a).isSome := by
  constructor
  · rintro ⟨before, after, rfl, rfl⟩
    simp [dropBytes?_append]
  · intro h
    obtain ⟨after, hafter⟩ := Option.isSome_iff_exists.mp h
    obtain ⟨before, hsplit, hlength⟩ := eq_append_of_dropBytes? hafter
    exact ⟨before, after, hsplit, hlength⟩

instance (cs : List Char) (offset : Nat) : Decidable (IsBoundary cs offset) :=
  decidable_of_iff _ isBoundary_iff_dropBytes?.symm

theorem IsBoundary.le (h : IsBoundary cs a) : a ≤ byteLength cs := by
  obtain ⟨before, after, rfl, rfl⟩ := h
  simp

/-- Two boundaries cut a text in three. -/
theorem IsBoundary.between (ha : IsBoundary cs a) (hb : IsBoundary cs b) (hab : a ≤ b) :
    ∃ before middle after, cs = before ++ (middle ++ after) ∧ byteLength before = a ∧
      byteLength middle = b - a := by
  obtain ⟨before, rest, rfl, rfl⟩ := ha
  obtain ⟨upTo, after, hsplit, rfl⟩ := hb
  rcases List.append_eq_append_iff.mp hsplit with ⟨middle, rfl, rfl⟩ | ⟨extra, rfl, rfl⟩
  · exact ⟨before, middle, after, rfl, rfl, by simp⟩
  · -- The second cut is in front of the first only if nothing lies between.
    obtain rfl : extra = [] := byteLength_eq_zero_iff.mp (by simp at hab; omega)
    exact ⟨upTo, [], rest, by simp, by simp, by simp⟩

/-- A text can be sliced exactly between two boundaries in order. -/
theorem isSome_slice?_iff :
    (slice? cs a b).isSome ↔ a ≤ b ∧ IsBoundary cs a ∧ IsBoundary cs b := by
  constructor
  · intro h
    obtain ⟨middle, hmiddle⟩ := Option.isSome_iff_exists.mp h
    unfold slice? at hmiddle
    split at hmiddle
    · next hab =>
      obtain ⟨rest, hdrop, htake⟩ := Option.bind_eq_some_iff.mp hmiddle
      obtain ⟨before, rfl, rfl⟩ := eq_append_of_dropBytes? hdrop
      obtain ⟨after, rfl, hlength⟩ := eq_append_of_takeBytes? htake
      refine ⟨hab, ⟨before, middle ++ after, rfl, rfl⟩, before ++ middle, after, ?_, ?_⟩
      · rw [List.append_assoc]
      · simp
        omega
    · cases hmiddle
  · rintro ⟨hab, ha, hb⟩
    obtain ⟨before, middle, after, rfl, rfl, hlength⟩ := ha.between hb hab
    rw [slice?, if_pos hab, dropBytes?_append, Option.bind_some, ← hlength, takeBytes?_append]
    rfl

theorem widthAt_append (before after : List Char) (c : Char) :
    widthAt (before ++ c :: after) (byteLength before) = c.utf8Size := by
  induction before with
  | nil => simp [widthAt, c.utf8Size_pos]
  | cons d rest ih =>
    rw [List.cons_append, byteLength_cons, widthAt, if_neg (by omega), Nat.add_sub_cancel_left,
      ih]

/-- The character at a boundary reaches to the next boundary and not beyond it. -/
theorem IsBoundary.widthAt_le (ha : IsBoundary cs a) (hb : IsBoundary cs b) (hab : a < b) :
    0 < widthAt cs a ∧ a + widthAt cs a ≤ b ∧ IsBoundary cs (a + widthAt cs a) := by
  obtain ⟨before, middle, after, rfl, rfl, hlength⟩ := ha.between hb (Nat.le_of_lt hab)
  cases middle with
  | nil => simp at hlength; omega
  | cons c rest =>
    have hwidth := widthAt_append before (rest ++ after) c
    rw [List.cons_append, hwidth]
    rw [byteLength_cons] at hlength
    refine ⟨c.utf8Size_pos, by omega, before ++ [c], rest ++ after, by simp, by simp⟩

theorem flatten_consLine (c : Char) (lines : List (List Char)) :
    (consLine c lines).flatten = c :: lines.flatten := by
  cases lines <;> rfl

/-- Lines with their breaks make up the text. -/
theorem flatten_splitLines (cs : List Char) : (splitLines cs).flatten = cs := by
  fun_induction splitLines cs with
  | case1 => rfl
  | case2 rest ih => simp [ih]
  | case3 c rest _ hbreak ih => simp [ih]
  | case4 c rest _ hbreak ih => rw [flatten_consLine, ih]

theorem lineStarts_getElem? (start line : Nat) (lines : List (List Char)) :
    (lineStarts start lines)[line]? =
      if line < lines.length then some (start + byteLength (lines.take line).flatten)
      else none := by
  induction lines generalizing start line with
  | nil => simp [lineStarts]
  | cons first rest ih =>
    cases line with
    | zero => simp [lineStarts]
    | succ line => simp [lineStarts, ih, Nat.add_assoc]

def isIndentChar (c : Char) : Bool := c == ' ' || c == '\t'

theorem utf8EncodeChar_of_isIndentChar (h : isIndentChar c = true) :
    ∃ byte, String.utf8EncodeChar c = [byte] ∧ LineIndex.isIndent byte = true := by
  have hcases : c = ' ' ∨ c = '\t' := by simpa [isIndentChar] using h
  rcases hcases with rfl | rfl
  · exact ⟨32, rfl, rfl⟩
  · exact ⟨9, rfl, rfl⟩

/-- The first byte of any other character is no blank: it is the character itself, or the first of
several bytes, which is at least 192. -/
theorem utf8EncodeChar_of_not_isIndentChar (h : isIndentChar c = false) :
    ∃ byte more, String.utf8EncodeChar c = byte :: more ∧ LineIndex.isIndent byte = false := by
  have hne : c ≠ ' ' ∧ c ≠ '\t' := by simpa [isIndentChar] using h
  have hspace : c.val.toNat ≠ 32 := fun hval => hne.1 (Char.ext (UInt32.toNat_inj.mp hval))
  have htab : c.val.toNat ≠ 9 := fun hval => hne.2 (Char.ext (UInt32.toNat_inj.mp hval))
  have hindent : ∀ n : Nat, n < 256 → n ≠ 32 → n ≠ 9 →
      LineIndex.isIndent (UInt8.ofNat n) = false := by
    intro n hn h32 h9
    simp [LineIndex.isIndent, ← UInt8.toNat_inj, Nat.mod_eq_of_lt hn, h32, h9]
  rw [String.utf8EncodeChar]
  split
  · exact ⟨_, _, rfl, hindent _ (by omega) hspace htab⟩
  split
  · exact ⟨_, _, rfl, hindent _ (by omega) (by omega) (by omega)⟩
  split
  · exact ⟨_, _, rfl, hindent _ (by omega) (by omega) (by omega)⟩
  · exact ⟨_, _, rfl, hindent _ (by omega) (by omega) (by omega)⟩

/-- The leading blank bytes of a text are those of its leading blank characters. -/
theorem takeWhile_isIndent_bytes (cs : List Char) :
    (bytes cs).takeWhile LineIndex.isIndent = bytes (cs.takeWhile isIndentChar) := by
  induction cs with
  | nil => rfl
  | cons c rest ih =>
    have hbytes : bytes (c :: rest) = String.utf8EncodeChar c ++ bytes rest := rfl
    cases hblank : isIndentChar c with
    | true =>
      obtain ⟨byte, hbyte, hindent⟩ := utf8EncodeChar_of_isIndentChar hblank
      have hcons : bytes (c :: rest.takeWhile isIndentChar) =
          String.utf8EncodeChar c ++ bytes (rest.takeWhile isIndentChar) := rfl
      rw [hbytes, List.takeWhile_cons_of_pos hblank, hcons, hbyte, ← ih]
      simp [hindent]
    | false =>
      obtain ⟨byte, more, hbyte, hindent⟩ := utf8EncodeChar_of_not_isIndentChar hblank
      rw [hbytes, hbyte, List.takeWhile_cons_of_neg (by simp [hblank])]
      simp [hindent, bytes]

end BlockShading.Text

namespace BlockShading.LineIndex

open Text

theorem startOf_eq (index : LineIndex) (line : Nat) :
    index.startOf line = byteLength (index.lines.take line).flatten := by
  rw [startOf, index.starts_eq, lineStarts_getElem?]
  split
  · simp
  · next hline =>
    rw [List.take_of_length_le (Nat.not_lt.mp hline), index.lines_eq, flatten_splitLines,
      index.size_eq]
    rfl

/-- A text is what comes before a line, the line, and what comes after it. -/
theorem text_eq (index : LineIndex) (line : Nat) :
    index.text = (index.lines.take line).flatten ++
      (index.lineChars line ++ (index.lines.drop (line + 1)).flatten) := by
  have htext : index.text = index.lines.flatten := by rw [index.lines_eq, flatten_splitLines]
  have hline : (index.lines.drop line).flatten =
      index.lineChars line ++ (index.lines.drop (line + 1)).flatten := by
    by_cases hlt : line < index.lines.length
    · rw [List.drop_eq_getElem_cons hlt, List.flatten_cons, lineChars,
        List.getElem?_eq_getElem hlt, Option.getD_some]
    · have hle := Nat.not_lt.mp hlt
      rw [lineChars, List.getElem?_eq_none hle, List.drop_of_length_le hle,
        List.drop_of_length_le (by omega)]
      rfl
  rw [← hline, ← List.flatten_append, List.take_append_drop, htext]

/-- Indentation begins and ends at boundaries of the text. -/
theorem isBoundary_indentOf (index : LineIndex) (line : Nat) :
    IsBoundary index.text (index.indentOf line).start ∧
      IsBoundary index.text (index.indentOf line).stop := by
  have htext := index.text_eq line
  have hchars := List.takeWhile_append_dropWhile (p := isIndentChar) (l := index.lineChars line)
  refine ⟨⟨_, _, htext, (index.startOf_eq line).symm⟩, ?_⟩
  rw [← hchars, List.append_assoc, ← List.append_assoc] at htext
  refine ⟨_, _, htext, ?_⟩
  rw [byteLength_append, ← startOf_eq, ← length_bytes (List.takeWhile ..),
    ← takeWhile_isIndent_bytes]
  rfl

theorem indentOf_stop_le (index : LineIndex) (line : Nat) :
    (index.indentOf line).stop ≤ index.size :=
  index.size_eq ▸ (index.isBoundary_indentOf line).2.le

end BlockShading.LineIndex
