import BlockShading.Proofs.Color.Hex
import Mathlib.Data.List.Forall2

/-!
# Reading colors

What a text must look like to be a color, said without reading it: after the leading marks stand
three or four groups of two characters, each a number of two digits or a plus sign and one digit.
Main statement: these texts are read, all others are refused for the reason that applies, and the
written form of a color is one of the texts that are read as it.
-/

namespace BlockShading

namespace Hex

def IsDigit (c : Char) (value : Nat) : Prop :=
  "0123456789abcdef".toList[value]? = some c ∨ "0123456789ABCDEF".toList[value]? = some c

instance (c : Char) (value : Nat) : Decidable (IsDigit c value) :=
  inferInstanceAs (Decidable (_ ∨ _))

/-- Whether two characters stand for a channel: two digits, or a plus sign and one digit. -/
inductive IsChannel : Char × Char → UInt8 → Prop
  | digits {high low : Char} {h l : Nat} {value : UInt8} (hhigh : IsDigit high h)
      (hlow : IsDigit low l) (hvalue : value.toNat = 16 * h + l) : IsChannel (high, low) value
  | plus {low : Char} {value : UInt8} (hlow : IsDigit low value.toNat) : IsChannel ('+', low) value

/-- The characters of a text by twos, without the last one if their number is odd. -/
def groups : List Char → List (Char × Char)
  | high :: low :: rest => (high, low) :: groups rest
  | _ => []

variable {c high low : Char} {value : UInt8} {cs : List Char} {values : List UInt8}

theorem IsDigit.lt {v : Nat} (h : IsDigit c v) : v < 16 := by
  rcases h with h | h
  · exact (List.getElem?_eq_some_iff.mp h).1
  · exact (List.getElem?_eq_some_iff.mp h).1

theorem digit?_of_isDigit {v : Nat} (h : IsDigit c v) : digit? c = some v.toUInt8 := by
  have hlower : ∀ v < 16, ("0123456789abcdef".toList[v]?).bind digit? = some v.toUInt8 := by decide
  have hupper : ∀ v < 16, ("0123456789ABCDEF".toList[v]?).bind digit? = some v.toUInt8 := by decide
  have hlt := h.lt
  rcases h with h | h
  · simpa only [h, Option.bind_some] using hlower v hlt
  · simpa only [h, Option.bind_some] using hupper v hlt

theorem isDigit_of_digit? (h : digit? c = some value) : IsDigit c value.toNat := by
  have hfigures : ∀ n < 58, 48 ≤ n → IsDigit (Char.ofNat n) (n - 48).toUInt8.toNat := by decide
  have hlower : ∀ n < 103, 97 ≤ n → IsDigit (Char.ofNat n) (n - 97 + 10).toUInt8.toNat := by decide
  have hupper : ∀ n < 71, 65 ≤ n → IsDigit (Char.ofNat n) (n - 65 + 10).toUInt8.toNat := by decide
  rw [← Char.ofNat_toNat c]
  unfold digit? at h
  split at h
  · next hrange =>
    cases h
    exact hfigures _ (Nat.lt_succ_of_le hrange.2) hrange.1
  split at h
  · next hrange =>
    cases h
    exact hlower _ (Nat.lt_succ_of_le hrange.2) hrange.1
  split at h
  · next hrange =>
    cases h
    exact hupper _ (Nat.lt_succ_of_le hrange.2) hrange.1
  · cases h

theorem not_isDigit_plus (v : Nat) : ¬ IsDigit '+' v := fun h => by
  have hread := digit?_of_isDigit h
  rw [show digit? '+' = none by decide] at hread
  cases hread

/-- A channel is read exactly from the two characters that stand for it. -/
theorem channel?_eq_some_iff : channel? high low = some value ↔ IsChannel (high, low) value := by
  constructor
  · intro h
    unfold channel? at h
    split at h
    · next hplus =>
      rw [hplus]
      exact .plus (isDigit_of_digit? h)
    · obtain ⟨x, hx, hrest⟩ := Option.bind_eq_some_iff.mp h
      obtain ⟨y, hy, rfl⟩ := Option.map_eq_some_iff.mp hrest
      have hhigh := isDigit_of_digit? hx
      have hlow := isDigit_of_digit? hy
      refine .digits hhigh hlow ?_
      have hxlt := hhigh.lt
      have hylt := hlow.lt
      simp
      omega
  · intro h
    cases h with
    | plus hlow => simpa [channel?] using digit?_of_isDigit hlow
    | @digits _ _ x y _ hhigh hlow hvalue =>
      have hplus : high ≠ '+' := by
        rintro rfl
        exact not_isDigit_plus x hhigh
      have hxlt := hhigh.lt
      have hylt := hlow.lt
      rw [channel?, if_neg hplus, digit?_of_isDigit hhigh, digit?_of_isDigit hlow]
      simp only [Option.bind_some, Option.map_some, Option.some.injEq, ← UInt8.toNat_inj]
      simp
      omega

theorem length_groups (cs : List Char) : (groups cs).length = cs.length / 2 := by
  fun_induction groups cs with
  | case1 high low rest ih =>
    simp only [List.length_cons, ih]
    omega
  | case2 cs hshort =>
    match cs, hshort with
    | [], _ => rfl
    | [_], _ => simp
    | c :: d :: rest, hshort => exact absurd rfl (hshort c d rest)

/-- Pairs are read group by group. -/
theorem channels?_eq_some_iff (heven : cs.length % 2 = 0) :
    channels? cs = some values ↔ List.Forall₂ IsChannel (groups cs) values := by
  fun_induction channels? cs generalizing values with
  | case1 => cases values <;> simp [groups]
  | case2 => simp at heven
  | case3 high low rest ih =>
    have hrest : rest.length % 2 = 0 := by
      simp only [List.length_cons] at heven
      omega
    rw [groups, Option.bind_eq_some_iff]
    constructor
    · rintro ⟨value, hvalue, hmap⟩
      obtain ⟨others, hothers, rfl⟩ := Option.map_eq_some_iff.mp hmap
      exact .cons (channel?_eq_some_iff.mp hvalue) ((ih hrest).mp hothers)
    · intro h
      obtain ⟨value, others, hvalue, hothers, rfl⟩ := List.forall₂_cons_left_iff.mp h
      exact ⟨value, channel?_eq_some_iff.mpr hvalue,
        Option.map_eq_some_iff.mpr ⟨others, (ih hrest).mpr hothers, rfl⟩⟩

theorem exists_channels?_iff (heven : cs.length % 2 = 0) :
    (∃ values, channels? cs = some values) ↔ ∀ group ∈ groups cs, ∃ value, IsChannel group value := by
  simp only [channels?_eq_some_iff heven]
  generalize groups cs = gs
  induction gs with
  | nil => simp
  | cons group rest ih =>
    rw [List.forall_mem_cons, ← ih]
    constructor
    · rintro ⟨values, h⟩
      obtain ⟨value, others, hvalue, hothers, -⟩ := List.forall₂_cons_left_iff.mp h
      exact ⟨⟨value, hvalue⟩, others, hothers⟩
    · rintro ⟨⟨value, hvalue⟩, others, hothers⟩
      exact ⟨value :: others, .cons hvalue hothers⟩

theorem channels?_pair_append (value : UInt8) (rest : List Char) :
    channels? (pair value ++ rest) = (channels? rest).map (value :: ·) := by
  simp only [pair, List.cons_append, List.nil_append, channels?, channel?_pair, Option.bind_some]

end Hex

namespace Color

open Hex

variable {text : String} {digits : List Char} {color : Color} {e : ColorError}

def digitsOf (text : String) : List Char := text.toList.dropWhile (· == '#')

/-- Whether some characters are as many as a color needs, and all ASCII. -/
structure HasForm (digits : List Char) : Prop where
  ascii : ∀ c ∈ digits, c.toNat < 128
  length : digits.length = 6 ∨ digits.length = 8

/-- Whether the groups of some characters stand for the channels of a color, which is opaque if there
are only three of them. -/
inductive Shows : List Char → Color → Prop
  | three {digits : List Char} {r g b : UInt8} (hlength : digits.length = 6)
      (hgroups : List.Forall₂ IsChannel (groups digits) [r, g, b]) : Shows digits ⟨r, g, b, 255⟩
  | four {digits : List Char} {r g b a : UInt8} (hlength : digits.length = 8)
      (hgroups : List.Forall₂ IsChannel (groups digits) [r, g, b, a]) : Shows digits ⟨r, g, b, a⟩

theorem exists_digitsOf (text : String) : ∃ marks,
    text.toList = List.replicate marks '#' ++ digitsOf text ∧ (digitsOf text).head? ≠ some '#' := by
  refine ⟨(text.toList.takeWhile (· == '#')).length, ?_, ?_⟩
  · have hmarks : text.toList.takeWhile (· == '#') =
        List.replicate (text.toList.takeWhile (· == '#')).length '#' := by
      refine List.eq_replicate_iff.mpr ⟨rfl, fun c hc => ?_⟩
      simpa using List.all_eq_true.mp List.all_takeWhile c hc
    rw [← hmarks, digitsOf, List.takeWhile_append_dropWhile]
  · intro hhead
    have hstop := List.head?_dropWhile_not (· == '#') text.toList
    rw [show text.toList.dropWhile (· == '#') = digitsOf text from rfl, hhead] at hstop
    simp at hstop

theorem isAscii_iff : isAscii digits = true ↔ ∀ c ∈ digits, c.toNat < 128 := by
  simp [isAscii]

theorem ofHex_of_not_hasForm (h : ¬ HasForm (digitsOf text)) :
    ofHex text = .error (.format text) := by
  change (if !isAscii (digitsOf text) then _ else _) = _
  by_cases hascii : isAscii (digitsOf text) = true
  · have hlength : ¬ ((digitsOf text).length = 6 ∨ (digitsOf text).length = 8) :=
      fun hlength => h ⟨isAscii_iff.mp hascii, hlength⟩
    rw [hascii]
    exact if_neg hlength
  · rw [Bool.eq_false_iff.mpr hascii]
    rfl

theorem ofHex_of_hasForm (h : HasForm (digitsOf text)) :
    ofHex text =
      match channels? (digitsOf text) with
      | some [r, g, b] => .ok ⟨r, g, b, 255⟩
      | some [r, g, b, a] => .ok ⟨r, g, b, a⟩
      | _ => .error .digit := by
  change (if !isAscii (digitsOf text) then _ else _) = _
  rw [isAscii_iff.mpr h.ascii]
  exact if_pos h.length

theorem HasForm.even (h : HasForm digits) : digits.length % 2 = 0 := by
  have := h.length
  omega

/-- Characters of the right number stand for three or for four channels. -/
theorem HasForm.length_values (h : HasForm digits) {values : List UInt8}
    (hvalues : List.Forall₂ IsChannel (groups digits) values) :
    2 * values.length = digits.length := by
  have hgroups := hvalues.length_eq
  rw [length_groups] at hgroups
  have := h.length
  omega

/-- A text is read as a color exactly if it has the form of one and its groups stand for the
channels. -/
theorem ofHex_eq_ok_iff :
    ofHex text = .ok color ↔ HasForm (digitsOf text) ∧ Shows (digitsOf text) color := by
  constructor
  · intro h
    by_cases hform : HasForm (digitsOf text)
    · rw [ofHex_of_hasForm hform] at h
      refine ⟨hform, ?_⟩
      split at h
      · next r g b hread =>
        cases h
        have hgroups := (channels?_eq_some_iff hform.even).mp hread
        exact .three (hform.length_values hgroups).symm hgroups
      · next r g b a hread =>
        cases h
        have hgroups := (channels?_eq_some_iff hform.even).mp hread
        exact .four (hform.length_values hgroups).symm hgroups
      · cases h
    · rw [ofHex_of_not_hasForm hform] at h
      cases h
  · rintro ⟨hform, hshows⟩
    rw [ofHex_of_hasForm hform]
    cases hshows with
    | three _ hgroups => rw [(channels?_eq_some_iff hform.even).mpr hgroups]
    | four _ hgroups => rw [(channels?_eq_some_iff hform.even).mpr hgroups]

theorem exists_ofHex_eq_ok_iff :
    (∃ color, ofHex text = .ok color) ↔
      HasForm (digitsOf text) ∧ ∀ group ∈ groups (digitsOf text), ∃ value, IsChannel group value := by
  constructor
  · rintro ⟨color, h⟩
    obtain ⟨hform, hshows⟩ := ofHex_eq_ok_iff.mp h
    refine ⟨hform, (exists_channels?_iff hform.even).mp ?_⟩
    cases hshows with
    | three _ hgroups => exact ⟨_, (channels?_eq_some_iff hform.even).mpr hgroups⟩
    | four _ hgroups => exact ⟨_, (channels?_eq_some_iff hform.even).mpr hgroups⟩
  · rintro ⟨hform, hall⟩
    obtain ⟨values, hread⟩ := (exists_channels?_iff hform.even).mpr hall
    have hgroups := (channels?_eq_some_iff hform.even).mp hread
    have hlength := hform.length_values hgroups
    simp only [ofHex_eq_ok_iff]
    rcases hform.length with hsix | height
    · obtain ⟨r, g, b, rfl⟩ := List.length_eq_three.mp (by omega : values.length = 3)
      exact ⟨_, hform, .three hsix hgroups⟩
    · match values, hlength with
      | [r, g, b, a], _ => exact ⟨_, hform, .four height hgroups⟩
      | [], h | [_], h | [_, _], h | [_, _, _], h | _ :: _ :: _ :: _ :: _ :: _, h =>
        simp at h
        omega

/-- A text without the form of a color is refused for that, any other for a group of characters. -/
theorem cause_of_ofHex_eq_error (h : ofHex text = .error e) :
    (HasForm (digitsOf text) → e = .digit) ∧ (¬ HasForm (digitsOf text) → e = .format text) := by
  constructor
  · intro hform
    rw [ofHex_of_hasForm hform] at h
    split at h
    · cases h
    · cases h
    · cases h
      rfl
  · intro hform
    rw [ofHex_of_not_hasForm hform] at h
    cases h
    rfl

theorem digitsOf_toHex (color : Color) :
    digitsOf color.toHex = pair color.r ++ pair color.g ++ pair color.b ++
      if color.a = 255 then [] else pair color.a := by
  have hhead : upperDigit (color.r.toNat / 16) ≠ '#' := by
    have hdigits : ∀ d < 16, upperDigit d ≠ '#' := by decide
    have := color.r.toNat_lt
    exact hdigits _ (by omega)
  simp [digitsOf, toHex, pair, hhead]

theorem hasForm_toHex (color : Color) : HasForm (digitsOf color.toHex) := by
  have hascii : ∀ value : UInt8, ∀ c ∈ pair value, c.toNat < 128 := by
    have hdigits : ∀ d < 16, (upperDigit d).toNat < 128 := by decide
    intro value c hc
    have hlt := value.toNat_lt
    rcases List.mem_pair.mp hc with rfl | rfl
    · exact hdigits _ (by omega)
    · exact hdigits _ (by omega)
  rw [digitsOf_toHex]
  constructor
  · intro c hc
    simp only [List.mem_append] at hc
    rcases hc with ((hr | hg) | hb) | ha
    · exact hascii _ c hr
    · exact hascii _ c hg
    · exact hascii _ c hb
    · split at ha
      · cases ha
      · exact hascii _ c ha
  · split
    · exact Or.inl rfl
    · exact Or.inr rfl

/-- What is written for a color is read as that color. -/
theorem ofHex_toHex (color : Color) : ofHex color.toHex = .ok color := by
  obtain ⟨r, g, b, a⟩ := color
  rw [ofHex_of_hasForm (hasForm_toHex _), digitsOf_toHex]
  simp only [List.append_assoc, channels?_pair_append]
  by_cases ha : a = 255
  · rw [if_pos ha, ha]
    rfl
  · have hread := channels?_pair_append a []
    rw [List.append_nil] at hread
    rw [if_neg ha, hread]
    rfl

theorem toHex_inj {c d : Color} : c.toHex = d.toHex ↔ c = d := by
  constructor
  · intro h
    have hread := ofHex_toHex c
    rw [h, ofHex_toHex] at hread
    exact (Except.ok.inj hread).symm
  · rintro rfl
    rfl

/-- Exactly the texts with the form of a color whose groups all stand for channels are read, as the
color with these channels. A text without that form is refused by its name, any other for a digit.
The written form of a color is read as it, and so it tells apart what different texts are read as. -/
theorem ofHex_reads_written_forms :
    (∀ text, ∃ marks digits, text.toList = List.replicate marks '#' ++ digits ∧
      digits.head? ≠ some '#' ∧
      ((∃ color, ofHex text = .ok color) ↔
        HasForm digits ∧ ∀ group ∈ groups digits, ∃ value, IsChannel group value) ∧
      (∀ color, ofHex text = .ok color ↔ HasForm digits ∧ Shows digits color) ∧
      ∀ e, ofHex text = .error e →
        (HasForm digits → e.message = "invalid digit found in string") ∧
          (¬ HasForm digits → e.message = "Invalid color format: " ++ text)) ∧
      (∀ color : Color, ofHex color.toHex = .ok color) ∧
      (∀ text color, ofHex text = .ok color → ofHex color.toHex = ofHex text) ∧
      ∀ s t c d, ofHex s = .ok c → ofHex t = .ok d →
        (c.toHex = d.toHex ↔ ofHex s = ofHex t) := by
  refine ⟨fun text => ?_, ofHex_toHex, fun text color h => ?_, fun s t c d hc hd => ?_⟩
  · obtain ⟨marks, htext, hhead⟩ := exists_digitsOf text
    refine ⟨marks, digitsOf text, htext, hhead, exists_ofHex_eq_ok_iff, fun _ => ofHex_eq_ok_iff,
      fun e he => ?_⟩
    obtain ⟨hdigit, hformat⟩ := cause_of_ofHex_eq_error he
    refine ⟨fun hform => ?_, fun hform => ?_⟩
    · rw [hdigit hform]
      rfl
    · rw [hformat hform]
      rfl
  · rw [ofHex_toHex, h]
  · rw [hc, hd, toHex_inj, Except.ok.injEq]

/-- Marks may be repeated and a plus sign may stand for a zero. -/
example : Color.ofHex "##+aFF0b80" = .ok ⟨10, 255, 11, 128⟩ := by decide +kernel

end Color

end BlockShading
