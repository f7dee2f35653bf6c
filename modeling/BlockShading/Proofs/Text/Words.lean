import BlockShading.Text.Words
import Mathlib.Data.List.TakeWhile

/-!
# Parts of texts and what is left of them

A text is cut at a separator in one way only: parts without it, which joined with it give the text
back. What is left of a text when the characters with a property are removed from both ends is the
part between such characters that neither begins nor ends with one.
-/

namespace BlockShading.Text

theorem splitOn_ne_nil (separator : Char) (cs : List Char) : splitOn separator cs ≠ [] := by
  cases cs with
  | nil => simp [splitOn]
  | cons c rest =>
    unfold splitOn
    split
    · simp
    · split <;> simp

/-- The parts around a separator are those before it and those behind it. -/
theorem splitOn_append_cons (separator : Char) (xs ys : List Char) :
    splitOn separator (xs ++ separator :: ys) = splitOn separator xs ++ splitOn separator ys := by
  induction xs with
  | nil => simp [splitOn]
  | cons c rest ih =>
    rw [List.cons_append, splitOn, splitOn, ih]
    by_cases hc : c = separator
    · simp [hc]
    · obtain ⟨part, parts, hparts⟩ := List.exists_cons_of_ne_nil (splitOn_ne_nil separator rest)
      simp [hc, hparts]

theorem splitOn_of_not_mem {separator : Char} {cs : List Char} (h : separator ∉ cs) :
    splitOn separator cs = [cs] := by
  induction cs with
  | nil => rfl
  | cons c rest ih =>
    have hc : c ≠ separator := fun hc => h (hc ▸ List.mem_cons_self)
    have hrest : separator ∉ rest := fun hrest => h (List.mem_cons_of_mem c hrest)
    rw [splitOn, ih hrest, if_neg hc]

/-- Parts of a text that have no separator in them and stand with separators in between. -/
structure Parts (separator : Char) (cs : List Char) (parts : List (List Char)) : Prop where
  ne_nil : parts ≠ []
  joined : List.intercalate [separator] parts = cs
  pure : ∀ part ∈ parts, separator ∉ part

theorem parts_splitOn (separator : Char) (cs : List Char) :
    Parts separator cs (splitOn separator cs) := by
  induction cs with
  | nil => exact ⟨by simp [splitOn], rfl, by simp [splitOn]⟩
  | cons c rest ih =>
    obtain ⟨part, parts, hparts⟩ := List.exists_cons_of_ne_nil ih.ne_nil
    have hjoined := ih.joined
    have hpure := ih.pure
    rw [hparts] at hjoined hpure
    unfold splitOn
    split
    · next hc =>
      rw [hparts]
      refine ⟨by simp, ?_, List.forall_mem_cons.mpr ⟨List.not_mem_nil, hpure⟩⟩
      rw [List.intercalate_cons_cons, hjoined, hc]
      rfl
    · next hc =>
      rw [hparts]
      obtain ⟨hpart, hothers⟩ := List.forall_mem_cons.mp hpure
      refine ⟨by simp, ?_, List.forall_mem_cons.mpr ⟨?_, hothers⟩⟩
      · rw [← hjoined]
        cases parts with
        | nil => simp
        | cons next parts => simp [List.intercalate_cons_cons]
      · exact fun hmem => (List.mem_cons.mp hmem).elim (fun h => hc h.symm) hpart

/-- The parts of a text are those it is cut into. -/
theorem parts_iff {separator : Char} {cs : List Char} {parts : List (List Char)} :
    Parts separator cs parts ↔ splitOn separator cs = parts := by
  refine ⟨?_, fun h => h ▸ parts_splitOn separator cs⟩
  rintro ⟨hne, rfl, hpure⟩
  induction parts with
  | nil => exact absurd rfl hne
  | cons part parts ih =>
    obtain ⟨hpart, hothers⟩ := List.forall_mem_cons.mp hpure
    cases parts with
    | nil => simpa using splitOn_of_not_mem hpart
    | cons next parts =>
      rw [List.intercalate_cons_cons, List.append_assoc, List.singleton_append,
        splitOn_append_cons, splitOn_of_not_mem hpart, ih (by simp) hothers]
      rfl

variable {p : Char → Bool} {cs left right : List Char}

/-- A text neither begins nor ends with a character that has a property. -/
structure Trimmed (p : Char → Bool) (cs : List Char) : Prop where
  head : ∀ c ∈ cs.head?, p c = false
  last : ∀ c ∈ cs.getLast?, p c = false

theorem Trimmed.of_forall (h : ∀ c ∈ cs, p c = false) : Trimmed p cs :=
  ⟨fun c hc => h c (List.mem_of_mem_head? hc), fun c hc => h c (List.mem_of_mem_getLast? hc)⟩

theorem Trimmed.mono {q : Char → Bool} (h : Trimmed p cs) (hq : ∀ c, p c = false → q c = false) :
    Trimmed q cs :=
  ⟨fun c hc => hq c (h.head c hc), fun c hc => hq c (h.last c hc)⟩

theorem dropWhile_append_of_head (hleft : ∀ c ∈ left, p c = true)
    (hhead : ∀ c ∈ cs.head?, p c = false) : (left ++ cs).dropWhile p = cs := by
  rw [List.dropWhile_append_of_pos hleft]
  cases cs with
  | nil => rfl
  | cons c cs => rw [List.dropWhile_cons_of_neg (by simp [hhead c rfl])]

/-- Trimming leaves what is between. -/
theorem trimBoth_eq (hleft : ∀ c ∈ left, p c = true) (hright : ∀ c ∈ right, p c = true)
    (h : Trimmed p cs) : trimBoth p (left ++ (cs ++ right)) = cs := by
  cases cs with
  | nil =>
    have hall : (left ++ right ++ []).dropWhile p = [] :=
      dropWhile_append_of_head (List.forall_mem_append.mpr ⟨hleft, hright⟩) (by simp)
    rw [List.append_nil] at hall
    simp [trimBoth, hall]
  | cons c cs =>
    have hfront : (left ++ (c :: cs ++ right)).dropWhile p = c :: cs ++ right :=
      dropWhile_append_of_head hleft h.head
    have hlast : ∀ d ∈ (c :: cs).reverse.head?, p d = false := by
      rw [List.head?_reverse]
      exact h.last
    rw [trimBoth, hfront, List.reverse_append,
      dropWhile_append_of_head (by simpa using hright) hlast, List.reverse_reverse]

theorem trimBoth_eq_self (h : Trimmed p cs) : trimBoth p cs = cs := by
  have htrim := trimBoth_eq (List.forall_mem_nil _) (List.forall_mem_nil _) h
  rwa [List.nil_append, List.append_nil] at htrim

/-- What is left of a text without the characters with a property at its ends. -/
structure Trims (p : Char → Bool) (cs out : List Char) : Prop where
  between : ∃ left right, cs = left ++ (out ++ right) ∧ (∀ c ∈ left, p c = true) ∧
    ∀ c ∈ right, p c = true
  trimmed : Trimmed p out

theorem head_dropWhile (p : Char → Bool) (cs : List Char) :
    ∀ c ∈ (cs.dropWhile p).head?, p c = false := by
  intro c hc
  have hhead := List.head?_dropWhile_not p cs
  rwa [Option.mem_def.mp hc] at hhead

theorem trims_trimBoth (p : Char → Bool) (cs : List Char) : Trims p cs (trimBoth p cs) := by
  let rest := cs.dropWhile p
  let right := (rest.reverse.takeWhile p).reverse
  have hrest : rest = trimBoth p cs ++ right := by
    rw [trimBoth, ← List.reverse_append, List.takeWhile_append_dropWhile, List.reverse_reverse]
  refine ⟨⟨cs.takeWhile p, right, ?_, ?_, ?_⟩, ⟨fun c hc => ?_, fun c hc => ?_⟩⟩
  · rw [← hrest, List.takeWhile_append_dropWhile]
  · exact fun c hc => List.mem_takeWhile_imp hc
  · exact fun c hc => List.mem_takeWhile_imp (List.mem_reverse.mp hc)
  · refine head_dropWhile p cs c ?_
    change c ∈ rest.head?
    rw [hrest, List.head?_append, Option.mem_def.mp hc]
    rfl
  · rw [trimBoth, List.getLast?_reverse] at hc
    exact head_dropWhile p _ c hc

theorem trims_iff {out : List Char} : Trims p cs out ↔ trimBoth p cs = out := by
  refine ⟨?_, fun h => h ▸ trims_trimBoth p cs⟩
  rintro ⟨⟨left, right, rfl, hleft, hright⟩, htrimmed⟩
  exact trimBoth_eq hleft hright htrimmed

theorem exists_dropWhile_eq {c : Char} (hc : p c = false) (xs ys : List Char) :
    ∃ front, (xs ++ c :: ys).dropWhile p = front ++ c :: ys := by
  induction xs with
  | nil => exact ⟨[], by simp [hc]⟩
  | cons x xs ih =>
    by_cases hx : p x = true
    · rwa [List.cons_append, List.dropWhile_cons_of_pos hx]
    · exact ⟨x :: xs, by rw [List.cons_append, List.dropWhile_cons_of_neg hx]⟩

/-- A character that stays keeps what is before it. -/
theorem exists_trimBoth_eq {c : Char} (hleft : ∀ c ∈ left, p c = true)
    (hhead : ∀ d ∈ (cs ++ [c]).head?, p d = false) (hc : p c = false) :
    ∃ tail, trimBoth p (left ++ (cs ++ c :: right)) = cs ++ c :: tail := by
  have hfront : (left ++ (cs ++ c :: right)).dropWhile p = cs ++ c :: right := by
    refine dropWhile_append_of_head hleft fun d hd => hhead d ?_
    cases cs with
    | nil => exact hd
    | cons x cs => exact hd
  obtain ⟨front, hback⟩ := exists_dropWhile_eq hc right.reverse cs.reverse
  refine ⟨front.reverse, ?_⟩
  rw [trimBoth, hfront, List.reverse_append, List.reverse_cons, List.append_assoc]
  simp [hback]

theorem eq_append_of_after? {front rest : List Char} (h : after? front cs = some rest) :
    cs = front ++ rest := by
  induction front generalizing cs with
  | nil =>
    cases h
    rfl
  | cons c front ih =>
    cases cs with
    | nil => cases h
    | cons d cs =>
      unfold after? at h
      split at h
      · next hcd => rw [hcd, List.cons_append, ← ih h]
      · cases h

theorem after?_append (front rest : List Char) : after? front (front ++ rest) = some rest := by
  induction front with
  | nil => rfl
  | cons c front ih => simpa [after?] using ih

end BlockShading.Text
