import BlockShading.Yaml.Scalar
import Mathlib.Tactic.MkIffOfInductiveProp

/-!
# Scalars on one line

What the reader makes of a scalar that stands on one line: the words of a plain text, or the text
between quotes if nothing in it is written by an escape. Behind a plain text it goes on over blank
lines, to see whether the text continues on a line that is further in.
-/

namespace BlockShading.Yaml

/-- A cursor stands in front of a text at a column. -/
structure Cursor.At (cur : Cursor) (text : List Char) (place : Nat) : Prop where
  rest : cur.rest = text
  column : cur.column = place
  bound : text.length < cur.bound

namespace Cursor

variable {cur : Cursor} {c : Char} {cs rest taken : List Char} {column : Nat} {p : Char → Bool}

namespace At

theorem next? (h : cur.At (c :: rest) column) : cur.next? = some c := by
  rw [Cursor.next?, h.rest, List.head?_cons]

theorem next?_nil (h : cur.At [] column) : cur.next? = none := by
  rw [Cursor.next?, h.rest, List.head?_nil]

theorem isAt (h : cur.At (c :: rest) column) (d : Char) : cur.isAt d = (c == d) := by
  rw [Cursor.isAt, h.next?, Option.some_beq_some]

theorem atSpace (h : cur.At (c :: rest) column) : cur.atSpace = isSpace c := by
  rw [Cursor.atSpace, h.next?, Option.any_some]

theorem atBreak (h : cur.At (c :: rest) column) : cur.atBreak = isBreak c := by
  rw [Cursor.atBreak, h.next?, Option.any_some]

theorem atDocumentMarker_of_pos (h : cur.At cs column) (hcolumn : 0 < column) :
    cur.atDocumentMarker = false := by
  have hne : (column == 0) = false := by simp; omega
  simp [Cursor.atDocumentMarker, Cursor.atMarker, h.column, hne]

/-- White space ahead is what the text has there. -/
theorem gapAhead_one (h : cur.At (c :: rest) column) :
    cur.gapAhead 1 = (rest.head?.all fun d => isSpace d || isBreak d) := by
  cases rest <;> simp [Cursor.gapAhead, Cursor.ahead?, h.rest]

theorem skip (h : cur.At (c :: rest) column) : cur.skip.At rest (column + 1) := by
  have hbound := h.bound
  simp only [List.length_cons] at hbound
  unfold Cursor.skip
  rw [h.rest]
  exact ⟨rfl, by rw [h.column], by dsimp only; omega⟩

theorem skipBy (h : cur.At (taken ++ rest) column) :
    (cur.skipBy taken.length).At rest (column + taken.length) := by
  have hbound := h.bound
  simp only [List.length_append] at hbound
  exact ⟨by simp [Cursor.skipBy, h.rest], by simp [Cursor.skipBy, h.column], by
    simp only [Cursor.skipBy]
    omega⟩

theorem skipBy_one (h : cur.At (c :: rest) column) : (cur.skipBy 1).At rest (column + 1) :=
  skipBy (show cur.At ([c] ++ rest) column from h)

theorem skipWhile (h : cur.At (taken ++ rest) column) (htaken : ∀ c ∈ taken, p c = true)
    (hrest : ∀ c ∈ rest.head?, p c = false) :
    (cur.skipWhile p).At rest (column + taken.length) := by
  have hsplit : (taken ++ rest).takeWhile p = taken := by
    rw [List.takeWhile_append_of_pos htaken]
    cases rest with
    | nil => simp
    | cons c rest => simp [hrest c (by simp)]
  have hskip : cur.skipWhile p = cur.skipBy taken.length := by
    simp only [Cursor.skipWhile, Cursor.takeWhile, h.rest, hsplit]
  rw [hskip]
  exact h.skipBy

theorem lineBreak (h : cur.At ('\n' :: rest) column) :
    cur.lineBreak.1 = ['\n'] ∧ cur.lineBreak.2.At rest 0 := by
  have hbound := h.bound
  simp only [List.length_cons] at hbound
  have hbreak : cur.lineBreak = (['\n'], cur.newLine rest 1) := by
    unfold Cursor.lineBreak
    rw [h.rest]
    rfl
  rw [hbreak]
  exact ⟨rfl, rfl, rfl, by simp only [newLine]; omega⟩

end At

end Cursor

/-- A word of a plain text: no white space in it, no colon at its end, and no beginning of a
comment. -/
@[mk_iff]
structure IsPlainWord (word : List Char) : Prop where
  ne_nil : word ≠ []
  solid : ∀ c ∈ word, isSpace c = false ∧ isBreak c = false
  no_comment : word.head? ≠ some '#'
  no_colon : word.getLast? ≠ some ':'

instance : DecidablePred IsPlainWord := fun word =>
  decidable_of_iff (word ≠ [] ∧ word.all (fun c => !isSpace c && !isBreak c) = true ∧
    word.head? ≠ some '#' ∧ word.getLast? ≠ some ':') (by simp [isPlainWord_iff])

/-- A word ends in front of white space, at the end of the text, or at a colon that white space
follows. -/
inductive WordEnds : List Char → Prop
  | text : WordEnds []
  | space {c : Char} {cs : List Char} (h : (isSpace c || isBreak c) = true) : WordEnds (c :: cs)
  | colon {c : Char} {cs : List Char} (h : (isSpace c || isBreak c) = true) :
    WordEnds (':' :: c :: cs)

variable {cur cur' : Cursor} {word tail text : List Char} {place indent fuel : Nat}

theorem plainWord_eq {result : List Char} (h : cur.At (word ++ tail) place)
    (hsolid : ∀ c ∈ word, isSpace c = false ∧ isBreak c = false)
    (hcolon : word.getLast? ≠ some ':') (hends : WordEnds tail)
    (hread : plainWord false fuel cur = some (result, cur')) :
    result = word ∧ cur'.At tail (place + word.length) := by
  induction word generalizing cur place fuel result with
  | nil =>
    cases fuel with
    | zero => cases hread
    | succ fuel =>
      unfold plainWord at hread
      cases hends with
      | text =>
        rw [h.next?_nil] at hread
        cases hread
        exact ⟨rfl, h⟩
      | space hc =>
        rw [h.next?] at hread
        simp only [hc, ↓reduceIte] at hread
        cases hread
        exact ⟨rfl, h⟩
      | colon hc =>
        have hgap : cur.gapAhead 1 = true := by rw [h.gapAhead_one]; simpa using hc
        rw [h.next?] at hread
        simp [hgap, isSpace, isBreak] at hread
        obtain ⟨rfl, rfl⟩ := hread
        exact ⟨rfl, h⟩
  | cons c word ih =>
    obtain ⟨⟨hspace, hbreak⟩, hword⟩ := List.forall_mem_cons.mp hsolid
    cases fuel with
    | zero => cases hread
    | succ fuel =>
      have hgap : (c == ':' && cur.gapAhead 1) = false := by
        rw [Bool.and_eq_false_imp]
        intro hc
        cases word with
        | nil => simp_all
        | cons d word =>
          rw [h.gapAhead_one]
          obtain ⟨hd, -⟩ := List.forall_mem_cons.mp hword
          simp [hd.1, hd.2]
      unfold plainWord at hread
      rw [h.next?] at hread
      simp only [hspace, hbreak, hgap, Bool.or_self, Bool.false_and, Bool.false_eq_true,
        ↓reduceIte] at hread
      obtain ⟨⟨others, after⟩, hothers, heq⟩ := Option.map_eq_some_iff.mp hread
      cases heq
      have hlast : word.getLast? ≠ some ':' := by
        cases word with
        | nil => simp
        | cons d word => rwa [List.getLast?_cons_cons] at hcolon
      obtain ⟨hsame, hat⟩ := ih h.skip hword hlast hothers
      refine ⟨by rw [← hsame], ?_⟩
      rwa [List.length_cons, Nat.add_comm word.length, ← Nat.add_assoc]

/-- Something begins with a character: it is neither white space nor the beginning of a comment, nor
a byte order mark, which is passed over at the beginning of a line. -/
def Begins (c : Char) : Prop :=
  isSpace c = false ∧ isBreak c = false ∧ c ≠ '#' ∧ c ≠ '\ufeff'

instance : DecidablePred Begins := fun c =>
  inferInstanceAs (Decidable (isSpace c = false ∧ isBreak c = false ∧ c ≠ '#' ∧ c ≠ '\ufeff'))

/-- Passing blanks, empty lines and comments one comes from a text at a column to the next thing in
it, or to its end. -/
inductive Leads : Nat → List Char → Nat → List Char → Prop
  | here {k : Nat} {cs : List Char} (h : ∀ c ∈ cs.head?, Begins c) : Leads k cs k cs
  | blank {j k : Nat} {cs rest : List Char} (h : Leads (j + 1) cs k rest) :
    Leads j (' ' :: cs) k rest
  | newline {j k : Nat} {cs rest : List Char} (h : Leads 0 cs k rest) :
    Leads j ('\n' :: cs) k rest
  | comment {j k : Nat} (text : List Char) {cs rest : List Char}
    (htext : ∀ c ∈ text, isBreak c = false) (h : Leads 0 cs k rest) :
    Leads j ('#' :: text ++ '\n' :: cs) k rest

/-- A gap in which a line has ended goes up to the next thing or to a comment before it. -/
theorem gap_read_leads {gap gap' : Gap} {j k : Nat} {cs rest : List Char}
    (hleads : Leads j cs k rest) (hat : cur.At cs j) (hbroken : gap.broken = true)
    (hread : Gap.read indent fuel gap cur = some (gap', cur')) :
    gap'.broken = true ∧ ∃ cs' j', cur'.At cs' j' ∧ Leads j' cs' k rest ∧
      (cs'.head? = some '#' ∨ (cs' = rest ∧ j' = k)) := by
  induction hleads generalizing cur gap fuel with
  | @here k cs h =>
    cases fuel with
    | zero => cases hread
    | succ fuel =>
      have hstop : Gap.read indent (fuel + 1) gap cur = some (gap, cur) := by
        cases cs with
        | nil => simp [Gap.read, hat.next?_nil]
        | cons c cs =>
          obtain ⟨hspace, hbreak, -⟩ := h c rfl
          simp [Gap.read, hat.next?, hspace, hbreak]
      rw [hstop] at hread
      cases hread
      exact ⟨hbroken, cs, k, hat, .here h, Or.inr ⟨rfl, rfl⟩⟩
  | blank h ih =>
    cases fuel with
    | zero => cases hread
    | succ fuel =>
      simp [Gap.read, hat.next?, hbroken, isSpace] at hread
      exact ih hat.skip hbroken hread
  | newline h ih =>
    cases fuel with
    | zero => cases hread
    | succ fuel =>
      simp [Gap.read, hat.next?, hbroken, isSpace, isBreak] at hread
      exact ih hat.lineBreak.2 rfl hread
  | @comment j k text cs rest htext h ih =>
    cases fuel with
    | zero => cases hread
    | succ fuel =>
      have hat' : cur.At ('#' :: (text ++ '\n' :: cs)) j := hat
      simp [Gap.read, hat'.next?, isSpace, isBreak] at hread
      obtain ⟨rfl, rfl⟩ := hread
      exact ⟨hbroken, _, _, hat, .comment text htext h, Or.inl rfl⟩

/-- A gap within a line is its blanks. -/
theorem gap_read_blanks {gap gap' : Gap} {blanks rest : List Char} {c : Char}
    (hat : cur.At (blanks ++ c :: rest) place) (hblanks : ∀ b ∈ blanks, isSpace b = true)
    (hc : isSpace c = false ∧ isBreak c = false) (hgap : gap.broken = false)
    (hread : Gap.read indent fuel gap cur = some (gap', cur')) :
    gap'.broken = false ∧ gap'.blanks = blanks.reverse ++ gap.blanks ∧
      cur'.At (c :: rest) (place + blanks.length) := by
  induction blanks generalizing cur gap fuel place with
  | nil =>
    cases fuel with
    | zero => cases hread
    | succ fuel =>
      rw [List.nil_append] at hat
      simp [Gap.read, hat.next?, hc.1, hc.2] at hread
      obtain ⟨rfl, rfl⟩ := hread
      exact ⟨hgap, rfl, hat⟩
  | cons b blanks ih =>
    obtain ⟨hb, hothers⟩ := List.forall_mem_cons.mp hblanks
    cases fuel with
    | zero => cases hread
    | succ fuel =>
      rw [List.cons_append] at hat
      simp only [Gap.read, hat.next?, hb, hgap, ↓reduceIte, Bool.false_eq_true] at hread
      obtain ⟨hbroken, hread, hat'⟩ := ih hat.skip hothers rfl hread
      refine ⟨hbroken, by simpa using hread, ?_⟩
      rwa [List.length_cons, Nat.add_comm blanks.length, ← Nat.add_assoc]

variable {acc result cs rest first : List Char} {more : List (List Char)} {gap : Gap}
  {broken : Bool} {j k : Nat}

theorem plainRest_of_stop (hat : cur.At cs j) (hstop : cs.head? = some '#' ∨ cs = [])
    (hread : plainRest false indent fuel acc gap cur = some (result, broken, cur')) :
    result = acc ∧ broken = gap.broken ∧ cur' = cur := by
  cases fuel with
  | zero => cases hread
  | succ fuel =>
    unfold plainRest at hread
    rcases hstop with hcomment | rfl
    · have hnext : cur.isAt '#' = true := by simp [Cursor.isAt, Cursor.next?, hat.rest, hcomment]
      simp only [hnext, Bool.or_true, ↓reduceIte] at hread
      cases hread
      exact ⟨rfl, rfl, rfl⟩
    · have hnone := hat.next?_nil
      have hmarker : cur.atDocumentMarker = false := by
        simp [Cursor.atDocumentMarker, Cursor.atMarker, hat.rest]
      simp only [hmarker, Cursor.isAt, hnone, Bool.false_or] at hread
      cases hbound : cur.bound with
      | zero => simp [hbound, plainWord] at hread
      | succ bound =>
        simp [hbound, plainWord, hnone, Cursor.atSpace, Cursor.atBreak] at hread
        obtain ⟨rfl, rfl, rfl⟩ := hread
        exact ⟨rfl, rfl, rfl⟩

theorem IsPlainWord.isAt_comment (hword : IsPlainWord word) (hat : cur.At (word ++ tail) place) :
    cur.isAt '#' = false := by
  obtain ⟨c, cs, rfl⟩ := List.exists_cons_of_ne_nil hword.ne_nil
  have hcomment := hword.no_comment
  simpa [Cursor.isAt, Cursor.next?, hat.rest] using hcomment

/-- One word of a plain text, and the white space behind it. -/
theorem plainRest_word {c : Char} (hat : cur.At (first ++ c :: cs) place)
    (hfirst : IsPlainWord first) (hc : (isSpace c || isBreak c) = true) (hplace : 0 < place)
    (hgap : gap.broken = false)
    (hread : plainRest false indent (fuel + 1) acc gap cur = some (result, broken, cur')) :
    ∃ after gap' cur'', after.At (c :: cs) (place + first.length) ∧
      Gap.read indent after.bound Gap.none after = some (gap', cur'') ∧
      (if cur''.column < indent then
        some ((gap.blanks.reverse ++ first).reverse ++ acc, gap'.broken, cur'')
      else plainRest false indent fuel ((gap.blanks.reverse ++ first).reverse ++ acc) gap' cur'') =
        some (result, broken, cur') := by
  unfold plainRest at hread
  simp only [hat.atDocumentMarker_of_pos hplace, hfirst.isAt_comment hat, Bool.or_self,
    Bool.false_eq_true, ↓reduceIte] at hread
  obtain ⟨⟨word, after⟩, hword, hread⟩ := Option.bind_eq_some_iff.mp hread
  obtain ⟨rfl, hafter⟩ := plainWord_eq hat hfirst.solid hfirst.no_colon (.space hc) hword
  have hnonempty : word.isEmpty = false := by simpa using hfirst.ne_nil
  have hgapText : gap.text = gap.blanks.reverse := by simp [Gap.text, hgap]
  simp only [hnonempty, Bool.false_eq_true, ↓reduceIte, hafter.atSpace, hafter.atBreak, hc,
    Bool.not_false, Bool.true_and, decide_eq_true_eq, hgapText] at hread
  obtain ⟨⟨gap', cur''⟩, hgap', hread⟩ := Option.bind_eq_some_iff.mp hread
  exact ⟨after, gap', cur'', hafter, hgap', hread⟩

def blankBefore (words : List (List Char)) : List Char := words.flatMap fun word => ' ' :: word

@[simp] theorem blankBefore_nil : blankBefore [] = [] := rfl

@[simp] theorem blankBefore_cons (word : List Char) (words : List (List Char)) :
    blankBefore (word :: words) = ' ' :: (word ++ blankBefore words) := rfl

/-- A plain text is read word by word up to the end of its line, and is not continued if what comes
next is not further in. -/
theorem plainRest_eq (hat : cur.At (first ++ blankBefore more ++ '\n' :: cs) place)
    (hfirst : IsPlainWord first) (hmore : ∀ word ∈ more, IsPlainWord word)
    (hplace : 0 < place) (hindent : indent ≤ place) (hgap : gap.broken = false)
    (hleads : Leads 0 cs k rest) (hk : k < indent ∨ rest = [])
    (hread : plainRest false indent fuel acc gap cur = some (result, broken, cur')) :
    result = (gap.blanks.reverse ++ first ++ blankBefore more).reverse ++ acc ∧ broken = true ∧
      ∃ cs' j', cur'.At cs' j' ∧ Leads j' cs' k rest := by
  cases fuel with
  | zero => cases hread
  | succ fuel =>
  induction more generalizing first cur gap acc fuel place with
  | nil =>
    simp only [blankBefore_nil, List.append_nil] at hat ⊢
    obtain ⟨after, gap', cur'', hafter, hgap', hread⟩ :=
      plainRest_word hat hfirst (by decide) hplace hgap hread
    have hbroken : gap'.broken = true ∧ ∃ cs' j', cur''.At cs' j' ∧ Leads j' cs' k rest ∧
        (cs'.head? = some '#' ∨ (cs' = rest ∧ j' = k)) := by
      cases hbound : after.bound with
      | zero => simp [hbound, Gap.read] at hgap'
      | succ bound =>
        simp [hbound, Gap.read, hafter.next?, isSpace, isBreak, Gap.none] at hgap'
        exact gap_read_leads hleads hafter.lineBreak.2 rfl hgap'
    obtain ⟨hbroken, cs', j', hat', hleads', hstop⟩ := hbroken
    split at hread
    · cases hread
      exact ⟨rfl, hbroken, cs', j', hat', hleads'⟩
    · next hcolumn =>
      rw [hat'.column] at hcolumn
      have hstop : cs'.head? = some '#' ∨ cs' = [] := by
        refine hstop.imp_right fun ⟨hrest, hj⟩ => ?_
        rw [hrest]
        exact hk.resolve_left (hj ▸ hcolumn)
      obtain ⟨rfl, rfl, rfl⟩ := plainRest_of_stop hat' hstop hread
      exact ⟨rfl, hbroken, cs', j', hat', hleads'⟩
  | cons word more ih =>
    obtain ⟨hword, hothers⟩ := List.forall_mem_cons.mp hmore
    simp only [blankBefore_cons, List.append_assoc, List.cons_append] at hat
    obtain ⟨after, gap', cur'', hafter, hgap', hread⟩ :=
      plainRest_word hat hfirst (by decide) hplace hgap hread
    obtain ⟨d, ds, rfl⟩ := List.exists_cons_of_ne_nil hword.ne_nil
    obtain ⟨hgap', hblanks, hcur''⟩ := gap_read_blanks
      (show after.At ([' '] ++ d :: _) _ from hafter) (by simp [isSpace])
      (hword.solid d List.mem_cons_self) rfl hgap'
    have hcolumn : ¬ cur''.column < indent := by rw [hcur''.column]; omega
    rw [if_neg hcolumn] at hread
    cases fuel with
    | zero => cases hread
    | succ fuel =>
      obtain ⟨hresult, hbroken, hcur'⟩ := ih (by simpa using hcur'') hword hothers
        (by omega) (by omega) hgap' fuel hread
      refine ⟨?_, hbroken, hcur'⟩
      rw [hresult, hblanks]
      simp [Gap.none]

theorem plainScalar_eq (hat : cur.At (first ++ blankBefore more ++ '\n' :: cs) place)
    (hfirst : IsPlainWord first) (hmore : ∀ word ∈ more, IsPlainWord word)
    (hplace : 0 < place) (hindent : indent ≤ place) (hleads : Leads 0 cs k rest)
    (hk : k < indent ∨ rest = [])
    (hread : plainScalar false indent cur = some (result, broken, cur')) :
    result = first ++ blankBefore more ∧ broken = true ∧
      ∃ cs' j', cur'.At cs' j' ∧ Leads j' cs' k rest := by
  obtain ⟨⟨read, after⟩, hread, heq⟩ := Option.map_eq_some_iff.mp hread
  cases heq
  obtain ⟨rfl, hbroken, hcur'⟩ :=
    plainRest_eq hat hfirst hmore hplace hindent rfl hleads hk hread
  exact ⟨by simp [Gap.none], hbroken, hcur'⟩

/-- A word in front of a colon is read alone. -/
theorem plainScalar_of_colon {c : Char} (hat : cur.At (word ++ ':' :: c :: cs) place)
    (hword : IsPlainWord word) (hmarker : cur.atDocumentMarker = false)
    (hc : (isSpace c || isBreak c) = true)
    (hread : plainScalar false indent cur = some (result, broken, cur')) :
    result = word ∧ broken = false ∧ cur'.At (':' :: c :: cs) (place + word.length) := by
  obtain ⟨⟨read, after⟩, hread, heq⟩ := Option.map_eq_some_iff.mp hread
  cases heq
  have hbound := hat.bound
  obtain ⟨fuel, hfuel⟩ := Nat.exists_eq_succ_of_ne_zero (Nat.ne_zero_of_lt hbound)
  rw [hfuel, Nat.succ_eq_add_one] at hread
  unfold plainRest at hread
  simp only [hmarker, hword.isAt_comment hat, Bool.or_self, Bool.false_eq_true, ↓reduceIte] at hread
  obtain ⟨⟨read', cur''⟩, hread', hread⟩ := Option.bind_eq_some_iff.mp hread
  obtain ⟨rfl, hcur''⟩ := plainWord_eq hat hword.solid hword.no_colon (.colon hc) hread'
  have hnonempty : read'.isEmpty = false := by simpa using hword.ne_nil
  have hspace : cur''.atSpace = false := hcur''.atSpace
  have hbreak : cur''.atBreak = false := hcur''.atBreak
  simp only [hnonempty, Bool.false_eq_true, ↓reduceIte, hspace, hbreak, Bool.or_self] at hread
  cases hread
  exact ⟨by simp [Gap.text, Gap.none], rfl, hcur''⟩

def quoteMark (single : Bool) : Char := if single then '\x27' else '\x22'

theorem quoteMark_solid (single : Bool) :
    isSpace (quoteMark single) = false ∧ isBreak (quoteMark single) = false := by
  cases single <;> decide

/-- A text that stands between quotes as it is: it has neither the quote nor a line break in it, and
between double quotes no escape. -/
@[mk_iff]
structure IsQuotable (single : Bool) (text : List Char) : Prop where
  no_break : ∀ c ∈ text, isBreak c = false
  no_quote : ∀ c ∈ text, c ≠ quoteMark single
  no_escape : single = false → ∀ c ∈ text, c ≠ '\x5c'

instance (single : Bool) : DecidablePred (IsQuotable single) := fun text =>
  decidable_of_iff (text.all (fun c => !isBreak c) = true ∧
    text.all (fun c => c != quoteMark single) = true ∧
    (single = false → text.all (fun c => c != '\x5c') = true)) (by simp [isQuotable_iff])

variable {single joined : Bool} {content : List Char}

theorem IsQuotable.mono (h : IsQuotable single content) (hword : ∀ c ∈ word, c ∈ content) :
    IsQuotable single word :=
  ⟨fun c hc => h.no_break c (hword c hc), fun c hc => h.no_quote c (hword c hc),
    fun hsingle c hc => h.no_escape hsingle c (hword c hc)⟩

/-- A blank ends a word. -/
theorem quotedWord_of_space {c : Char} (hat : cur.At (c :: tail) place) (hc : isSpace c = true)
    (hread : quotedWord single fuel cur = some (result, joined, cur')) :
    result = [] ∧ joined = false ∧ cur' = cur := by
  cases fuel with
  | zero => cases hread
  | succ fuel =>
    simp only [quotedWord, hat.next?, hc, Bool.true_or, ↓reduceIte] at hread
    cases hread
    exact ⟨rfl, rfl, rfl⟩

/-- The quote ends a word, unless it is written twice between single quotes. -/
theorem quotedWord_of_quote (hat : cur.At (quoteMark single :: tail) place)
    (htail : single = true → tail.head? ≠ some '\x27')
    (hread : quotedWord single fuel cur = some (result, joined, cur')) :
    result = [] ∧ joined = false ∧ cur' = cur := by
  have hahead : cur.ahead? 1 = tail.head? := by
    rw [Cursor.ahead?, hat.rest, List.getElem?_cons_succ, List.head?_eq_getElem?]
  have htwice : (single && quoteMark single == '\x27' && cur.ahead? 1 == some '\x27') = false := by
    cases single with
    | false => rfl
    | true => simpa [quoteMark, hahead] using htail rfl
  cases fuel with
  | zero => cases hread
  | succ fuel =>
    simp only [quotedWord, hat.next?, (quoteMark_solid single).1, (quoteMark_solid single).2,
      Bool.or_self, Bool.false_eq_true, ↓reduceIte, htwice] at hread
    simp only [quoteMark, BEq.rfl, ↓reduceIte] at hread
    cases hread
    exact ⟨rfl, rfl, rfl⟩

/-- Any other character that stands for itself is part of the word. -/
theorem quotedWord_cons {c : Char} (hat : cur.At (c :: tail) place) (hc : IsQuotable single [c])
    (hsolid : isSpace c = false) :
    quotedWord single (fuel + 1) cur =
      (quotedWord single fuel cur.skip).map fun (word, after) => (c :: word, after) := by
  have hbreak : isBreak c = false := hc.no_break c List.mem_cons_self
  have hquote : c ≠ quoteMark single := hc.no_quote c List.mem_cons_self
  have hescape : (!single && c == '\x5c') = false := by
    cases single with
    | false => simpa using hc.no_escape rfl c List.mem_cons_self
    | true => rfl
  have htwice : (single && c == '\x27' && cur.ahead? 1 == some '\x27') = false := by
    cases single with
    | false => rfl
    | true => simp_all [quoteMark]
  have hmark : (c == if single then '\x27' else '\x22') = false := beq_eq_false_iff_ne.mpr hquote
  simp only [quotedWord, hat.next?, hsolid, hbreak, Bool.or_self, Bool.false_eq_true, ↓reduceIte,
    htwice, hmark, hescape]

theorem quotedWord_eq {c : Char} (hat : cur.At (word ++ c :: tail) place)
    (hword : IsQuotable single word) (hsolid : ∀ d ∈ word, isSpace d = false)
    (hc : isSpace c = true ∨ c = quoteMark single ∧ (single = true → tail.head? ≠ some '\x27'))
    (hread : quotedWord single fuel cur = some (result, joined, cur')) :
    result = word ∧ joined = false ∧ cur'.At (c :: tail) (place + word.length) := by
  induction word generalizing cur place fuel result with
  | nil =>
    rcases hc with hspace | ⟨rfl, htail⟩
    · obtain ⟨rfl, rfl, rfl⟩ := quotedWord_of_space hat hspace hread
      exact ⟨rfl, rfl, hat⟩
    · obtain ⟨rfl, rfl, rfl⟩ := quotedWord_of_quote hat htail hread
      exact ⟨rfl, rfl, hat⟩
  | cons d word ih =>
    cases fuel with
    | zero => cases hread
    | succ fuel =>
      rw [quotedWord_cons hat (hword.mono (by simp)) (hsolid d List.mem_cons_self)] at hread
      obtain ⟨⟨others, after⟩, hothers, heq⟩ := Option.map_eq_some_iff.mp hread
      cases heq
      obtain ⟨rfl, rfl, hat'⟩ := ih hat.skip (hword.mono fun c => List.mem_cons_of_mem _)
        (fun c hc => hsolid c (List.mem_cons_of_mem _ hc)) hothers
      refine ⟨rfl, rfl, ?_⟩
      rwa [List.length_cons, Nat.add_comm others.length, ← Nat.add_assoc]

/-- A text begins with a word, and blanks behind it unless that is all. -/
theorem exists_word_blanks (text : List Char) : ∃ word blanks rest,
    text = word ++ (blanks ++ rest) ∧ (∀ c ∈ word, isSpace c = false) ∧
      (∀ c ∈ blanks, isSpace c = true) ∧ (∀ c ∈ rest.head?, isSpace c = false) ∧
      (blanks = [] → rest = []) := by
  refine ⟨text.takeWhile (!isSpace ·), (text.dropWhile (!isSpace ·)).takeWhile isSpace,
    (text.dropWhile (!isSpace ·)).dropWhile isSpace, by simp, ?_, ?_, ?_, ?_⟩
  · intro c hc
    simpa using List.all_eq_true.mp List.all_takeWhile c hc
  · exact List.all_eq_true.mp List.all_takeWhile
  · intro c hc
    have hhead := List.head?_dropWhile_not isSpace (text.dropWhile (!isSpace ·))
    rw [hc] at hhead
    simpa using hhead
  · intro hblanks
    have hhead := List.head?_dropWhile_not (!isSpace ·) text
    cases hrest : text.dropWhile (!isSpace ·) with
    | nil => rfl
    | cons c rest =>
      rw [hrest] at hhead hblanks
      simp_all

/-- A text that stands between quotes as it is is read up to the closing quote. -/
theorem quotedRest_eq (hat : cur.At (content ++ quoteMark single :: tail) place)
    (hcontent : IsQuotable single content) (htail : single = true → tail.head? ≠ some '\x27')
    (hplace : 0 < place) (hread : quotedRest single fuel acc cur = some (result, cur')) :
    result = content.reverse ++ acc ∧ ∃ place', cur'.At tail place' := by
  induction fuel generalizing content cur acc place with
  | zero => cases hread
  | succ fuel ih =>
    have hnonempty : cur.rest.isEmpty = false := by simp [hat.rest]
    simp only [quotedRest, hat.atDocumentMarker_of_pos hplace, hnonempty, Bool.or_self,
      Bool.false_eq_true, ↓reduceIte] at hread
    obtain ⟨⟨first, joined, after⟩, hfirst, hread⟩ := Option.bind_eq_some_iff.mp hread
    obtain ⟨word, blanks, rest, rfl, hword, hblanks, hrest, hnil⟩ := exists_word_blanks content
    have hquotable : IsQuotable single word := hcontent.mono fun c => List.mem_append_left _
    cases blanks with
    | nil =>
      rw [hnil rfl] at hat ⊢
      simp only [List.append_nil] at hat ⊢
      obtain ⟨rfl, rfl, hafter⟩ := quotedWord_eq hat hquotable hword (Or.inr ⟨rfl, htail⟩) hfirst
      have hclosed : after.isAt (if single then '\x27' else '\x22') = true :=
        (hafter.isAt _).trans BEq.rfl
      simp only [hclosed, ↓reduceIte, Option.some.injEq, Prod.mk.injEq] at hread
      obtain ⟨rfl, rfl⟩ := hread
      exact ⟨rfl, _, hafter.skip⟩
    | cons b blanks =>
      obtain ⟨hb, -⟩ := List.forall_mem_cons.mp hblanks
      simp only [List.append_assoc, List.cons_append] at hat
      obtain ⟨rfl, rfl, hafter⟩ := quotedWord_eq hat hquotable hword (Or.inl hb) hfirst
      have hopen : after.isAt (if single then '\x27' else '\x22') = false := by
        rw [hafter.isAt]
        refine beq_eq_false_iff_ne.mpr fun heq => ?_
        have hmark := (quoteMark_solid single).1
        rw [show quoteMark single = b from heq.symm, hb] at hmark
        cases hmark
      simp only [hopen, Bool.false_eq_true, ↓reduceIte] at hread
      obtain ⟨⟨gap, next⟩, hgap, hread⟩ := Option.bind_eq_some_iff.mp hread
      -- what follows the blanks is the rest of the text or the closing quote
      obtain ⟨c, cs, hcs, hc⟩ : ∃ c cs, rest ++ quoteMark single :: tail = c :: cs ∧
          isSpace c = false ∧ isBreak c = false := by
        cases rest with
        | nil => exact ⟨_, _, rfl, quoteMark_solid single⟩
        | cons c rest => exact ⟨c, _, rfl, hrest c rfl, hcontent.no_break c (by simp)⟩
      rw [hcs, ← List.cons_append] at hafter
      obtain ⟨hbroken, hkept, hnext⟩ := gap_read_blanks hafter hblanks hc rfl hgap
      rw [← hcs] at hnext
      obtain ⟨rfl, hcur'⟩ := ih hnext (hcontent.mono fun c hc => by simp [hc]) (by omega) hread
      exact ⟨by simp [Gap.text, hbroken, hkept, Gap.none], hcur'⟩

theorem quotedScalar_eq
    (hat : cur.At (quoteMark single :: (content ++ quoteMark single :: tail)) place)
    (hcontent : IsQuotable single content) (htail : single = true → tail.head? ≠ some '\x27')
    (hread : quotedScalar single cur = some (result, cur')) :
    result = content ∧ ∃ place', cur'.At tail place' := by
  obtain ⟨⟨read, after⟩, hread, heq⟩ := Option.map_eq_some_iff.mp hread
  cases heq
  obtain ⟨rfl, hcur'⟩ := quotedRest_eq hat.skip hcontent htail (by omega) hread
  exact ⟨by simp, hcur'⟩

def isIndicator (c : Char) : Bool := "-?:,[]\x7b\x7d#&*!|>\x27\x22%@\x60\ufeff".toList.contains c

/-- A word that is written as a key: letters, digits, underscores and hyphens, no hyphen first. -/
@[mk_iff]
structure IsKey (key : List Char) : Prop where
  ne_nil : key ≠ []
  name : ∀ c ∈ key, isNameChar c = true
  no_entry : key.head? ≠ some '-'

instance : DecidablePred IsKey := fun key =>
  decidable_of_iff (key ≠ [] ∧ key.all isNameChar = true ∧ key.head? ≠ some '-')
    (by simp [isKey_iff])

variable {c : Char} {key : List Char}

theorem ne_of_isNameChar {d : Char} (hc : isNameChar c = true) (hd : isNameChar d = false) :
    c ≠ d := by
  rintro rfl
  rw [hc] at hd
  cases hd

namespace IsKey

theorem isPlainWord (hkey : IsKey key) : IsPlainWord key where
  ne_nil := hkey.ne_nil
  solid := by
    intro c hc
    have hname {d : Char} := ne_of_isNameChar (d := d) (hkey.name c hc)
    simp (disch := decide) [isSpace, isBreak, hname]
  no_comment := fun hhead => ne_of_isNameChar (hkey.name _ (List.mem_of_mem_head? hhead)) rfl rfl
  no_colon := fun hlast => ne_of_isNameChar (hkey.name _ (List.mem_of_mem_getLast? hlast)) rfl rfl

theorem isIndicator_head (hkey : IsKey (c :: key)) : isIndicator c = false := by
  have hindicators : "-?:,[]\x7b\x7d#&*!|>\x27\x22%@\x60\ufeff".toList.all
      (fun d => d == '-' || !isNameChar d) = true := by decide
  refine Bool.eq_false_iff.mpr fun hc => ?_
  have hcases := List.all_eq_true.mp hindicators c (List.elem_iff.mp hc)
  rw [hkey.name c List.mem_cons_self, Bool.not_true, Bool.or_false, beq_iff_eq] at hcases
  exact hkey.no_entry (congrArg some hcases)

end IsKey

/-- How a text may be written on one line: as words with a blank between them, or between quotes. -/
inductive Written : Style → List Char → List Char → Prop
  | plain (first : List Char) (more : List (List Char))
    (hwords : ∀ word ∈ first :: more, IsPlainWord word)
    (hstart : ∀ c ∈ first.head?, isIndicator c = false) :
    Written .plain (first ++ blankBefore more) (first ++ blankBefore more)
  | quoted (single : Bool) (text : List Char) (h : IsQuotable single text) :
    Written (if single then .single else .double) text
      (quoteMark single :: text ++ [quoteMark single])

theorem Written.exists_cons {style : Style} {text written : List Char}
    (h : Written style text written) : ∃ c others, written = c :: others ∧ Begins c := by
  cases h with
  | plain first more hwords hstart =>
    obtain ⟨hfirst, -⟩ := List.forall_mem_cons.mp hwords
    obtain ⟨c, cs, rfl⟩ := List.exists_cons_of_ne_nil hfirst.ne_nil
    obtain ⟨hspace, hbreak⟩ := hfirst.solid c List.mem_cons_self
    have hc := hstart c rfl
    simp [isIndicator] at hc
    exact ⟨c, cs ++ blankBefore more, rfl, hspace, hbreak, by simp [hc], by simp [hc]⟩
  | quoted single text htext =>
    obtain ⟨hspace, hbreak⟩ := quoteMark_solid single
    exact ⟨_, _, rfl, hspace, hbreak, by cases single <;> decide, by cases single <;> decide⟩

/-- A written text stands on one line. -/
theorem Written.no_break {style : Style} {text written : List Char}
    (h : Written style text written) : ∀ c ∈ written, isBreak c = false := by
  cases h with
  | plain first more hwords hstart =>
    have hmore : ∀ c ∈ blankBefore more, isBreak c = false := by
      intro c hc
      obtain ⟨word, hword, hc⟩ := List.mem_flatMap.mp hc
      rcases List.mem_cons.mp hc with rfl | hc
      · rfl
      · exact ((hwords word (List.mem_cons_of_mem _ hword)).solid c hc).2
    have hfirst := fun c hc => ((hwords first List.mem_cons_self).solid c hc).2
    exact List.forall_mem_append.mpr ⟨hfirst, hmore⟩
  | quoted single text htext =>
    have hmark := (quoteMark_solid single).2
    exact List.forall_mem_append.mpr
      ⟨List.forall_mem_cons.mpr ⟨hmark, htext.no_break⟩, by simpa using hmark⟩

theorem Written.not_mem_newline {style : Style} {text written : List Char}
    (h : Written style text written) : '\n' ∉ written :=
  fun hmem => Bool.false_ne_true (h.no_break _ hmem).symm

end BlockShading.Yaml
