import BlockShading.Proofs.Yaml.Kept
import BlockShading.Proofs.Yaml.Scalars

/-!
# Lines of block mappings

What the reader makes of the lines `key: value` and `key:` of a block mapping. It comes to such a
line over empty lines and comments, closes the blocks that are further in, opens one if the line is
further in than the innermost, and has read the key and the value when it comes to what follows.
-/

namespace BlockShading.Yaml

variable {cs rest : List Char} {j k : Nat}

/-- On the way to the next thing there is either only the rest of a line, or a line that is empty or
a comment. -/
theorem Leads.line_cases (h : Leads j cs k rest) : ∃ blanks : List Char, (∀ b ∈ blanks, b = ' ') ∧
    ((cs = blanks ++ rest ∧ k = j + blanks.length ∧ ∀ c ∈ rest.head?, Begins c) ∨
      ∃ note cs', cs = blanks ++ (note ++ '\n' :: cs') ∧ Leads 0 cs' k rest ∧
        (∀ c ∈ note, isBreak c = false) ∧ ∀ c ∈ note.head?, c = '#') := by
  induction h with
  | here h => exact ⟨[], by simp, Or.inl ⟨rfl, rfl, h⟩⟩
  | blank h ih =>
    obtain ⟨blanks, hblanks, hline⟩ := ih
    refine ⟨' ' :: blanks, by simpa using hblanks, ?_⟩
    rcases hline with ⟨rfl, rfl, hrest⟩ | ⟨note, cs', rfl, hnote⟩
    · exact Or.inl ⟨rfl, by rw [List.length_cons]; omega, hrest⟩
    · exact Or.inr ⟨note, cs', rfl, hnote⟩
  | @newline j k cs rest h ih => exact ⟨[], by simp, Or.inr ⟨[], cs, rfl, h, by simp, by simp⟩⟩
  | @comment j k text cs rest htext h ih =>
    refine ⟨[], by simp, Or.inr ⟨'#' :: text, cs, rfl, h, ?_, by simp⟩⟩
    exact List.forall_mem_cons.mpr ⟨by decide, htext⟩

def keyTokens (key : List Char) : List Token := [.key, .scalar .plain (String.ofList key), .value]

namespace Reader

variable {s t : Reader} {fuel : Nat}

/-- The place behind the blanks of a line, and behind its comment if one follows. -/
def passBlanks (s : Reader) : Cursor :=
  let cur := if s.cursor.column = 0 ∧ s.cursor.isAt '\ufeff' then s.cursor.skip else s.cursor
  let cur := cur.skipWhile fun c => c == ' ' || ((s.inFlow || !s.keyAllowed) && c == '\t')
  if cur.isAt '#' then cur.skipWhile fun c => !isBreak c else cur

theorem skipGap_succ (s : Reader) (fuel : Nat) : s.skipGap (fuel + 1) =
    if s.passBlanks.atBreak then
      skipGap fuel
        { s with cursor := s.passBlanks.lineBreak.2, keyAllowed := s.keyAllowed || !s.inFlow }
    else { s with cursor := s.passBlanks } := rfl

/-- Behind the blanks is a comment or something else. A byte order mark is not expected. -/
theorem passBlanks_eq {blanks tail : List Char} (hat : s.cursor.At (blanks ++ tail) j)
    (hblanks : ∀ b ∈ blanks, b = ' ') (htail : ∀ c ∈ tail.head?, isSpace c = false ∧ c ≠ '\ufeff') :
    ∃ cur : Cursor, cur.At tail (j + blanks.length) ∧
      s.passBlanks = if cur.isAt '#' then cur.skipWhile fun c => !isBreak c else cur := by
  have hmark : s.cursor.isAt '\ufeff' = false := by
    cases blanks with
    | nil =>
      cases tail with
      | nil => rw [Cursor.isAt, hat.next?_nil]; rfl
      | cons c tail =>
        rw [List.nil_append] at hat
        rw [hat.isAt]
        exact beq_eq_false_iff_ne.mpr (htail c rfl).2
    | cons b blanks =>
      rw [List.cons_append] at hat
      rw [hat.isAt, hblanks b List.mem_cons_self]
      rfl
  refine ⟨s.cursor.skipWhile fun c => c == ' ' || ((s.inFlow || !s.keyAllowed) && c == '\t'),
    hat.skipWhile (fun b hb => by simp [hblanks b hb]) fun c hc => ?_, ?_⟩
  · obtain ⟨hspace, -⟩ := htail c hc
    simp only [isSpace, Bool.or_eq_false_iff] at hspace
    simp [hspace.1, hspace.2]
  · simp [passBlanks, hmark]

/-- The reader passes a line that is empty or a comment. -/
theorem skipGap_line {blanks note : List Char} (fuel : Nat) (hflow : s.inFlow = false)
    (hat : s.cursor.At (blanks ++ (note ++ '\n' :: cs)) j) (hblanks : ∀ b ∈ blanks, b = ' ')
    (hnote : ∀ c ∈ note, isBreak c = false) (hhash : ∀ c ∈ note.head?, c = '#') :
    ∃ cur, cur.At cs 0 ∧
      s.skipGap (fuel + 1) = skipGap fuel { s with cursor := cur, keyAllowed := true } := by
  have hpassed : ∃ place, s.passBlanks.At ('\n' :: cs) place := by
    cases note with
    | nil =>
      obtain ⟨cur, hcur, hpassed⟩ := passBlanks_eq hat hblanks (by simp [isSpace])
      rw [List.nil_append] at hcur
      rw [hpassed, if_neg (by simp [hcur.isAt])]
      exact ⟨_, hcur⟩
    | cons c note =>
      obtain rfl : c = '#' := hhash c rfl
      obtain ⟨cur, hcur, hpassed⟩ := passBlanks_eq hat hblanks (by simp [isSpace])
      have hcomment : cur.isAt '#' = true := by
        rw [List.cons_append] at hcur
        simp [hcur.isAt]
      rw [hpassed, if_pos hcomment]
      exact ⟨_, hcur.skipWhile (fun c hc => by simp [hnote c hc]) (by simp [isBreak])⟩
  obtain ⟨place, hpassed⟩ := hpassed
  refine ⟨_, hpassed.lineBreak.2, ?_⟩
  rw [skipGap_succ, if_pos (by rw [hpassed.atBreak]; rfl), hflow, Bool.not_false, Bool.or_true]

/-- The reader stops where something begins. -/
theorem skipGap_blanks {blanks : List Char} (hat : s.cursor.At (blanks ++ rest) j)
    (hblanks : ∀ b ∈ blanks, b = ' ') (hrest : ∀ c ∈ rest.head?, Begins c) (hfuel : 0 < fuel) :
    ∃ cur : Cursor, cur.At rest (j + blanks.length) ∧
      s.skipGap fuel = { s with cursor := cur } := by
  obtain ⟨cur, hcur, hpassed⟩ := passBlanks_eq hat hblanks
    fun c hc => ⟨(hrest c hc).1, (hrest c hc).2.2.2⟩
  have hstop : s.passBlanks = cur ∧ cur.atBreak = false := by
    cases rest with
    | nil => simp [hpassed, Cursor.isAt, Cursor.atBreak, hcur.next?_nil]
    | cons c rest =>
      obtain ⟨-, hbreak, hhash, -⟩ := hrest c rfl
      simp [hpassed, hcur.isAt, hcur.atBreak, hbreak, hhash]
  refine ⟨cur, hcur, ?_⟩
  rw [← Nat.succ_pred_eq_of_pos hfuel, skipGap_succ, hstop.1, hstop.2, if_neg Bool.false_ne_true]

/-- The reader comes to the next thing. -/
theorem skipGap_leads (hflow : s.inFlow = false) (hleads : Leads j cs k rest)
    (hat : s.cursor.At cs j) (hkey : s.keyAllowed = true ∨ cs.head? = some '\n')
    (hfuel : cs.length < fuel) :
    ∃ cur, cur.At rest k ∧ s.skipGap fuel = { s with cursor := cur, keyAllowed := true } := by
  induction fuel generalizing s cs j with
  | zero => omega
  | succ fuel ih =>
    obtain ⟨blanks, hblanks, ⟨rfl, rfl, hrest⟩ | ⟨note, cs', rfl, hleads', hnote, hhash⟩⟩ :=
      hleads.line_cases
    · have hkey : s.keyAllowed = true := by
        refine hkey.resolve_right fun hhead => ?_
        cases blanks with
        | nil => exact absurd (hrest '\n' hhead).2.1 (by decide)
        | cons b blanks => simp [hblanks b] at hhead
      obtain ⟨cur, hcur, hskip⟩ := skipGap_blanks hat hblanks hrest (Nat.succ_pos fuel)
      refine ⟨cur, hcur, ?_⟩
      rw [hskip, ← hkey]
    · obtain ⟨cur, hcur, hskip⟩ := skipGap_line fuel hflow hat hblanks hnote hhash
      rw [hskip]
      simp only [List.length_append, List.length_cons] at hfuel
      exact ih hflow hleads' hcur (Or.inl rfl) (by omega)

/-- What has been read of the blocks of a document while no candidate is open. -/
structure Holds (indents : List Nat) (read : List Token) (s : Reader) : Prop where
  candidates : s.candidates = [none]
  indents : s.indents = indents
  emitted : s.emitted = read.reverse
  count : s.count = read.length

variable {indents deeper : List Nat} {read tokens : List Token} {c : Char}

namespace Holds

theorem inFlow (h : s.Holds indents read) : s.inFlow = false := by
  simp [Reader.inFlow, h.candidates]

theorem keeps (h : s.Holds indents read) : s.Keeps read.reverse where
  suffix := ⟨[], by rw [h.emitted, List.nil_append]⟩
  count := by rw [h.count, h.emitted, List.length_reverse]
  candidates := by simp [h.candidates]

/-- Only tokens, blocks and candidates matter. -/
theorem moved (h : s.Holds indents read) (cur : Cursor) (keyAllowed : Bool) :
    Holds indents read { s with cursor := cur, keyAllowed := keyAllowed } :=
  ⟨h.candidates, h.indents, h.emitted, h.count⟩

theorem dropStale (h : s.Holds indents read) : s.dropStale = some s := by
  have hcandidates := h.candidates
  obtain ⟨cursor, emitted, count, keyAllowed, candidates, indents⟩ := s
  cases hcandidates
  rfl

/-- Blocks further in than the next thing end there. -/
theorem closeBlocks (h : s.Holds (deeper ++ indents) read) (hdeeper : ∀ i ∈ deeper, k < i)
    (hindents : ∀ i ∈ indents.head?, i ≤ k) :
    (s.closeBlocks (some k)).Holds indents (read ++ List.replicate deeper.length .blockEnd) := by
  have hclosed : s.indents.takeWhile (fun i => decide (k < i)) = deeper := by
    rw [h.indents, List.takeWhile_append_of_pos (by simpa using hdeeper)]
    cases indents with
    | nil => simp
    | cons i indents =>
      have hi : ¬ k < i := Nat.not_lt.mpr (hindents i rfl)
      simp [hi]
  simp only [Reader.closeBlocks, h.inFlow, Bool.false_eq_true, ↓reduceIte, hclosed]
  exact ⟨h.candidates, by simp [h.indents], by simp [h.emitted], by simp [h.count]⟩

end Holds

/-- The tokens that are read from a state on. -/
def Yields (s : Reader) (tokens : List Token) : Prop := ∃ fuel, readAll fuel s = some tokens

@[simp] theorem closeBlocks_cursor (s : Reader) (column : Option Nat) :
    (s.closeBlocks column).cursor = s.cursor := by
  unfold closeBlocks
  split <;> rfl

@[simp] theorem closeBlocks_keyAllowed (s : Reader) (column : Option Nat) :
    (s.closeBlocks column).keyAllowed = s.keyAllowed := by
  unfold closeBlocks
  split <;> rfl

@[simp] theorem closeBlocks_candidates (s : Reader) (column : Option Nat) :
    (s.closeBlocks column).candidates = s.candidates := by
  unfold closeBlocks
  split <;> rfl

/-- No block ends where none is further in. -/
theorem closeBlocks_eq_self (hindents : ∀ i ∈ s.indents.head?, i ≤ k) :
    s.closeBlocks (some k) = s := by
  have hclosed : s.indents.takeWhile (fun i => decide (k < i)) = [] := by
    cases hs : s.indents with
    | nil => rfl
    | cons i indents =>
      have hi : ¬ k < i := Nat.not_lt.mpr (hindents i (by rw [hs]; rfl))
      simp [hi]
  unfold closeBlocks
  split
  · rfl
  · simp [hclosed]

/-- Before more tokens are read the next one is. -/
theorem Yields.fetch (h : s.Yields tokens) : ∃ t, (s.skipGap s.cursor.bound).dropStale = some t ∧
    ∀ c, t.cursor.next? = some c →
      ∃ u, (t.closeBlocks (some t.cursor.column)).fetch c = some u ∧ u.Yields tokens := by
  obtain ⟨fuel, hread⟩ := h
  cases fuel with
  | zero => cases hread
  | succ fuel =>
    obtain ⟨t, ht, hread⟩ := Option.bind_eq_some_iff.mp hread
    refine ⟨t, ht, fun c hc => ?_⟩
    simp only [closeBlocks_cursor, hc] at hread
    obtain ⟨u, hu, hread⟩ := Option.bind_eq_some_iff.mp hread
    exact ⟨u, hu, fuel, hread⟩

theorem atMarker_of_ne {cur : Cursor} {marker : Char} (hat : cur.At (c :: rest) j)
    (hc : c ≠ marker) : cur.atMarker marker = false := by
  simp [Cursor.atMarker, hat.rest, hc]

theorem fetch_plain (hat : s.cursor.At (c :: rest) j) (hc : isIndicator c = false)
    (hspace : isSpace c = false) (hmarker : s.cursor.atMarker '.' = false) :
    s.fetch c = s.fetchPlain := by
  simp [isIndicator] at hc
  have hstarts : s.plainStarts c = true := by simp [plainStarts, hc, hspace]
  simp [fetch, hc, hmarker, hstarts, atMarker_of_ne hat]

theorem fetch_quote {single : Bool} (hat : s.cursor.At (quoteMark single :: rest) j) :
    s.fetch (quoteMark single) = s.fetchQuoted (if single then .single else .double) := by
  cases single <;> simp [fetch, quoteMark, atMarker_of_ne hat]

theorem fetch_colon (hat : s.cursor.At (':' :: c :: rest) j)
    (hc : (isSpace c || isBreak c) = true) : s.fetch ':' = s.fetchValue := by
  have hgap : s.cursor.gapAhead 1 = true := by rw [hat.gapAhead_one]; simpa using hc
  simp [fetch, atMarker_of_ne hat, hgap]

/-- The next thing is at a column, if one passes what is between, and may be a key. -/
def Nears (k : Nat) (rest : List Char) (s : Reader) : Prop :=
  ∃ cs j, s.cursor.At cs j ∧ Leads j cs k rest ∧ (s.keyAllowed = true ∨ cs.head? = some '\n')

structure HoldsWord (indents : List Nat) (read : List Token) (column : Nat) (word : List Char)
    (s : Reader) : Prop where
  candidate : ∃ here : Candidate, here.position = read.length ∧ here.column = column ∧
    s.candidates = [some here]
  indents : s.indents = indents
  emitted : s.emitted = .scalar .plain (String.ofList word) :: read.reverse
  count : s.count = read.length + 1

/-- A key has been read at a column: one of the innermost block if that is there, else the first of
a new one. -/
def HoldsKey (indents : List Nat) (read : List Token) (column : Nat) (key : List Char)
    (s : Reader) : Prop :=
  (indents.head? = some column ∧ s.Holds indents (read ++ keyTokens key)) ∨
    indents.head? ≠ some column ∧
      s.Holds (column :: indents) (read ++ .blockMapping :: keyTokens key)

variable {key : List Char} {column : Nat}

theorem saveCandidate_eq (h : s.Holds indents read) (hkey : s.keyAllowed = true) :
    ∃ here : Candidate, here.position = read.length ∧ here.column = s.cursor.column ∧
      s.saveCandidate = some { s with candidates := [some here] } := by
  refine ⟨⟨!s.inFlow && s.indent? == some s.cursor.column, s.count, s.cursor.line, s.cursor.column,
    s.cursor.index⟩, h.count, rfl, ?_⟩
  simp [saveCandidate, hkey, dropCandidate, h.candidates]

/-- A word is read where a key may begin. -/
theorem fetchPlain_key (hfetch : s.fetchPlain = some t) (hholds : s.Holds indents read)
    (hallowed : s.keyAllowed = true) (hat : s.cursor.At (key ++ ':' :: c :: rest) k)
    (hmarker : s.cursor.atDocumentMarker = false) (hkey : IsKey key)
    (hc : (isSpace c || isBreak c) = true) :
    t.HoldsWord indents read k key ∧ t.cursor.At (':' :: c :: rest) (k + key.length) ∧
      t.keyAllowed = false := by
  obtain ⟨here, hposition, hcolumn, hsaved⟩ := saveCandidate_eq hholds hallowed
  obtain ⟨saved, heq, hfetch⟩ := Option.bind_eq_some_iff.mp hfetch
  obtain rfl : { s with candidates := [some here] } = saved := by simpa [hsaved] using heq
  obtain ⟨⟨text, broken, cur⟩, hscalar, hfetch⟩ := Option.bind_eq_some_iff.mp hfetch
  cases hfetch
  obtain ⟨rfl, rfl, hcur⟩ := plainScalar_of_colon hat hkey.isPlainWord hmarker hc hscalar
  refine ⟨⟨⟨here, hposition, hcolumn.trans hat.column, rfl⟩, hholds.indents, ?_, ?_⟩, hcur, rfl⟩
  · simp [emit, hholds.emitted]
  · simp [emit, hholds.count]

/-- A block is opened at a column that is further in than the innermost one. -/
theorem openBlock_eq {add : Reader → Reader} (hflow : s.inFlow = false)
    (hindents : ∀ i ∈ s.indents.head?, i ≤ column) :
    s.openBlock column add = if s.indents.head? = some column then s
      else { add s with indents := column :: s.indents } := by
  unfold openBlock indent?
  cases hhead : s.indents.head? with
  | none => simp [hflow]
  | some i =>
    have hle : i ≤ column := hindents i hhead
    by_cases hi : i = column
    · simp [hi]
    · have hlt : i < column := by omega
      simp [hflow, hi, hlt]

/-- A colon makes a key of the word before it. -/
theorem fetchValue_key (hfetch : s.fetchValue = some t) (hword : s.HoldsWord indents read k key)
    (hat : s.cursor.At (':' :: rest) column) (hindents : ∀ i ∈ indents.head?, i ≤ k) :
    t.cursor.At rest (column + 1) ∧ t.keyAllowed = false ∧
      t.HoldsKey indents read k key := by
  obtain ⟨here, hposition, rfl, hcandidates⟩ := hword.candidate
  have hflow : (s.emitAt here.position .key).inFlow = false := by
    simp [inFlow, emitAt, hcandidates]
  have hlater : s.count - here.position = 1 := by rw [hword.count, hposition]; omega
  have hlater' : s.count + 1 - here.position = 2 := by rw [hword.count, hposition]; omega
  unfold fetchValue at hfetch
  rw [hcandidates] at hfetch
  simp only [openBlock_eq hflow (hword.indents.symm ▸ hindents), Option.some.injEq] at hfetch
  have hindents' : (s.emitAt here.position .key).indents = indents := hword.indents
  rw [hindents'] at hfetch
  split at hfetch
  · next hhead =>
    cases hfetch
    refine ⟨hat.skipBy_one, rfl, Or.inl ⟨hhead, rfl, hword.indents, ?_, ?_⟩⟩
    · simp [indicator, emit, emitAt, hlater, hword.emitted, keyTokens]
    · simp [indicator, emit, emitAt, hword.count, keyTokens]
  · next hhead =>
    cases hfetch
    refine ⟨hat.skipBy_one, rfl, Or.inr ⟨hhead, rfl, rfl, ?_, ?_⟩⟩
    · simp [indicator, emit, emitAt, hlater, hlater', hword.emitted, keyTokens]
    · simp [indicator, emit, emitAt, hword.count, keyTokens]

/-- A word that may be a key may also be given up as one. -/
theorem dropStale_key (hstale : s.dropStale = some t) (hword : s.HoldsWord indents read k key) :
    t = s ∨ t.candidates = [none] ∧ t.keyAllowed = s.keyAllowed ∧ t.cursor = s.cursor := by
  obtain ⟨here, -, -, hcandidates⟩ := hword.candidate
  obtain ⟨kept, hkept, hstale⟩ := Option.bind_eq_some_iff.mp hstale
  cases hstale
  rw [hcandidates, List.mapM_cons] at hkept
  obtain ⟨candidate, hcandidate, hkept⟩ := Option.bind_eq_some_iff.mp hkept
  cases hkept
  dsimp only at hcandidate
  split_ifs at hcandidate
  · cases hcandidate
    exact Or.inr ⟨rfl, rfl, rfl⟩
  · cases hcandidate
    exact Or.inl (by rw [List.reverse_nil, ← hcandidates])

/-- The reader makes a key of a word in front of a colon, or gives up. -/
theorem yields_colon (hyields : s.Yields tokens) (hword : s.HoldsWord indents read k key)
    (hat : s.cursor.At (':' :: c :: rest) column) (hallowed : s.keyAllowed = false)
    (hcolumn : k ≤ column) (hc : (isSpace c || isBreak c) = true)
    (hindents : ∀ i ∈ indents.head?, i ≤ k) :
    ∃ t : Reader, t.Yields tokens ∧ t.cursor.At (c :: rest) (column + 1) ∧ t.keyAllowed = false ∧
      t.HoldsKey indents read k key := by
  obtain ⟨cur, hcur, hskip⟩ := skipGap_blanks
    (show s.cursor.At ([] ++ ':' :: c :: rest) column from hat) (by simp)
    (fun d hd => by cases hd; decide) (Nat.zero_lt_of_lt hat.bound)
  have hmoved : HoldsWord indents read k key { s with cursor := cur } :=
    ⟨hword.candidate, hword.indents, hword.emitted, hword.count⟩
  obtain ⟨fresh, hfresh, hnext⟩ := hyields.fetch
  rw [hskip] at hfresh
  rcases dropStale_key hfresh hmoved with rfl | ⟨hcandidates, hkeyAllowed, hcursor⟩
  · obtain ⟨t, hfetch, hyields⟩ := hnext ':' hcur.next?
    have hle : ∀ i ∈ Reader.indents { s with cursor := cur } |>.head?, i ≤ cur.column := by
      intro i hi
      rw [hmoved.indents] at hi
      rw [hcur.column]
      exact Nat.le_trans (hindents i hi) hcolumn
    rw [closeBlocks_eq_self hle, fetch_colon hcur hc] at hfetch
    exact ⟨t, hyields, fetchValue_key hfetch hmoved hcur hindents⟩
  · -- no key can begin on this line any more, and a value needs one
    have hcur : fresh.cursor.At (':' :: c :: rest) column := hcursor ▸ hcur
    obtain ⟨t, hfetch, -⟩ := hnext ':' hcur.next?
    rw [fetch_colon (by simpa using hcur) hc] at hfetch
    simp [fetchValue, hcandidates, inFlow, hkeyAllowed, hallowed] at hfetch

/-- The reader has read a key with its colon, after it ended the blocks further in and began one if
the key is further in than all others. -/
theorem yields_key (hyields : s.Yields tokens)
    (hnears : s.Nears k (key ++ ':' :: c :: rest)) (hholds : s.Holds (deeper ++ indents) read)
    (hkey : IsKey key) (hc : (isSpace c || isBreak c) = true) (hdeeper : ∀ i ∈ deeper, k < i)
    (hindents : ∀ i ∈ indents.head?, i ≤ k) :
    ∃ t : Reader, t.Yields tokens ∧ t.cursor.At (c :: rest) (k + key.length + 1) ∧
      t.keyAllowed = false ∧
      t.HoldsKey indents (read ++ List.replicate deeper.length .blockEnd) k key := by
  obtain ⟨cs, j, hat, hleads, hallowed⟩ := hnears
  obtain ⟨cur, hcur, hskip⟩ := skipGap_leads hholds.inFlow hleads hat hallowed hat.bound
  have hmoved := hholds.moved cur true
  have hclosed := hmoved.closeBlocks hdeeper hindents
  obtain ⟨fresh, hfresh, hnext⟩ := hyields.fetch
  rw [hskip, hmoved.dropStale] at hfresh
  cases hfresh
  obtain ⟨d, ds, rfl⟩ := List.exists_cons_of_ne_nil hkey.ne_nil
  obtain ⟨word, hfetch, hyields⟩ := hnext d hcur.next?
  rw [show Cursor.column _ = k from hcur.column] at hfetch
  have hdot : cur.atMarker '.' = false :=
    atMarker_of_ne hcur (ne_of_isNameChar (hkey.name d List.mem_cons_self) rfl)
  have hdash : cur.atMarker '-' = false :=
    atMarker_of_ne hcur fun hd => hkey.no_entry (by rw [hd]; rfl)
  rw [fetch_plain (by simpa using hcur) hkey.isIndicator_head
    (hkey.isPlainWord.solid d List.mem_cons_self).1 (by simpa using hdot)] at hfetch
  obtain ⟨hword, hcolon, hallowed⟩ := fetchPlain_key hfetch hclosed (by simp) (by simpa using hcur)
    (by simp [Cursor.atDocumentMarker, hdot, hdash]) hkey hc
  exact yields_colon hyields hword hcolon hallowed (by omega) hc hindents

/-- A value is read where no key may begin. -/
theorem saveCandidate_eq_self (hallowed : s.keyAllowed = false) : s.saveCandidate = some s := by
  simp [saveCandidate, hallowed]

theorem Holds.append (h : s.Holds indents read) (token : Token) (cur : Cursor) (allowed : Bool) :
    Holds indents (read ++ [token]) ({ s with cursor := cur, keyAllowed := allowed }.emit token) :=
  ⟨h.candidates, h.indents, by simp [emit, h.emitted], by simp [emit, h.count]⟩

variable {style : Style} {text written : List Char} {i : Nat}

/-- A value on the line of its key. -/
theorem fetch_written (hfetch : s.fetch c = some t)
    (hat : s.cursor.At (written ++ '\n' :: cs) column) (hc : written.head? = some c)
    (hallowed : s.keyAllowed = false) (hholds : s.Holds (i :: indents) read)
    (hwritten : Written style text written) (hleads : Leads 0 cs k rest) (hi : i < column)
    (hk : k ≤ i ∨ rest = []) :
    t.Nears k rest ∧ t.Holds (i :: indents) (read ++ [.scalar style (String.ofList text)]) := by
  cases hwritten with
  | plain first more hwords hstart =>
    obtain ⟨hfirst, hmore⟩ := List.forall_mem_cons.mp hwords
    have hhead : first.head? = some c := by
      obtain ⟨d, ds, rfl⟩ := List.exists_cons_of_ne_nil hfirst.ne_nil
      exact hc
    obtain ⟨ds, rfl⟩ := List.head?_eq_some_iff.mp hhead
    have hdot : s.cursor.atMarker '.' = false :=
      (Bool.or_eq_false_iff.mp (hat.atDocumentMarker_of_pos (by omega))).2
    rw [fetch_plain hat (hstart c rfl) (hfirst.solid c List.mem_cons_self).1 hdot] at hfetch
    obtain ⟨saved, hsaved, hfetch⟩ := Option.bind_eq_some_iff.mp hfetch
    obtain rfl : s = saved := by simpa [saveCandidate_eq_self hallowed] using hsaved
    obtain ⟨⟨read', broken, cur⟩, hscalar, hfetch⟩ := Option.bind_eq_some_iff.mp hfetch
    cases hfetch
    rw [hholds.inFlow] at hscalar
    have hindent : (s.indent?.map (· + 1)).getD 0 = i + 1 := by simp [indent?, hholds.indents]
    rw [hindent] at hscalar
    obtain ⟨rfl, rfl, cs', j', hcur, hleads'⟩ := plainScalar_eq hat hfirst hmore (by omega)
      (by omega) hleads (hk.imp_left Nat.lt_succ_of_le) hscalar
    exact ⟨⟨cs', j', hcur, hleads', Or.inl rfl⟩, hholds.append _ _ _⟩
  | quoted single text htext =>
    obtain rfl : quoteMark single = c := by simpa using hc
    simp only [List.cons_append, List.append_assoc, List.nil_append] at hat
    rw [fetch_quote hat] at hfetch
    obtain ⟨saved, hsaved, hfetch⟩ := Option.bind_eq_some_iff.mp hfetch
    obtain rfl : s = saved := by simpa [saveCandidate_eq_self hallowed] using hsaved
    obtain ⟨⟨read', cur⟩, hscalar, hfetch⟩ := Option.bind_eq_some_iff.mp hfetch
    cases hfetch
    have hsingle : ((if single then Style.single else .double) == .single) = single := by
      cases single <;> rfl
    rw [hsingle] at hscalar
    obtain ⟨rfl, place, hcur⟩ := quotedScalar_eq hat htext (by simp) hscalar
    exact ⟨⟨_, _, hcur, .newline hleads, Or.inr rfl⟩, hholds.append _ _ _⟩

/-- The reader has read the value of a key and comes to what follows. -/
theorem yields_value (hyields : s.Yields tokens)
    (hat : s.cursor.At (' ' :: (written ++ '\n' :: cs)) column) (hallowed : s.keyAllowed = false)
    (hholds : s.Holds (i :: indents) read) (hwritten : Written style text written)
    (hleads : Leads 0 cs k rest) (hi : i < column) (hk : k ≤ i ∨ rest = []) :
    ∃ t : Reader, t.Yields tokens ∧ t.Nears k rest ∧
      t.Holds (i :: indents) (read ++ [.scalar style (String.ofList text)]) := by
  obtain ⟨c, others, rfl, hbegins⟩ := hwritten.exists_cons
  obtain ⟨cur, hcur, hskip⟩ := skipGap_blanks
    (show s.cursor.At ([' '] ++ (c :: others ++ '\n' :: cs)) column from hat) (by simp)
    (fun d hd => by cases hd; exact hbegins) (Nat.zero_lt_of_lt hat.bound)
  have hmoved := hholds.moved cur s.keyAllowed
  obtain ⟨fresh, hfresh, hnext⟩ := hyields.fetch
  rw [hskip, hmoved.dropStale] at hfresh
  cases hfresh
  obtain ⟨t, hfetch, hyields⟩ := hnext c hcur.next?
  rw [closeBlocks_eq_self] at hfetch
  · exact ⟨t, hyields, fetch_written hfetch hcur rfl hallowed hmoved hwritten hleads (by omega) hk⟩
  · intro d hd
    rw [hmoved.indents] at hd
    cases hd
    rw [hcur.column]
    omega

end Reader

end BlockShading.Yaml
