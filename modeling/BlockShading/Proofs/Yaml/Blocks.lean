import BlockShading.Proofs.Yaml.Lines

/-!
# Block mappings by lines

A block mapping is written in lines that begin at its column: `key: value`, or `key:` in front of
the lines of a mapping further in. `Block` says that a text begins with such lines, none of whose
keys at any depth is a given one. Main statement: if an entry with that key follows them, then the
tokens of the text begin with those of the lines and of the entry, whatever comes after.
-/

namespace BlockShading.Yaml

/-- The lines of a block mapping at a column, or some of them, with what follows. None of the keys
is the given one. -/
inductive Block (name : List Char) : Nat → List Char → List Char → Prop
  | entry {k : Nat} (key : List Char) {text written cs : List Char} {style : Style}
    (hkey : IsKey key) (hname : key ≠ name) (hwritten : Written style text written) :
    Block name k (key ++ ':' :: ' ' :: (written ++ '\n' :: cs)) cs
  | nested {k k' : Nat} (key : List Char) {cs inner rest : List Char} (hkey : IsKey key)
    (hname : key ≠ name) (hleads : Leads 0 cs k' inner) (hk : k < k')
    (hinner : Block name k' inner rest) : Block name k (key ++ ':' :: '\n' :: cs) rest
  | append {k : Nat} {first cs line rest : List Char} (hfirst : Block name k first cs)
    (hleads : Leads 0 cs k line) (hrest : Block name k line rest) : Block name k first rest

/-- Passing lines of entries with other keys one comes from the beginning of a text to a line at the
left, which may also be the first. -/
inductive Reaches (name : List Char) : List Char → List Char → Prop
  | first {cs line : List Char} (h : Leads 0 cs 0 line) : Reaches name cs line
  | later {cs first rest line : List Char} (h : Leads 0 cs 0 first)
    (hblock : Block name 0 first rest) (hrest : Leads 0 rest 0 line) : Reaches name cs line

def entryTokens (key : List Char) (style : Style) (text : List Char) : List Token :=
  keyTokens key ++ [.scalar style (String.ofList text)]

inductive EntryTokens : List Token → Prop
  | nil : EntryTokens []
  | entry (key : List Char) (style : Style) (text : List Char) :
    EntryTokens (entryTokens key style text)
  | nested (key : List Char) {inner : List Token} (h : EntryTokens inner) :
    EntryTokens (keyTokens key ++ .blockMapping :: inner ++ [.blockEnd])
  | append {first second : List Token} (hfirst : EntryTokens first) (hsecond : EntryTokens second) :
    EntryTokens (first ++ second)

namespace Reader

variable {s : Reader} {k k₂ : Nat} {outer : List Nat} {read body tokens : List Token} {c : Char}
  {key name text written cs rest line next : List Char} {style : Style}

/-- The reader is in a block at a column, or in front of its first line; inside it there may be
others that end before the next line of this one. -/
def InBlock (k : Nat) (outer : List Nat) (read body : List Token) (s : Reader) : Prop :=
  (s.Holds outer read ∧ body = []) ∨ ∃ deeper read', s.Holds (deeper ++ k :: outer) read' ∧
    (∀ i ∈ deeper, k < i) ∧
    read' ++ List.replicate deeper.length .blockEnd = read ++ .blockMapping :: body

theorem Holds.inBlock (h : s.Holds (k :: outer) (read ++ .blockMapping :: body)) :
    s.InBlock k outer read body :=
  Or.inr ⟨[], _, h, by simp, by simp⟩

/-- The key of a line of a block. -/
theorem InBlock.yields_key (hin : s.InBlock k outer read body) (hyields : s.Yields tokens)
    (hnears : s.Nears k (key ++ ':' :: c :: rest)) (houter : ∀ i ∈ outer.head?, i < k)
    (hkey : IsKey key) (hc : (isSpace c || isBreak c) = true) :
    ∃ t : Reader, t.Yields tokens ∧ t.cursor.At (c :: rest) (k + key.length + 1) ∧
      t.keyAllowed = false ∧
      t.Holds (k :: outer) (read ++ .blockMapping :: (body ++ keyTokens key)) := by
  rcases hin with ⟨hholds, rfl⟩ | ⟨deeper, read', hholds, hdeeper, hread⟩
  · obtain ⟨t, hyields, hat, hallowed, ⟨hhead, -⟩ | ⟨-, hholds⟩⟩ := Reader.yields_key hyields hnears
      (show s.Holds ([] ++ outer) read from hholds) hkey hc (by simp)
      fun i hi => Nat.le_of_lt (houter i hi)
    · exact absurd (houter k hhead) (Nat.lt_irrefl k)
    · exact ⟨t, hyields, hat, hallowed, by simpa using hholds⟩
  · obtain ⟨t, hyields, hat, hallowed, ⟨-, hholds⟩ | ⟨hhead, -⟩⟩ := Reader.yields_key hyields hnears
      hholds hkey hc hdeeper (by simp)
    · rw [hread] at hholds
      exact ⟨t, hyields, hat, hallowed, by simpa using hholds⟩
    · exact absurd rfl hhead

/-- A line `key: value` of a block. -/
theorem InBlock.yields_entry (hin : s.InBlock k outer read body) (hyields : s.Yields tokens)
    (hnears : s.Nears k (key ++ ':' :: ' ' :: (written ++ '\n' :: cs)))
    (houter : ∀ i ∈ outer.head?, i < k) (hkey : IsKey key) (hwritten : Written style text written)
    (hleads : Leads 0 cs k₂ next) (hk : k₂ ≤ k ∨ next = []) :
    ∃ t : Reader, t.Yields tokens ∧ t.Nears k₂ next ∧
      t.Holds (k :: outer) (read ++ .blockMapping :: (body ++ entryTokens key style text)) := by
  obtain ⟨t, hyields, hat, hallowed, hholds⟩ :=
    hin.yields_key hyields hnears houter hkey (by decide)
  obtain ⟨u, hyields, hnears, hholds⟩ :=
    yields_value hyields hat hallowed hholds hwritten hleads (by omega) hk
  exact ⟨u, hyields, hnears, by simpa [entryTokens] using hholds⟩

/-- The lines of a block. -/
theorem yields_block (hblock : Block name k line rest) (hin : s.InBlock k outer read body)
    (hyields : s.Yields tokens) (hnears : s.Nears k line) (houter : ∀ i ∈ outer.head?, i < k)
    (hleads : Leads 0 rest k₂ next) (hk : k₂ ≤ k ∨ next = []) :
    ∃ (t : Reader) (entries : List Token), t.Yields tokens ∧ t.Nears k₂ next ∧
      EntryTokens entries ∧ entries ≠ [] ∧ t.InBlock k outer read (body ++ entries) := by
  induction hblock generalizing s outer read body k₂ next with
  | entry key hkey hname hwritten =>
    obtain ⟨t, hyields, hnears, hholds⟩ :=
      hin.yields_entry hyields hnears houter hkey hwritten hleads hk
    exact ⟨t, _, hyields, hnears, .entry _ _ _, by simp [entryTokens], hholds.inBlock⟩
  | @nested k k' key cs inner rest hkey hname hinner hk' hblock ih =>
    obtain ⟨t, hyields, hat, -, hholds⟩ :=
      hin.yields_key hyields hnears houter hkey (by decide)
    obtain ⟨u, entries, hyields, hnears, hentries, hne, hin'⟩ := ih (Or.inl ⟨hholds, rfl⟩) hyields
      ⟨_, _, hat, .newline hinner, Or.inr rfl⟩ (by simpa using hk') hleads
      (hk.imp_left fun hk => by omega)
    refine ⟨u, _, hyields, hnears, .nested key hentries, by simp, ?_⟩
    rcases hin' with ⟨-, hnil⟩ | ⟨deeper, read', hholds, hdeeper, hread⟩
    · exact absurd hnil (by simpa using hne)
    · -- the inner block ends where the next line of this one begins
      refine Or.inr ⟨deeper ++ [k'], read', by simpa using hholds, ?_, ?_⟩
      · intro i hi
        rcases List.mem_append.mp hi with hi | hi
        · exact Nat.lt_trans hk' (hdeeper i hi)
        · rwa [List.mem_singleton.mp hi]
      · rw [List.length_append, ← List.replicate_append_replicate, ← List.append_assoc, hread]
        simp
  | append hfirst hmiddle hrest ihfirst ihrest =>
    obtain ⟨t, first, hyields, hnears, hentries, hne, hin⟩ :=
      ihfirst hin hyields hnears houter hmiddle (Or.inl (Nat.le_refl _))
    obtain ⟨u, second, hyields, hnears, hentries', -, hin⟩ :=
      ihrest hin hyields hnears houter hleads hk
    exact ⟨u, first ++ second, hyields, hnears, hentries.append hentries', by simp [hne],
      by simpa using hin⟩

theorem start_at {line : List Char} (h : Leads 0 cs 0 line) :
    (start cs).Nears 0 line ∧ (start cs).InBlock 0 [] [] [] :=
  ⟨⟨cs, 0, ⟨rfl, rfl, Nat.lt_succ_self _⟩, h, Or.inl rfl⟩,
    Or.inl ⟨⟨rfl, rfl, rfl, rfl⟩, rfl⟩⟩

/-- The tokens of a text begin with those of an entry and of the entries before it. -/
theorem entryTokens_of_reaches {fuel : Nat} (hname : IsKey name)
    (hreaches : Reaches name cs (name ++ ':' :: ' ' :: (written ++ '\n' :: rest)))
    (hwritten : Written style text written) (hleads : Leads 0 rest k next) (hk : k = 0 ∨ next = [])
    (hread : readAll fuel (start cs) = some tokens) :
    ∃ entries, EntryTokens entries ∧
      .blockMapping :: (entries ++ entryTokens name style text) <+: tokens := by
  -- in front of the entry, its block holds the entries before it
  obtain ⟨s, entries, hyields, hnears, hentries, hin⟩ : ∃ (s : Reader) (entries : List Token),
      s.Yields tokens ∧ s.Nears 0 (name ++ ':' :: ' ' :: (written ++ '\n' :: rest)) ∧
      EntryTokens entries ∧ s.InBlock 0 [] [] entries := by
    cases hreaches with
    | first hfirst =>
      obtain ⟨hnears, hin⟩ := start_at hfirst
      exact ⟨_, [], ⟨fuel, hread⟩, hnears, .nil, hin⟩
    | later hfirst hblock hrest =>
      obtain ⟨hnears, hin⟩ := start_at hfirst
      obtain ⟨s, entries, hyields, hnears, hentries, -, hin⟩ :=
        yields_block hblock hin ⟨fuel, hread⟩ hnears (by simp) hrest (Or.inl (Nat.le_refl _))
      exact ⟨s, entries, hyields, hnears, hentries, by simpa using hin⟩
  obtain ⟨t, ⟨fuel', hread'⟩, -, hholds⟩ := hin.yields_entry hyields hnears (by simp) hname hwritten
    hleads (hk.imp_left Nat.le_of_eq)
  exact ⟨entries, hentries, by simpa using kept_of_readAll hholds.keeps hread'⟩

end Reader

end BlockShading.Yaml
