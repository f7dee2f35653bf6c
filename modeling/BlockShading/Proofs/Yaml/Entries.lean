import BlockShading.Proofs.Yaml.Blocks
import BlockShading.Yaml.Value

/-!
# Entries of block mappings

What a document has under a key of its top mapping. Main statement: if a text has lines of a block
mapping in front of a line `name: value` at the left, and is a document at all, then `value` is what
the document has under `name`.
-/

namespace BlockShading.Yaml

/-- A node is a mapping with a value under a key. -/
def Node.HasEntry (node key value : Node) : Prop :=
  ∃ entries, node = .mapping entries ∧ (key, value) ∈ entries

namespace Node

variable {handles : List (String × String)} {fuel : Nat} {names names' : Names}
  {node key value : Node} {tokens rest after entries : List Token} {style : Style} {text : String}

theorem HasEntry.prependEntry {key' value' : Node} (h : node.HasEntry key value) :
    (prependEntry key' value' node).HasEntry key value := by
  obtain ⟨entries, rfl, hmem⟩ := h
  exact ⟨_, rfl, List.mem_cons_of_mem _ hmem⟩

theorem exists_mapping_of_readEntries
    (hread : readEntries handles fuel tokens names = some (node, after, names')) :
    ∃ entries, node = mapping entries := by
  induction fuel generalizing tokens names node with
  | zero => simp [readEntries] at hread
  | succ fuel ih =>
    unfold readEntries at hread
    split at hread
    · cases hread
      exact ⟨[], rfl⟩
    · obtain ⟨⟨key, rest, keyNames⟩, -, hread⟩ := Option.bind_eq_some_iff.mp hread
      obtain ⟨⟨value, rest', valueNames⟩, -, hread⟩ := Option.bind_eq_some_iff.mp hread
      obtain ⟨⟨others, rest'', othersNames⟩, hothers, hread⟩ := Option.bind_eq_some_iff.mp hread
      cases hread
      obtain ⟨entries, rfl⟩ := ih hothers
      exact ⟨_, rfl⟩
    · cases hread

def entryEnds : List Token := [.key, .value, .blockEnd]

theorem readUnless_scalar {block compact : Bool}
    (hread : readUnless handles block compact entryEnds fuel (.scalar style text :: rest) names =
      some (node, after, names')) :
    node = scalar style none text ∧ after = rest ∧ names' = names := by
  cases fuel with
  | zero => simp [readUnless] at hread
  | succ fuel =>
    cases fuel with
    | zero => simp [readUnless, stopsAt, entryEnds, read] at hread
    | succ fuel =>
      simp [readUnless, stopsAt, entryEnds, read, properties?] at hread
      obtain ⟨rfl, rfl, rfl⟩ := hread
      exact ⟨rfl, rfl, rfl⟩

/-- An entry is read with its key, its value and the entries behind it. -/
theorem readEntries_key {word : List Char}
    (hread : readEntries handles fuel (keyTokens word ++ rest) names =
      some (node, after, names')) :
    ∃ fuel₁ fuel₂ value others rest' names'',
      readUnless handles true true entryEnds fuel₁ rest names = some (value, rest', names'') ∧
      readEntries handles fuel₂ rest' names'' = some (others, after, names') ∧
      node = prependEntry (scalar .plain none (String.ofList word)) value others := by
  cases fuel with
  | zero => simp [readEntries] at hread
  | succ fuel =>
    simp only [keyTokens, List.cons_append, List.nil_append, readEntries] at hread
    obtain ⟨⟨key, keyRest, keyNames⟩, hkey, hread⟩ := Option.bind_eq_some_iff.mp hread
    obtain ⟨⟨value, valueRest, valueNames⟩, hvalue, hread⟩ := Option.bind_eq_some_iff.mp hread
    obtain ⟨⟨others, othersRest, othersNames⟩, hothers, heq⟩ := Option.bind_eq_some_iff.mp hread
    cases heq
    obtain ⟨rfl, rfl, rfl⟩ := readUnless_scalar hkey
    cases fuel with
    | zero => simp [readValue] at hvalue
    | succ fuel =>
      simp only [readValue] at hvalue
      exact ⟨fuel, fuel + 1, value, others, valueRest, valueNames, hvalue, hothers, rfl⟩

/-- An entry whose value is a text. -/
theorem readEntries_entry {word value : List Char}
    (hread : readEntries handles fuel (entryTokens word style value ++ rest) names =
      some (node, after, names')) :
    ∃ fuel' others, readEntries handles fuel' rest names = some (others, after, names') ∧
      node = prependEntry (scalar .plain none (String.ofList word))
        (scalar style none (String.ofList value)) others := by
  rw [entryTokens, List.append_assoc] at hread
  obtain ⟨_, fuel', found, others, rest', names'', hfound, hothers, rfl⟩ := readEntries_key hread
  obtain ⟨rfl, rfl, rfl⟩ := readUnless_scalar hfound
  exact ⟨fuel', others, hothers, rfl⟩

/-- A mapping is read by its entries. -/
theorem read_blockMapping {compact : Bool}
    (hread : read handles true compact fuel (.blockMapping :: rest) names =
      some (node, after, names')) :
    ∃ fuel', readEntries handles fuel' rest names = some (node, after, names') := by
  cases fuel with
  | zero => simp [read] at hread
  | succ fuel =>
    simp only [read, properties?, Option.bind_eq_bind, Option.bind_some, ↓reduceIte] at hread
    obtain ⟨result, hresult, heq⟩ := Option.bind_eq_some_iff.mp hread
    cases heq
    exact ⟨fuel, hresult⟩

theorem readUnless_blockMapping
    (hread : readUnless handles true true entryEnds fuel (.blockMapping :: rest) names =
      some (node, after, names')) :
    ∃ fuel', readEntries handles fuel' rest names = some (node, after, names') := by
  cases fuel with
  | zero => simp [readUnless] at hread
  | succ fuel =>
    simp only [readUnless, stopsAt, entryEnds] at hread
    exact read_blockMapping hread

theorem readEntries_blockEnd
    (hread : readEntries handles fuel (.blockEnd :: rest) names = some (node, after, names')) :
    after = rest ∧ names' = names := by
  cases fuel with
  | zero => simp [readEntries] at hread
  | succ fuel =>
    simp only [readEntries, Option.some.injEq, Prod.mk.injEq] at hread
    obtain ⟨-, rfl, rfl⟩ := hread
    exact ⟨rfl, rfl⟩

/-- Behind the tokens of some entries the others are read, and nothing of them is lost. -/
theorem readEntries_of_entryTokens (hentries : EntryTokens entries)
    (hread : readEntries handles fuel (entries ++ rest) names = some (node, after, names')) :
    ∃ fuel' others, readEntries handles fuel' rest names = some (others, after, names') ∧
      ∀ key value, others.HasEntry key value → node.HasEntry key value := by
  induction hentries generalizing fuel rest names node after names' with
  | nil => exact ⟨fuel, node, hread, fun key value h => h⟩
  | entry word style text =>
    obtain ⟨fuel', others, hothers, rfl⟩ := readEntries_entry hread
    exact ⟨fuel', others, hothers, fun key value h => h.prependEntry⟩
  | @nested word inner h ih =>
    have htokens : keyTokens word ++ .blockMapping :: inner ++ [.blockEnd] ++ rest =
        keyTokens word ++ .blockMapping :: (inner ++ .blockEnd :: rest) := by simp
    rw [htokens] at hread
    obtain ⟨_, fuel', value, others, rest', names'', hvalue, hothers, rfl⟩ := readEntries_key hread
    obtain ⟨_, hinner⟩ := readUnless_blockMapping hvalue
    obtain ⟨_, _, hend, -⟩ := ih hinner
    obtain ⟨rfl, rfl⟩ := readEntries_blockEnd hend
    exact ⟨fuel', others, hothers, fun key value h => h.prependEntry⟩
  | append hfirst hsecond ihfirst ihsecond =>
    rw [List.append_assoc] at hread
    obtain ⟨fuel', others, hread, hkept⟩ := ihfirst hread
    obtain ⟨fuel'', others', hread, hkept'⟩ := ihsecond hread
    exact ⟨fuel'', others', hread, fun key value h => hkept key value (hkept' key value h)⟩

end Node

namespace Document

open Yaml.Node

variable {document : Document} {node value : Node} {tokens entries : List Token} {style : Style}
  {name text written rest next : List Char} {key source : String} {k : Nat}

/-- An entry at the beginning of the tokens is one of the top mapping. -/
theorem hasEntry_of_entryTokens (hentries : EntryTokens entries)
    (htokens : .blockMapping :: (entries ++ entryTokens name style text) <+: tokens)
    (hdocument : ofTokens? tokens = some document) :
    document.root.HasEntry (scalar .plain none (String.ofList name))
      (scalar style none (String.ofList text)) := by
  obtain ⟨rest, rfl⟩ := htokens
  simp only [List.cons_append, ofTokens?, declarations?, Option.bind_eq_bind, Option.bind_some,
    Nat.lt_irrefl, ↓reduceIte, List.nil_append] at hdocument
  obtain ⟨⟨root, after, names⟩, hroot, hdocument⟩ := Option.bind_eq_some_iff.mp hdocument
  have hsame : document.root = root := by
    dsimp only at hdocument
    split at hdocument
    · cases hdocument
      rfl
    · cases hdocument
  rw [hsame]
  obtain ⟨fuel, hread⟩ := read_blockMapping hroot
  rw [List.append_assoc] at hread
  obtain ⟨fuel', others, hothers, hkept⟩ := readEntries_of_entryTokens hentries hread
  obtain ⟨_, later, hlater, rfl⟩ := readEntries_entry hothers
  obtain ⟨laterEntries, rfl⟩ := exists_mapping_of_readEntries hlater
  exact hkept _ _ ⟨_, rfl, List.mem_cons_self⟩

/-- A field of a record is the only entry with its key. -/
theorem field?_of_hasEntry {fields : List (String × Node)} {field : Option Node}
    (hentry : node.HasEntry (scalar style none key) value)
    (hfields : document.fields? node = some fields) (hfield : field? fields key = some field) :
    field = some value := by
  obtain ⟨entries, rfl, hmem⟩ := hentry
  obtain ⟨entry, hentry, hread⟩ := (mem_of_mapM_eq_some hfields).1 _ hmem
  obtain rfl : (key, value) = entry := by simpa [text?, follow] using hread
  have hfound : (key, value) ∈ fields.filter fun entry => entry.1 == key := by simpa using hentry
  unfold field? at hfield
  split at hfield
  · next hnone =>
    rw [hnone] at hfound
    cases hfound
  · next entry hone =>
    rw [hone, List.mem_singleton] at hfound
    cases hfield
    rw [← hfound]
  · cases hfield

/-- What a document has under a key is what is written on its line, if that line comes after lines
of other entries and is not continued. -/
theorem hasEntry_of_reaches (hname : IsKey name)
    (hreaches : Reaches name source.toList (name ++ ':' :: ' ' :: (written ++ '\n' :: rest)))
    (hwritten : Written style text written) (hleads : Leads 0 rest k next) (hk : k = 0 ∨ next = [])
    (hdocument : document? source = some document) :
    document.root.HasEntry (scalar .plain none (String.ofList name))
      (scalar style none (String.ofList text)) := by
  obtain ⟨tokens, htokens, hdocument⟩ := Option.bind_eq_some_iff.mp hdocument
  simp only [tokens?] at htokens
  split at htokens
  · obtain ⟨entries, hentries, hstart⟩ :=
      Reader.entryTokens_of_reaches hname hreaches hwritten hleads hk htokens
    exact hasEntry_of_entryTokens hentries hstart hdocument
  · cases htokens

end Document

end BlockShading.Yaml
