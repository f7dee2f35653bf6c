import BlockShading.Yaml.Token
import Mathlib.Tactic.SplitIfs

/-!
# Tokens that stay

A token may still be put in front of others when a key turns out to have begun there, but never in
front of those that came before every open candidate. Main statement: what has been read while no
candidate is open is the beginning of all tokens, whatever follows in the text.
-/

namespace BlockShading.Yaml

/-- What comes out of a partial function on a list comes from its items, and from all of them. -/
theorem mem_of_mapM_eq_some {α β : Type} {f : α → Option β} {xs : List α} {ys : List β}
    (h : xs.mapM f = some ys) :
    (∀ x ∈ xs, ∃ y ∈ ys, f x = some y) ∧ ∀ y ∈ ys, ∃ x ∈ xs, f x = some y := by
  induction xs generalizing ys with
  | nil =>
    cases h
    simp
  | cons x xs ih =>
    rw [List.mapM_cons] at h
    obtain ⟨y, hy, h⟩ := Option.bind_eq_some_iff.mp h
    obtain ⟨rest, hrest, h⟩ := Option.bind_eq_some_iff.mp h
    cases h
    obtain ⟨hxs, hys⟩ := ih hrest
    refine ⟨List.forall_mem_cons.mpr ⟨⟨y, List.mem_cons_self, hy⟩, fun z hz => ?_⟩,
      List.forall_mem_cons.mpr ⟨⟨x, List.mem_cons_self, hy⟩, fun z hz => ?_⟩⟩
    · obtain ⟨w, hw, hzw⟩ := hxs z hz
      exact ⟨w, List.mem_cons_of_mem _ hw, hzw⟩
    · obtain ⟨w, hw, hzw⟩ := hys z hz
      exact ⟨w, List.mem_cons_of_mem _ hw, hzw⟩

namespace Reader

variable {s t : Reader} {fixed : List Token} {token : Token} {position : Nat}

/-- Some tokens, the latest first, are behind every place where another may be put in. -/
structure Keeps (fixed : List Token) (s : Reader) : Prop where
  suffix : fixed <:+ s.emitted
  count : s.count = s.emitted.length
  candidates : ∀ c, some c ∈ s.candidates → fixed.length ≤ c.position

namespace Keeps

theorem length_le (h : Keeps fixed s) : fixed.length ≤ s.count := by
  rw [h.count]
  exact h.suffix.length_le

/-- Only tokens and candidates matter. -/
theorem congr (h : Keeps fixed s) (hemitted : t.emitted = s.emitted) (hcount : t.count = s.count)
    (hcandidates : ∀ c, some c ∈ t.candidates → some c ∈ s.candidates) : Keeps fixed t where
  suffix := hemitted ▸ h.suffix
  count := by rw [hcount, hemitted, h.count]
  candidates := fun c hc => h.candidates c (hcandidates c hc)

theorem emit (h : Keeps fixed s) (token : Token) : Keeps fixed (s.emit token) where
  suffix := h.suffix.trans (List.suffix_cons token _)
  count := by simp [Reader.emit, h.count]
  candidates := h.candidates

theorem indicator (h : Keeps fixed s) (width : Nat) (token : Token) :
    Keeps fixed (s.indicator width token) := by
  have hpassed : Keeps fixed { s with cursor := s.cursor.skipBy width } :=
    h.congr rfl rfl fun _ hc => hc
  exact hpassed.emit token

theorem emitAt (h : Keeps fixed s) (hposition : fixed.length ≤ position) (token : Token) :
    Keeps fixed (s.emitAt position token) where
  suffix := by
    obtain ⟨later, hlater⟩ := h.suffix
    have hcount := h.count
    have hlength : s.count - position ≤ later.length := by
      rw [← hlater, List.length_append] at hcount
      omega
    refine ⟨s.emitted.take (s.count - position) ++ token :: later.drop (s.count - position), ?_⟩
    rw [List.append_assoc, List.cons_append, ← List.drop_append_of_le_length hlength, hlater]
    rfl
  count := by
    have hcount := h.count
    simp only [Reader.emitAt, List.length_append, List.length_take, List.length_cons,
      List.length_drop]
    omega
  candidates := h.candidates

theorem closeBlocks (h : Keeps fixed s) (column : Option Nat) :
    Keeps fixed (s.closeBlocks column) := by
  unfold Reader.closeBlocks
  split
  · exact h
  · exact ⟨h.suffix.trans (List.suffix_append _ _),
      by simp only [List.length_append, List.length_replicate, h.count]; omega, h.candidates⟩

theorem openBlock (h : Keeps fixed s) (column : Nat) (add : Reader → Reader)
    (hadd : Keeps fixed (add s)) : Keeps fixed (s.openBlock column add) := by
  unfold Reader.openBlock
  extract_lets deeper
  split
  · exact hadd.congr rfl rfl fun _ hc => hc
  · exact h

theorem dropCandidate (h : Keeps fixed s) (ht : s.dropCandidate = some t) : Keeps fixed t := by
  unfold Reader.dropCandidate at ht
  split at ht
  · next c rest hcandidates =>
    split at ht
    · cases ht
    · cases ht
      refine h.congr rfl rfl fun d hd => ?_
      rw [hcandidates]
      exact List.mem_cons_of_mem _ (by simpa using hd)
  · cases ht
    exact h

theorem saveCandidate (h : Keeps fixed s) (ht : s.saveCandidate = some t) : Keeps fixed t := by
  unfold Reader.saveCandidate at ht
  split at ht
  · obtain ⟨dropped, hdropped, hsaved⟩ := Option.bind_eq_some_iff.mp ht
    have hkeeps := h.dropCandidate hdropped
    cases hsaved
    refine ⟨hkeeps.suffix, hkeeps.count, fun c hc => ?_⟩
    rcases List.mem_cons.mp hc with hnew | hold
    · cases hnew
      exact hkeeps.length_le
    · exact hkeeps.candidates c (List.mem_of_mem_drop hold)
  · cases ht
    exact h

theorem dropStale (h : Keeps fixed s) (ht : s.dropStale = some t) : Keeps fixed t := by
  obtain ⟨kept, hkept, ht⟩ := Option.bind_eq_some_iff.mp ht
  cases ht
  refine h.congr rfl rfl fun c hc => ?_
  obtain ⟨candidate, hmem, hcandidate⟩ := (mem_of_mapM_eq_some hkept).2 _ hc
  split at hcandidate
  · cases hcandidate
  · split at hcandidate
    · split at hcandidate <;> cases hcandidate
    · cases hcandidate
      exact hmem

theorem skipGap (h : Keeps fixed s) (fuel : Nat) : Keeps fixed (s.skipGap fuel) := by
  induction fuel generalizing s with
  | zero => exact h
  | succ fuel ih =>
    unfold Reader.skipGap
    extract_lets cur tabs cur' cur''
    split
    · exact ih (h.congr rfl rfl fun _ hc => hc)
    · exact h.congr rfl rfl fun _ hc => hc

end Keeps

section Fetching

variable {make : String → Token} {style : Style}

/-- Appending a token, wherever the cursor is and whatever may come next. -/
theorem Keeps.moved (h : Keeps fixed s) (cur : Cursor) (keyAllowed : Bool) (token : Token) :
    Keeps fixed ({ s with cursor := cur, keyAllowed := keyAllowed }.emit token) := by
  have hmoved : Keeps fixed { s with cursor := cur, keyAllowed := keyAllowed } :=
    h.congr rfl rfl fun _ hc => hc
  exact hmoved.emit token

theorem keeps_fetchDirective (h : Keeps fixed s) (ht : s.fetchDirective = some t) :
    Keeps fixed t := by
  obtain ⟨dropped, hdropped, ht⟩ := Option.bind_eq_some_iff.mp ht
  have hkeeps := (h.closeBlocks none).dropCandidate hdropped
  dsimp only at ht
  split_ifs at ht
  obtain ⟨⟨token, cur⟩, -, ht⟩ := Option.bind_eq_some_iff.mp ht
  dsimp only at ht
  split_ifs at ht
  cases ht
  exact hkeeps.moved _ _ _

theorem keeps_fetchMarker (h : Keeps fixed s) (ht : s.fetchMarker token = some t) :
    Keeps fixed t := by
  obtain ⟨dropped, hdropped, ht⟩ := Option.bind_eq_some_iff.mp ht
  cases ht
  exact ((h.closeBlocks none).dropCandidate hdropped).moved _ _ _

theorem keeps_fetchFlowStart (h : Keeps fixed s) (ht : s.fetchFlowStart token = some t) :
    Keeps fixed t := by
  obtain ⟨saved, hsaved, ht⟩ := Option.bind_eq_some_iff.mp ht
  cases ht
  have hkeeps := h.saveCandidate hsaved
  have hopened : Keeps fixed { saved with candidates := none :: saved.candidates } :=
    hkeeps.congr rfl rfl fun c hc => by simpa using hc
  exact hopened.moved _ _ _

theorem keeps_fetchFlowEnd (h : Keeps fixed s) (ht : s.fetchFlowEnd token = some t) :
    Keeps fixed t := by
  obtain ⟨dropped, hdropped, ht⟩ := Option.bind_eq_some_iff.mp ht
  cases ht
  have hkeeps := h.dropCandidate hdropped
  have hclosed : Keeps fixed { dropped with candidates :=
      if dropped.inFlow then dropped.candidates.drop 1 else dropped.candidates } := by
    refine hkeeps.congr rfl rfl fun c hc => ?_
    dsimp only at hc
    split at hc
    · exact List.mem_of_mem_drop hc
    · exact hc
  exact hclosed.moved _ _ _

theorem keeps_fetchFlowEntry (h : Keeps fixed s) (ht : s.fetchFlowEntry = some t) :
    Keeps fixed t := by
  obtain ⟨dropped, hdropped, ht⟩ := Option.bind_eq_some_iff.mp ht
  cases ht
  exact (h.dropCandidate hdropped).moved _ _ _

theorem keeps_fetchBlockEntry (h : Keeps fixed s) (ht : s.fetchBlockEntry = some t) :
    Keeps fixed t := by
  unfold fetchBlockEntry at ht
  split at ht
  · cases ht
  · obtain ⟨dropped, hdropped, ht⟩ := Option.bind_eq_some_iff.mp ht
    cases ht
    exact ((h.openBlock _ _ (h.emit _)).dropCandidate hdropped).moved _ _ _

theorem keeps_fetchKey (h : Keeps fixed s) (ht : s.fetchKey = some t) : Keeps fixed t := by
  unfold fetchKey at ht
  split at ht
  · cases ht
  · obtain ⟨dropped, hdropped, ht⟩ := Option.bind_eq_some_iff.mp ht
    cases ht
    exact ((h.openBlock _ _ (h.emit _)).dropCandidate hdropped).moved _ _ _

theorem keeps_fetchValue (h : Keeps fixed s) (ht : s.fetchValue = some t) : Keeps fixed t := by
  unfold fetchValue at ht
  split at ht
  · next c rest hcandidates =>
    cases ht
    have hposition : fixed.length ≤ c.position := h.candidates c (by rw [hcandidates]; simp)
    have hkey := h.emitAt hposition .key
    have hopened := hkey.openBlock c.column (·.emitAt c.position .blockMapping)
      (hkey.emitAt hposition .blockMapping)
    have hused : Keeps fixed { (s.emitAt c.position .key).openBlock c.column
        (·.emitAt c.position .blockMapping) with candidates := none :: rest } := by
      refine ⟨hopened.suffix, hopened.count, fun d hd => h.candidates d ?_⟩
      rw [hcandidates]
      exact List.mem_cons_of_mem _ (by simpa using hd)
    exact hused.moved _ _ _
  · split at ht
    · cases ht
    · cases ht
      exact (h.openBlock _ _ (h.emit _)).moved _ _ _

theorem keeps_fetchName (h : Keeps fixed s) (ht : s.fetchName make = some t) : Keeps fixed t := by
  obtain ⟨saved, hsaved, ht⟩ := Option.bind_eq_some_iff.mp ht
  dsimp only at ht
  split at ht
  · cases ht
  · cases ht
    exact (h.saveCandidate hsaved).moved _ _ _

theorem keeps_fetchTag (h : Keeps fixed s) (ht : s.fetchTag = some t) : Keeps fixed t := by
  obtain ⟨saved, hsaved, ht⟩ := Option.bind_eq_some_iff.mp ht
  obtain ⟨⟨handle, suffix, cur⟩, -, ht⟩ := Option.bind_eq_some_iff.mp ht
  dsimp only at ht
  split at ht
  · cases ht
    exact (h.saveCandidate hsaved).moved _ _ _
  · cases ht

theorem keeps_fetchBlockScalar (h : Keeps fixed s) (ht : s.fetchBlockScalar style = some t) :
    Keeps fixed t := by
  obtain ⟨dropped, hdropped, ht⟩ := Option.bind_eq_some_iff.mp ht
  obtain ⟨⟨text, cur⟩, -, ht⟩ := Option.bind_eq_some_iff.mp ht
  cases ht
  exact (h.dropCandidate hdropped).moved _ _ _

theorem keeps_fetchQuoted (h : Keeps fixed s) (ht : s.fetchQuoted style = some t) :
    Keeps fixed t := by
  obtain ⟨saved, hsaved, ht⟩ := Option.bind_eq_some_iff.mp ht
  obtain ⟨⟨text, cur⟩, -, ht⟩ := Option.bind_eq_some_iff.mp ht
  cases ht
  exact (h.saveCandidate hsaved).moved _ _ _

theorem keeps_fetchPlain (h : Keeps fixed s) (ht : s.fetchPlain = some t) : Keeps fixed t := by
  obtain ⟨saved, hsaved, ht⟩ := Option.bind_eq_some_iff.mp ht
  obtain ⟨⟨text, broken, cur⟩, -, ht⟩ := Option.bind_eq_some_iff.mp ht
  cases ht
  exact (h.saveCandidate hsaved).moved _ _ _

theorem keeps_ite {p : Prop} [Decidable p] {first second : Option Reader}
    (hfirst : ∀ t, first = some t → Keeps fixed t)
    (hsecond : ∀ t, second = some t → Keeps fixed t) :
    ∀ t, (if p then first else second) = some t → Keeps fixed t := by
  intro t ht
  split at ht
  · exact hfirst t ht
  · exact hsecond t ht

/-- No token is put in front of those that stay. -/
theorem keeps_fetch (c : Char) (h : Keeps fixed s) : ∀ t, s.fetch c = some t → Keeps fixed t := by
  unfold fetch
  refine keeps_ite (fun t => keeps_fetchDirective h) ?_
  refine keeps_ite (fun t => keeps_fetchMarker h) ?_
  refine keeps_ite (fun t => keeps_fetchMarker h) ?_
  refine keeps_ite (fun t => keeps_fetchFlowStart h) ?_
  refine keeps_ite (fun t => keeps_fetchFlowStart h) ?_
  refine keeps_ite (fun t => keeps_fetchFlowEnd h) ?_
  refine keeps_ite (fun t => keeps_fetchFlowEnd h) ?_
  refine keeps_ite (fun t => keeps_fetchFlowEntry h) ?_
  refine keeps_ite (fun t => keeps_fetchBlockEntry h) ?_
  refine keeps_ite (fun t => keeps_fetchKey h) ?_
  refine keeps_ite (fun t => keeps_fetchValue h) ?_
  refine keeps_ite (fun t => keeps_fetchName h) ?_
  refine keeps_ite (fun t => keeps_fetchName h) ?_
  refine keeps_ite (fun t => keeps_fetchTag h) ?_
  refine keeps_ite (fun t => keeps_fetchBlockScalar h) ?_
  refine keeps_ite (fun t => keeps_fetchBlockScalar h) ?_
  refine keeps_ite (fun t => keeps_fetchQuoted h) ?_
  refine keeps_ite (fun t => keeps_fetchQuoted h) ?_
  refine keeps_ite (fun t => keeps_fetchPlain h) ?_
  intro t ht
  cases ht

end Fetching

/-- Tokens that stay are the first of all tokens. -/
theorem kept_of_readAll {fuel : Nat} {tokens : List Token} (h : Keeps fixed s)
    (hread : readAll fuel s = some tokens) : fixed.reverse <+: tokens := by
  induction fuel generalizing s with
  | zero => cases hread
  | succ fuel ih =>
    obtain ⟨fresh, hfresh, hread⟩ := Option.bind_eq_some_iff.mp hread
    have hkeeps := ((h.skipGap _).dropStale hfresh).closeBlocks (some fresh.cursor.column)
    dsimp only at hread
    split at hread
    · obtain ⟨last, hlast, rfl⟩ := Option.map_eq_some_iff.mp hread
      have hsuffix := ((hkeeps.closeBlocks none).dropCandidate hlast).suffix
      exact List.reverse_prefix.mpr hsuffix
    · obtain ⟨after, hafter, hread⟩ := Option.bind_eq_some_iff.mp hread
      exact ih (keeps_fetch _ hkeeps after hafter) hread

end Reader

end BlockShading.Yaml
