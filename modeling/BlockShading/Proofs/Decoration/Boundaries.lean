import BlockShading.Proofs.Decoration.Runs
import BlockShading.Proofs.Decoration.Spans

/-!
# Decorations between characters

Where every node of a finished tree begins and ends between two characters of the source, so does
every decoration of a pass over that source: a padded target takes in exactly the next character,
however wide, and indentation is made of one-byte characters. The next character is outside the
node only if there is none inside, that is, if the target ends where the node ends.
-/

namespace BlockShading

open Text

/-- Whether every node begins and ends between two characters of the source. -/
def SyntaxTree.OnBoundaries (tree : SyntaxTree) : Prop :=
  ∀ node ∈ tree.nodes.toList,
    IsBoundary tree.source.toList node.extent.start ∧
      IsBoundary tree.source.toList node.extent.stop

instance (tree : SyntaxTree) : Decidable tree.OnBoundaries :=
  inferInstanceAs (Decidable (∀ node ∈ tree.nodes.toList, _))

theorem SyntaxTree.OnBoundaries.of_node {tree : SyntaxTree} (h : tree.OnBoundaries) {i : NodeId}
    {node : Node} (hnode : tree.node? i = some node) :
    IsBoundary tree.source.toList node.extent.start ∧
      IsBoundary tree.source.toList node.extent.stop :=
  h node (Array.mem_toList_iff.mpr (Array.mem_of_getElem? hnode))

structure Extent.Cuts (cs : List Char) (extent : Extent) : Prop where
  ordered : extent.start ≤ extent.stop
  start : IsBoundary cs extent.start
  stop : IsBoundary cs extent.stop

def SpanError.node : SpanError → NodeId
  | outsideExtent id _ _ _ => id
  | outsideText id _ _ _ => id

namespace Handle

variable {tree : SyntaxTree} {handle : Handle} {guides : Bool} {e : Extent} {t : Target}

def ownText (tree : SyntaxTree) (guides : Bool) : Surroundings :=
  ⟨LineIndex.ofString tree.source, guides⟩

theorem cuts_of_reached (htree : tree.Finished) (hbounds : tree.OnBoundaries) {i : NodeId}
    (h : ∃ j reached, Relation.ReflTransGen tree.Leads i j ∧ tree.node? j = some reached ∧
      reached.extent = e) : e.Cuts tree.source.toList := by
  obtain ⟨j, reached, -, hreached, rfl⟩ := h
  obtain ⟨hstart, hstop⟩ := hbounds.of_node hreached
  exact ⟨htree.ordered hreached, hstart, hstop⟩

/-- An extent of whole characters in front of a boundary takes in the next character and stays in
front of it. -/
theorem paddedExtent_of_lt {b : Nat} (hcuts : e.Cuts tree.source.toList)
    (hb : IsBoundary tree.source.toList b) (hlt : e.stop < b) :
    (paddedExtent (ownText tree guides).lines e).Cuts tree.source.toList ∧
      (paddedExtent (ownText tree guides).lines e).stop ≤ b := by
  obtain ⟨hpos, hle, hnext⟩ := hcuts.stop.widthAt_le hb hlt
  have hend : (paddedExtent (ownText tree guides).lines e).stop =
      e.stop + widthAt tree.source.toList e.stop :=
    congrArg (e.stop + ·) (Nat.max_eq_right hpos)
  refine ⟨⟨?_, hcuts.start, hend ▸ hnext⟩, hend ▸ hle⟩
  rw [hend]
  exact Nat.le_trans hcuts.ordered (Nat.le_add_right _ _)

/-- The character after a padded target is outside the node exactly if the target ends where the
node ends. -/
theorem overruns_iff (htree : tree.Finished) (hbounds : tree.OnBoundaries)
    (hnode : tree.node? handle.id = some handle.node)
    (he : .padded e ∈ Target.ofNode tree handle.node) :
    handle.node.extent.stop < (paddedExtent (ownText tree guides).lines e).stop ↔
      e.stop = handle.node.extent.stop := by
  have hin : handle.node.extent.contains e = true := inside_of_mem_ofNode htree hnode he
  constructor
  · intro hover
    rcases Nat.lt_or_eq_of_le (Extent.contains_iff.mp hin).2 with hlt | heq
    · have hcuts := cuts_of_reached htree hbounds (reached_of_mem_ofNode hnode he)
      exact absurd hover (Nat.not_lt.mpr (paddedExtent_of_lt hcuts (hbounds.of_node hnode).2 hlt).2)
    · exact heq
  · intro heq
    -- At least one byte is added, also where the text ends and no character follows.
    have hend : (paddedExtent (ownText tree guides).lines e).stop =
        e.stop + max 1 (widthAt tree.source.toList e.stop) := rfl
    omega

theorem extents_cut (htree : tree.Finished) (hbounds : tree.OnBoundaries)
    (hnode : tree.node? handle.id = some handle.node)
    (ht : t ∈ Target.ofNode tree handle.node)
    (hfits : handle.overrun? (ownText tree guides) t = none) :
    ∀ produced ∈ t.extents (ownText tree guides), produced.Cuts tree.source.toList := by
  have hreached := reached_of_mem_ofNode hnode ht
  intro produced hproduced
  cases t with
  | asIs extent =>
    rw [List.mem_singleton.mp hproduced]
    exact cuts_of_reached htree hbounds hreached
  | padded extent =>
    have hcuts := cuts_of_reached htree hbounds hreached
    have hle := (Extent.contains_iff.mp (inside_of_mem_ofNode htree hnode ht)).2
    have hne : extent.stop ≠ handle.node.extent.stop := by
      rw [ne_eq, ← overruns_iff htree hbounds hnode ht, Nat.not_lt]
      exact overrun?_eq_none_iff.mp hfits extent rfl
    rw [List.mem_singleton.mp hproduced]
    exact (paddedExtent_of_lt hcuts (hbounds.of_node hnode).2 (by omega)).1
  | guides body =>
    rw [Target.extents] at hproduced
    split at hproduced
    · obtain ⟨line, -, rfl⟩ := List.mem_map.mp hproduced
      obtain ⟨hstart, hstop⟩ := (LineIndex.ofString tree.source).isBoundary_indentOf line
      exact ⟨Nat.le_add_right _ _, hstart, hstop⟩
    · cases hproduced

theorem spans_cut (htree : tree.Finished) (hbounds : tree.OnBoundaries)
    (hnode : tree.node? handle.id = some handle.node) {spans : List Span}
    (hspans : handle.spans tree (ownText tree guides) = .ok spans) :
    ∀ span ∈ spans, span.extent.Cuts tree.source.toList := by
  intro span hspan
  cases hcategory : handle.node.kind.category? with
  | none =>
    simp only [Handle.spans, hcategory, Except.ok.injEq] at hspans
    simp [← hspans] at hspan
  | some category =>
    obtain ⟨hfits, rfl⟩ := (spans_eq_ok_iff htree hnode hcategory).mp hspans
    obtain ⟨produced, hproduced, rfl⟩ := List.mem_map.mp hspan
    obtain ⟨t, ht, hproduced⟩ := List.mem_flatMap.mp hproduced
    exact extents_cut htree hbounds hnode ht (hfits t ht) produced hproduced

theorem node_of_spans_eq_error (htree : tree.Finished)
    (hnode : tree.node? handle.id = some handle.node)
    (hshaded : handle.node.kind.isShaded = true) {around : Surroundings} {error : SpanError}
    (h : handle.spans tree around = .error error) : error.node = handle.id := by
  rw [spans_eq_error_iff htree hnode hshaded] at h
  obtain ⟨t, -, hover⟩ := List.exists_of_findSome?_eq_some h
  obtain ⟨e, -, -, rfl⟩ := overrun?_eq_some_iff.mp hover
  rfl

end Handle

namespace Pass

variable {tree : SyntaxTree} {handles : List Handle}

/-- A pass over nodes of its tree reports one of them exactly if that node itself fails. -/
theorem exists_violation_iff {setting : Setting} (htree : setting.tree.Finished)
    (drawn : Array Decoration)
    (hhandles : ∀ handle ∈ handles, setting.tree.node? handle.id = some handle.node)
    {handle : Handle} (hmem : handle ∈ handles) :
    (∃ error ∈ (run setting drawn handles).report.violations, error.node = handle.id) ↔
      ∃ error, handle.spans setting.tree setting.around = .error error := by
  have hfault : ∀ {other : Handle} {error : SpanError}, other ∈ handles →
      setting.fault? other = some error → error.node = other.id := by
    intro other error hother herror
    exact Handle.node_of_spans_eq_error htree (hhandles other hother)
      (Setting.isShaded_of_fault herror) (Setting.fault?_eq_some_iff.mp herror)
  have hviolations : (run setting drawn handles).report.violations =
      handles.filterMap setting.fault? := by
    rw [report_run]
    rfl
  rw [hviolations]
  simp only [List.mem_filterMap, ← Setting.fault?_eq_some_iff]
  constructor
  · rintro ⟨error, ⟨other, hother, herror⟩, hid⟩
    -- Nodes of the tree at one position are the same node.
    have hsame : other.id = handle.id := (hfault hother herror).symm.trans hid
    have hnodes : some other.node = some handle.node := by
      rw [← hhandles other hother, hsame, hhandles handle hmem]
    obtain rfl : other = handle := by
      cases other
      cases handle
      cases hsame
      cases hnodes
      rfl
    exact ⟨error, herror⟩
  · rintro ⟨error, herror⟩
    exact ⟨error, ⟨handle, hmem, herror⟩, hfault hmem herror⟩

/-- A pass over a tree on character boundaries and its own source draws stretches of whole
characters only, and skips exactly the nodes in which a padded target ends at the end of the
node. -/
theorem run_on_boundaries (htree : tree.Finished) (hbounds : tree.OnBoundaries) (palette : Palette)
    (guides : Bool) (drawn : Array Decoration)
    (hhandles : ∀ handle ∈ handles, tree.node? handle.id = some handle.node) :
    let setting : Setting := ⟨tree, palette, ⟨LineIndex.ofString tree.source, guides⟩⟩
    let state := run setting drawn handles
    (∃ added, state.decorations.toList = drawn.toList ++ added ∧ ∀ decoration ∈ added,
      let extent := decoration.extent
      extent.start ≤ extent.stop ∧ extent.stop ≤ tree.source.utf8ByteSize ∧
        IsBoundary tree.source.toList extent.start ∧ IsBoundary tree.source.toList extent.stop ∧
        (slice? tree.source.toList extent.start extent.stop).isSome) ∧
      ∀ handle ∈ handles, handle.node.kind.isShaded = true →
        ((∃ error ∈ state.report.violations, error.node = handle.id) ↔
          ∃ e, .padded e ∈ (Rule.ofKind handle.node.kind).targets tree handle.node ∧
            e.stop = handle.node.extent.stop) := by
  intro setting state
  refine ⟨⟨handles.flatMap setting.colored, decorations_run .., ?_⟩, ?_⟩
  · intro decoration hdecoration extent
    obtain ⟨handle, hmem, hcolored⟩ := List.mem_flatMap.mp hdecoration
    unfold Setting.colored at hcolored
    split at hcolored
    · next spans hspans =>
      obtain ⟨span, hspan, rfl⟩ := List.mem_map.mp hcolored
      have hcuts := Handle.spans_cut htree hbounds (hhandles handle hmem) hspans span hspan
      have hslice := isSome_slice?_iff.mpr ⟨hcuts.ordered, hcuts.start, hcuts.stop⟩
      rw [utf8ByteSize_eq_byteLength]
      exact ⟨hcuts.ordered, hcuts.stop.le, hcuts.start, hcuts.stop, hslice⟩
    · cases hcolored
  · intro handle hmem hshaded
    have hnode := hhandles handle hmem
    rw [exists_violation_iff htree drawn hhandles hmem,
      Handle.exists_error_iff htree hnode hshaded, Rule.targets_ofKind]
    refine exists_congr fun e => and_congr_right fun he => ?_
    exact Handle.overruns_iff htree hbounds hnode he

def arrowIf : Handle := ⟨1, ⟨.ifElse, ⟨3, 9⟩, some 0, [2], {}⟩⟩

def bareElse : Handle := ⟨3, ⟨.ifElse, ⟨10, 14⟩, some 0, [4], {}⟩⟩

def arrowText : SyntaxTree where
  source := "é if→x else"
  nodes :=
    #[⟨.other, ⟨0, 14⟩, none, [1, 3], {}⟩, arrowIf.node, ⟨.keyword, ⟨3, 5⟩, some 1, [], {}⟩,
      bareElse.node, ⟨.keyword, ⟨10, 14⟩, some 3, [], {}⟩]

theorem arrowText_finished : arrowText.Finished :=
  ⟨arrowText.source,
    [.push none .other ⟨0, 14⟩, .push (some 0) .ifElse ⟨3, 9⟩, .push (some 1) .keyword ⟨3, 5⟩,
      .push (some 0) .ifElse ⟨10, 14⟩, .push (some 3) .keyword ⟨10, 14⟩], rfl⟩

theorem run_on_boundaries_arrowText :
    let setting : Setting :=
      ⟨arrowText, .stock ⟨0, 0, 0, 255⟩, ⟨LineIndex.ofString arrowText.source, true⟩⟩
    let state := run setting #[] [bareElse, arrowIf]
    arrowText.Finished ∧ arrowText.OnBoundaries ∧
      state.decorations.toList.map (·.extent) = [⟨3, 8⟩] ∧
      (∀ decoration ∈ state.decorations.toList, (slice? arrowText.source.toList
        decoration.extent.start decoration.extent.stop).isSome) ∧
      (∃ error ∈ state.report.violations, error.node = bareElse.id) ∧
      ¬ ∃ error ∈ state.report.violations, error.node = arrowIf.id := by
  intro setting state
  have hbounds : arrowText.OnBoundaries := by decide +kernel
  have hhandles : ∀ handle ∈ [bareElse, arrowIf],
      arrowText.node? handle.id = some handle.node := by decide
  obtain ⟨⟨added, hadded, hcuts⟩, hskipped⟩ :=
    run_on_boundaries arrowText_finished hbounds (.stock ⟨0, 0, 0, 255⟩) true #[] hhandles
  refine ⟨arrowText_finished, hbounds, by decide +kernel, ?_, ?_, ?_⟩
  · intro decoration hmem
    have hmem' : decoration ∈ added := by simpa [state, setting, hadded] using hmem
    exact (hcuts decoration hmem').2.2.2.2
  · exact (hskipped bareElse (by decide) rfl).mpr ⟨⟨10, 14⟩, by decide, rfl⟩
  · intro hviolation
    obtain ⟨e, he, hstop⟩ := (hskipped arrowIf (by decide) rfl).mp hviolation
    have hkeyword : .padded e ∈ [Target.padded ⟨3, 5⟩] := he
    cases List.mem_singleton.mp hkeyword
    cases hstop

end Pass

end BlockShading
