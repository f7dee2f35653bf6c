import BlockShading.Proofs.Decoration.Guides
import BlockShading.Proofs.Text.Indentation

/-!
# The lines whose indentation is shaded

Indentation is not held against the extent of its node, so that it may begin before the node does.
But what is measured goes from one statement of a block to another, both inside the node, however
they are linked, and lines follow the order of offsets. Main statement: the indentation that a
branch shades belongs to its own lines, and only on the first of them may it begin before the
branch.
-/

namespace BlockShading

namespace Target

def origin : Target → Extent
  | asIs extent | padded extent => extent
  | guides body => body

end Target

theorem SyntaxTree.Finished.inside_of_mem_nodesAt {tree : SyntaxTree} (htree : tree.Finished)
    {i : NodeId} {node next : Node} (hnode : tree.node? i = some node) (accessor : Accessor)
    (hnext : next ∈ tree.nodesAt (accessor.positions node)) :
    node.extent.contains next.extent = true := by
  obtain ⟨j, hj, hjnode⟩ := SyntaxTree.mem_nodesAt_iff.mp hnext
  obtain ⟨reached, hreached, hin⟩ :=
    htree.inside_of_chain hnode (Relation.ReflTransGen.single ⟨node, accessor, hnode, hj⟩)
  rw [hjnode] at hreached
  cases hreached
  exact hin

/-- Targets are made from what lies inside the node, also where they go beyond it. -/
theorem Rule.origin_inside {tree : SyntaxTree} (htree : tree.Finished) (rule : Rule) {i : NodeId}
    {node : Node} (hnode : tree.node? i = some node) {t : Target}
    (ht : t ∈ rule.targets tree node) : node.extent.contains t.origin = true := by
  have hinside : ∃ node, tree.node? i = some node ∧ node.extent.contains t.origin = true := by
    refine targets_induction
      (fun i t => ∃ node, tree.node? i = some node ∧ node.extent.contains t.origin = true)
      ?whole ?withNext ?indentation ?leads rule hnode t ht
    case whole | withNext =>
      intro i node hnode
      exact ⟨node, hnode, Extent.contains_refl _⟩
    case indentation =>
      intro i node first last hnode hfirst hlast
      have hfirstIn := htree.inside_of_mem_nodesAt hnode (.list .statements) hfirst
      have hlastIn := htree.inside_of_mem_nodesAt hnode (.list .statements) hlast
      refine ⟨node, hnode, Extent.contains_iff.mpr ⟨?_, ?_⟩⟩
      · exact (Extent.contains_iff.mp hfirstIn).1
      · exact (Extent.contains_iff.mp hlastIn).2
    case leads =>
      rintro i j t ⟨node, accessor, hnode, hj⟩ ⟨inner, hinner, hin⟩
      have hnext := htree.inside_of_mem_nodesAt hnode accessor
        (SyntaxTree.mem_nodesAt_iff.mpr ⟨j, hj, hinner⟩)
      exact ⟨node, hnode, Extent.contains_trans hnext hin⟩
  obtain ⟨again, hagain, hin⟩ := hinside
  rw [hnode] at hagain
  cases hagain
  exact hin

namespace LineIndex

variable (index : LineIndex) {outer body guide : Extent}

/-- What is measured of an extent belongs to lines of any extent around it. -/
theorem exists_line_of_mem_measure (hin : outer.contains body = true)
    (h : guide ∈ index.measure body) :
    ∃ line, index.lineOf outer.start ≤ line ∧ line ≤ index.lineOf outer.stop ∧
      index.IsIndentation line guide := by
  obtain ⟨i, hi⟩ := List.mem_iff_getElem?.mp h
  obtain ⟨hline, rfl⟩ := index.measure_getElem? hi
  obtain ⟨hstart, hstop⟩ := Extent.contains_iff.mp hin
  have hfirst := index.lineOf_mono hstart
  have hlast := index.lineOf_mono hstop
  exact ⟨_, by omega, by omega, index.isIndentation_indentOf _⟩

end LineIndex

namespace Handle

variable {tree : SyntaxTree} {handle : Handle}

/-- The indentation that a branch shades is that of lines from the line of its start to the line of
its end. It begins before the branch on the first of them only, and touches no line but its own. -/
theorem guides_on_own_lines (htree : tree.Finished)
    (hnode : tree.node? handle.id = some handle.node) (hkind : handle.node.kind = .ifElse)
    (lines : LineIndex) {spans : List Span} (hspans : handle.spans tree ⟨lines, true⟩ = .ok spans) :
    let targets := (Rule.ofKind .ifElse).targets tree handle.node
    let first := lines.lineOf handle.node.extent.start
    let last := lines.lineOf handle.node.extent.stop
    spans = (targets.flatMap (Target.extents ⟨lines, true⟩)).map (⟨·, .condition⟩) ∧
      ∀ t ∈ targets, t.isGuides = true → ∀ guide ∈ t.extents ⟨lines, true⟩,
        ∃ line, first ≤ line ∧ line ≤ last ∧ lines.IsIndentation line guide ∧
          (guide.start < handle.node.extent.start → line = first) ∧
          lines.lineOf guide.start = line ∧ ∀ other, lines.Touches guide other → other = line := by
  intro targets first last
  have hcategory : handle.node.kind.category? = some .condition := by
    rw [hkind]
    rfl
  have htargets : Target.ofNode tree handle.node = targets := by
    rw [← Rule.targets_ofKind, hkind]
  constructor
  · rw [← htargets]
    exact ((spans_eq_ok_iff htree hnode hcategory).mp hspans).2
  · intro t ht hguides guide hguide
    have hin := Rule.origin_inside htree _ hnode ht
    cases t with
    | asIs _ | padded _ => cases hguides
    | guides body =>
      obtain ⟨line, hfirst, hlast, hindent⟩ := lines.exists_line_of_mem_measure hin hguide
      have hcount : line < lines.lineCount := hlast.trans_lt (lines.lineOf_lt_lineCount _)
      have hline : lines.lineOf guide.start = line := by
        rw [hindent.start_eq, lines.lineOf_startOf hcount]
      refine ⟨line, hfirst, hlast, hindent, ?_, hline, fun other => hindent.eq_of_touches⟩
      intro hbefore
      have hle := lines.lineOf_mono hbefore.le
      omega

def indentedIf : Handle := ⟨1, ⟨.ifElse, ⟨2, 12⟩, some 0, [2], {}⟩⟩

def indentedText : SyntaxTree where
  source := "  if\x7bx;\n\ty;\x7d"
  nodes :=
    #[⟨.other, ⟨0, 12⟩, none, [1], {}⟩, indentedIf.node,
      ⟨.blockStatement, ⟨4, 12⟩, some 1, [3], { codeBlock := some 3 }⟩,
      ⟨.codeBlock, ⟨4, 12⟩, some 2, [4, 5], { statements := [4, 5] }⟩,
      ⟨.expressionStatement, ⟨5, 7⟩, some 3, [], {}⟩,
      ⟨.expressionStatement, ⟨9, 11⟩, some 3, [], {}⟩]

theorem indentedText_finished : indentedText.Finished :=
  ⟨indentedText.source,
    [.push none .other ⟨0, 12⟩, .push (some 0) .ifElse ⟨2, 12⟩,
      .push (some 1) .blockStatement ⟨4, 12⟩, .push (some 2) .codeBlock ⟨4, 12⟩,
      .push (some 3) .expressionStatement ⟨5, 7⟩, .push (some 3) .expressionStatement ⟨9, 11⟩,
      .editLinks 2 fun links => { links with codeBlock := some 3 },
      .editLinks 3 fun links => { links with statements := [4, 5] }], rfl⟩

/-- The indentation of the first line begins before the branch. -/
theorem guides_on_own_lines_indentedText :
    let lines := LineIndex.ofString indentedText.source
    indentedText.Finished ∧ indentedText.node? indentedIf.id = some indentedIf.node ∧
      indentedIf.spans indentedText ⟨lines, true⟩ =
        .ok [⟨⟨0, 2⟩, .condition⟩, ⟨⟨8, 9⟩, .condition⟩] ∧
      lines.IsIndentation (lines.lineOf 2) ⟨0, 2⟩ := by
  intro lines
  have hnode : indentedText.node? indentedIf.id = some indentedIf.node := rfl
  have hspans : indentedIf.spans indentedText ⟨lines, true⟩ =
      .ok [⟨⟨0, 2⟩, .condition⟩, ⟨⟨8, 9⟩, .condition⟩] := by decide +kernel
  obtain ⟨-, hguides⟩ := guides_on_own_lines indentedText_finished hnode rfl lines hspans
  obtain ⟨line, -, -, hindent, hbefore, -⟩ :=
    hguides (.guides ⟨5, 11⟩) (by decide) rfl ⟨0, 2⟩ (by decide +kernel)
  rw [hbefore (by decide)] at hindent
  exact ⟨indentedText_finished, hnode, hspans, hindent⟩

end Handle

end BlockShading
