import BlockShading.Proofs.Decoration.Runs
import BlockShading.Proofs.Decoration.Spans
import BlockShading.Proofs.Text.Positions
import Mathlib.Data.List.Basic

/-!
# Passes without indentation

Indentation is shaded in branches only, and it never fails a node, since measured indentation lies
inside any text. So shading it or not makes no difference to which nodes fail. Main statement: what
a pass draws without indentation is what it draws with it, less the decorations that come from
indentation. For this each decoration is kept with the node and the target it comes from.
-/

namespace BlockShading

open Text

namespace Target

def isGuides : Target → Bool
  | guides _ => true
  | asIs _ | padded _ => false

theorem extents_unguided (lines : LineIndex) (t : Target) :
    t.extents ⟨lines, false⟩ = if t.isGuides then [] else t.extents ⟨lines, true⟩ := by
  cases t <;> rfl

theorem exists_line_of_isGuides {lines : LineIndex} {t : Target} {extent : Extent}
    (ht : t.isGuides = true) (h : extent ∈ t.extents ⟨lines, true⟩) :
    ∃ line, extent = lines.indentOf line := by
  cases t with
  | asIs _ | padded _ => cases ht
  | guides body =>
    obtain ⟨line, -, rfl⟩ := List.mem_map.mp h
    exact ⟨line, rfl⟩

end Target

namespace Rule

def indents : Rule → Bool
  | nothing | whole | withNext => false
  | indentation => true
  | both first second => first.indents || second.indents
  | each _ rule => rule.indents
  | only _ rule => rule.indents

theorem not_isGuides_of_not_indents {tree : SyntaxTree} (rule : Rule) {node : Node} {t : Target}
    (h : rule.indents = false) (ht : t ∈ rule.targets tree node) : t.isGuides = false := by
  induction rule generalizing node with
  | nothing => cases ht
  | whole | withNext =>
    rw [List.mem_singleton.mp ht]
    rfl
  | indentation => cases h
  | both first second ihfirst ihsecond =>
    rw [indents, Bool.or_eq_false_iff] at h
    rcases List.mem_append.mp ht with ht | ht
    · exact ihfirst h.1 ht
    · exact ihsecond h.2 ht
  | each accessor rule ih =>
    obtain ⟨next, -, ht⟩ := List.mem_flatMap.mp ht
    exact ih h ht
  | only test rule ih =>
    rw [targets_only] at ht
    split at ht
    · exact ih h ht
    · cases ht

theorem eq_ifElse_of_indents {kind : NodeKind} (h : (ofKind kind).indents = true) :
    kind = .ifElse := by
  cases kind with
  | loop form => cases form <;> cases h
  | ifElse => rfl
  | _ => cases h

end Rule

/-- Only branches have indentation among their targets. -/
theorem Target.kind_of_isGuides {tree : SyntaxTree} {node : Node} {t : Target}
    (ht : t ∈ Target.ofNode tree node) (hguides : t.isGuides = true) : node.kind = .ifElse := by
  apply Rule.eq_ifElse_of_indents
  cases hindents : (Rule.ofKind node.kind).indents with
  | true => rfl
  | false =>
    rw [← Rule.targets_ofKind] at ht
    rw [Rule.not_isGuides_of_not_indents _ hindents ht] at hguides
    cases hguides

namespace Pass

/-- A decoration with the node and the target that it comes from. -/
structure Piece where
  handle : Handle
  target : Target
  decoration : Decoration

/-- The decorations of a node with their origin; none if the node cannot be shaded. -/
def Setting.pieces (setting : Setting) (handle : Handle) : List Piece :=
  match handle.node.kind.category?, setting.fault? handle with
  | some category, none =>
    (Target.ofNode setting.tree handle.node).flatMap fun target =>
      (target.extents setting.around).map fun extent =>
        ⟨handle, target, setting.paint ⟨extent, category⟩⟩
  | _, _ => []

variable {tree : SyntaxTree} {palette : Palette} {lines : LineIndex} {handle : Handle}

theorem colored_eq_pieces {setting : Setting} (htree : setting.tree.Finished)
    (hnode : setting.tree.node? handle.id = some handle.node) :
    setting.colored handle = (setting.pieces handle).map Piece.decoration := by
  cases hcategory : handle.node.kind.category? with
  | none =>
    have hshaded : handle.node.kind.isShaded = false := by simp [NodeKind.isShaded, hcategory]
    simp [Setting.colored, Setting.pieces, hcategory, Setting.spans_of_not_isShaded hshaded]
  | some category =>
    simp only [Setting.colored, Setting.pieces, Setting.fault?, hcategory,
      Handle.spans_eq htree hnode hcategory]
    cases (Target.ofNode setting.tree handle.node).findSome? (handle.overrun? setting.around) with
    | some error => rfl
    | none => simp [List.map_flatMap, Function.comp_def]

/-- Which nodes fail does not depend on whether indentation is shaded. -/
theorem fault?_unguided (htree : tree.Finished)
    (hnode : tree.node? handle.id = some handle.node) :
    Setting.fault? ⟨tree, palette, ⟨lines, false⟩⟩ handle =
      Setting.fault? ⟨tree, palette, ⟨lines, true⟩⟩ handle := by
  -- Only padded targets overrun, and they ask for the text alone.
  have hoverrun : handle.overrun? ⟨lines, false⟩ = handle.overrun? ⟨lines, true⟩ := by
    funext t
    cases t <;> rfl
  cases hcategory : handle.node.kind.category? with
  | none => simp [Setting.fault?, Handle.spans, hcategory]
  | some category =>
    simp only [Setting.fault?, Handle.spans_eq htree hnode hcategory, hoverrun]
    cases (Target.ofNode tree handle.node).findSome? (handle.overrun? ⟨lines, true⟩) <;> rfl

theorem pieces_unguided (htree : tree.Finished)
    (hnode : tree.node? handle.id = some handle.node) :
    Setting.pieces ⟨tree, palette, ⟨lines, false⟩⟩ handle =
      (Setting.pieces ⟨tree, palette, ⟨lines, true⟩⟩ handle).filter
        fun piece => !piece.target.isGuides := by
  simp only [Setting.pieces, fault?_unguided htree hnode]
  split
  · rw [List.filter_flatMap]
    congr 1
    funext t
    rw [List.filter_map, Target.extents_unguided]
    cases ht : t.isGuides with
    | true => simp [Function.comp_def, ht]
    | false =>
      rw [List.filter_eq_self.mpr fun extent _ => by simp [ht]]
      rfl
  · rfl

/-- Every piece of a pass comes from one of its nodes and one of the targets of that node. -/
theorem spec_of_mem_pieces {setting : Setting} {handles : List Handle} {piece : Piece}
    (h : piece ∈ handles.flatMap setting.pieces) :
    piece.handle ∈ handles ∧ piece.target ∈ Target.ofNode setting.tree piece.handle.node ∧
      piece.decoration.extent ∈ piece.target.extents setting.around ∧
      piece.handle.node.kind.category? = some piece.decoration.category := by
  obtain ⟨handle, hmem, hpiece⟩ := List.mem_flatMap.mp h
  unfold Setting.pieces at hpiece
  split at hpiece
  · next category hcategory _ =>
    obtain ⟨target, htarget, hpiece⟩ := List.mem_flatMap.mp hpiece
    obtain ⟨extent, hextent, rfl⟩ := List.mem_map.mp hpiece
    exact ⟨hmem, htarget, hextent, hcategory⟩
  · cases hpiece

/-- Without indentation a pass reports the same nodes and draws the same decorations, except that
those that come from indentation are left out. They belong to branches and cover blanks only. -/
theorem run_without_guides (htree : tree.Finished) (lines : LineIndex) (palette : Palette)
    (drawn : Array Decoration) {handles : List Handle}
    (hhandles : ∀ handle ∈ handles, tree.node? handle.id = some handle.node) :
    let guided := run ⟨tree, palette, ⟨lines, true⟩⟩ drawn handles
    let plain := run ⟨tree, palette, ⟨lines, false⟩⟩ drawn handles
    plain.report.visited = guided.report.visited ∧
      plain.report.matched = guided.report.matched ∧
      plain.report.violations = guided.report.violations ∧
      ∃ pieces : List Piece,
        guided.decorations.toList = drawn.toList ++ pieces.map Piece.decoration ∧
        plain.decorations.toList = drawn.toList ++
          (pieces.filter fun piece => !piece.target.isGuides).map Piece.decoration ∧
        (∀ piece ∈ pieces, piece.handle ∈ handles ∧
          piece.target ∈ (Rule.ofKind piece.handle.node.kind).targets tree piece.handle.node ∧
          piece.decoration.extent ∈ piece.target.extents ⟨lines, true⟩) ∧
        ∀ piece ∈ pieces, piece.target.isGuides = true →
          let extent := piece.decoration.extent
          piece.handle.node.kind = .ifElse ∧ piece.decoration.category = .condition ∧
            ∀ offset, extent.start ≤ offset → offset < extent.stop →
              ∃ byte, (bytes lines.text)[offset]? = some byte ∧
                LineIndex.isIndent byte = true := by
  intro guided plain
  refine ⟨?_, ?_, ?_, handles.flatMap (Setting.pieces ⟨tree, palette, ⟨lines, true⟩⟩), ?_, ?_,
    ?_, ?_⟩
  · simp only [plain, guided, report_run]
    rfl
  · simp only [plain, guided, report_run]
    rfl
  · simp only [plain, guided, report_run]
    exact List.filterMap_congr fun handle hmem => fault?_unguided htree (hhandles handle hmem)
  · rw [decorations_run, List.map_flatMap]
    congr 1
    exact List.flatMap_congr fun handle hmem => colored_eq_pieces htree (hhandles handle hmem)
  · rw [decorations_run, List.filter_flatMap, List.map_flatMap]
    congr 1
    refine List.flatMap_congr fun handle hmem => ?_
    rw [← pieces_unguided htree (hhandles handle hmem)]
    exact colored_eq_pieces htree (hhandles handle hmem)
  · intro piece hpiece
    obtain ⟨hmem, htarget, hextent, -⟩ := spec_of_mem_pieces hpiece
    rw [Rule.targets_ofKind]
    exact ⟨hmem, htarget, hextent⟩
  · intro piece hpiece hguides extent
    obtain ⟨-, htarget, hextent, hcategory⟩ := spec_of_mem_pieces hpiece
    have hkind := Target.kind_of_isGuides htarget hguides
    rw [hkind] at hcategory
    obtain ⟨line, hline⟩ := Target.exists_line_of_isGuides hguides hextent
    refine ⟨hkind, (Option.some.inj hcategory).symm, fun offset hstart hstop => ?_⟩
    simp only [extent, hline] at hstart hstop
    exact lines.isIndent_of_mem_indentOf line hstart hstop

def tabbedIf : Handle := ⟨1, ⟨.ifElse, ⟨0, 6⟩, some 0, [2], {}⟩⟩

def tabbedStatement : Handle := ⟨4, ⟨.expressionStatement, ⟨3, 5⟩, some 3, [], {}⟩⟩

def brokenIf : Handle := ⟨5, ⟨.ifElse, ⟨6, 8⟩, some 0, [6], {}⟩⟩

def tabbedText : SyntaxTree where
  source := "\x7b\n\ty;\x7dif"
  nodes :=
    #[⟨.other, ⟨0, 8⟩, none, [1, 5], {}⟩, tabbedIf.node,
      ⟨.blockStatement, ⟨0, 6⟩, some 1, [3], { codeBlock := some 3 }⟩,
      ⟨.codeBlock, ⟨0, 6⟩, some 2, [4], { statements := [4] }⟩, tabbedStatement.node,
      brokenIf.node, ⟨.keyword, ⟨6, 8⟩, some 5, [], {}⟩]

theorem tabbedText_finished : tabbedText.Finished :=
  ⟨tabbedText.source,
    [.push none .other ⟨0, 8⟩, .push (some 0) .ifElse ⟨0, 6⟩,
      .push (some 1) .blockStatement ⟨0, 6⟩, .push (some 2) .codeBlock ⟨0, 6⟩,
      .push (some 3) .expressionStatement ⟨3, 5⟩, .push (some 0) .ifElse ⟨6, 8⟩,
      .push (some 5) .keyword ⟨6, 8⟩, .editLinks 2 fun links => { links with codeBlock := some 3 },
      .editLinks 3 fun links => { links with statements := [4] }], rfl⟩

theorem run_without_guides_tabbedText :
    let handles := [brokenIf, tabbedIf, tabbedStatement]
    let lines := LineIndex.ofString tabbedText.source
    let guided := run ⟨tabbedText, .stock ⟨0, 0, 0, 255⟩, ⟨lines, true⟩⟩ #[] handles
    let plain := run ⟨tabbedText, .stock ⟨0, 0, 0, 255⟩, ⟨lines, false⟩⟩ #[] handles
    tabbedText.Finished ∧ (∀ handle ∈ handles, tabbedText.node? handle.id = some handle.node) ∧
      guided.decorations.toList.map (·.extent) = [⟨2, 3⟩, ⟨3, 5⟩] ∧
      plain.decorations.toList.map (·.extent) = [⟨3, 5⟩] ∧
      guided.report.violations.length = 1 ∧
      plain.report.violations = guided.report.violations := by
  intro handles lines guided plain
  have hhandles : ∀ handle ∈ handles, tabbedText.node? handle.id = some handle.node := by decide
  obtain ⟨-, -, hviolations, -⟩ :=
    run_without_guides tabbedText_finished lines (.stock ⟨0, 0, 0, 255⟩) #[] hhandles
  exact ⟨tabbedText_finished, hhandles, by decide +kernel, by decide +kernel, by decide +kernel,
    hviolations⟩

end Pass

end BlockShading
