import BlockShading.Proofs.Decoration.Runs
import BlockShading.Proofs.Tree.Walk

/-!
# Annotating a finished tree

A tree is annotated by a pass over its walk. Since the walk of a finished tree has every node once,
the report of the pass counts the nodes of the tree.
-/

namespace BlockShading

theorem filterMap_getElem?_range {α : Type} (xs : List α) :
    (List.range xs.length).filterMap (fun i => xs[i]?) = xs := by
  induction xs with
  | nil => rfl
  | cons x xs ih =>
    rw [List.length_cons, List.range_succ_eq_map, List.filterMap_cons, List.filterMap_map]
    simpa [Function.comp_def] using ih

namespace SyntaxTree

variable {tree : SyntaxTree}

theorem nodes_of_handles_range (tree : SyntaxTree) :
    ((List.range tree.size).filterMap tree.handle?).map Handle.node = tree.nodes.toList := by
  have hnode : ∀ i, (tree.handle? i).map Handle.node = tree.nodes.toList[i]? := by
    intro i
    rw [handle?, Option.map_map, node?, Array.getElem?_toList]
    cases tree.nodes[i]? <;> rfl
  rw [List.map_filterMap]
  simp only [hnode]
  exact filterMap_getElem?_range tree.nodes.toList

/-- The nodes that a walk visits are those of the tree in some order. -/
theorem Finished.visited_perm (h : tree.Finished) :
    ((tree.preorder.filterMap tree.handle?).map Handle.node).Perm tree.nodes.toList := by
  rw [← nodes_of_handles_range, h.preorder_eq_subtree]
  exact (h.subtree_zero_perm.filterMap _).map _

theorem Finished.report_annotate (h : tree.Finished) (palette : Palette) (around : Surroundings) :
    let report := (Pass.annotate ⟨tree, palette, around⟩).report
    report.visited = tree.size ∧
      report.matched = tree.nodes.toList.countP fun node => node.kind.isShaded := by
  intro report
  have hreport : report = Pass.Setting.account ⟨tree, palette, around⟩
      (tree.preorder.filterMap tree.handle?) := Pass.report_run _ _ _
  have hperm := h.visited_perm
  rw [hreport]
  refine ⟨?_, ?_⟩
  · have hlength := hperm.length_eq
    rwa [List.length_map, Array.length_toList] at hlength
  · rw [← hperm.countP_eq, List.countP_map]
    rfl

/-- The walk of a finished tree ends, and has every node once: each node is followed by the walks
of its children in order. So a node comes after all that are above it, and what is below a node is
one block of the walk. Annotating the tree counts each of its nodes. -/
theorem preorder_visits_all (h : tree.Finished) :
    tree.Walked [0] tree.preorder ∧ tree.preorder.Perm (List.range tree.size) ∧
      tree.preorder = tree.subtree 0 ∧
      (∀ i node, tree.node? i = some node →
        tree.subtree i = i :: node.children.flatMap tree.subtree) ∧
      (∀ i j, Relation.TransGen tree.IsChild i j →
        tree.preorder.idxOf i < tree.preorder.idxOf j) ∧
      (∀ i < tree.size, tree.subtree i <:+: tree.preorder ∧
        ∀ j, j ∈ tree.subtree i ↔ Relation.ReflTransGen tree.IsChild i j) ∧
      ∀ palette around,
        let report := (Pass.annotate ⟨tree, palette, around⟩).report
        report.visited = tree.size ∧
          report.matched = tree.nodes.toList.countP fun node => node.kind.isShaded := by
  have hwalk := h.preorder_eq_subtree
  refine ⟨?_, ?_, hwalk, ?_, ?_, ?_, h.report_annotate⟩
  · rw [hwalk]
    exact h.preorder_walked
  · rw [hwalk]
    exact h.subtree_zero_perm
  · intro i node hnode
    rw [h.subtree_eq, childrenOf_of_node hnode]
  · intro i j hbelow
    exact h.idxOf_lt_of_below hbelow
  · intro i hi
    refine ⟨?_, h.mem_subtree_iff i⟩
    rw [hwalk]
    exact h.subtree_infix_of_below ((h.below_root_iff i).mpr hi)

/-- Two statements pushed before the parts of the first of them. -/
def interleaved : SyntaxTree where
  source := "ab;c;"
  nodes :=
    #[⟨.other, ⟨0, 5⟩, none, [1, 2], {}⟩, ⟨.expressionStatement, ⟨0, 3⟩, some 0, [3, 4], {}⟩,
      ⟨.expressionStatement, ⟨3, 5⟩, some 0, [], {}⟩, ⟨.identifier, ⟨0, 2⟩, some 1, [], {}⟩,
      ⟨.other, ⟨2, 3⟩, some 1, [], {}⟩]

theorem interleaved_finished : interleaved.Finished :=
  ⟨"ab;c;",
    [.push none .other ⟨0, 5⟩, .push (some 0) .expressionStatement ⟨0, 3⟩,
      .push (some 0) .expressionStatement ⟨3, 5⟩, .push (some 1) .identifier ⟨0, 2⟩,
      .push (some 1) .other ⟨2, 3⟩], rfl⟩

theorem preorder_visits_all_interleaved :
    interleaved.Finished ∧ interleaved.preorder = [0, 1, 3, 4, 2] ∧
      interleaved.preorder.Perm (List.range 5) ∧
      interleaved.subtree 1 = [1, 3, 4] ∧ interleaved.subtree 1 <:+: interleaved.preorder ∧
      ∀ palette around,
        let report := (Pass.annotate ⟨interleaved, palette, around⟩).report
        report.visited = 5 ∧ report.matched = 2 := by
  obtain ⟨-, hperm, -, -, -, hblock, hreport⟩ := preorder_visits_all interleaved_finished
  exact ⟨interleaved_finished, rfl, hperm, rfl, (hblock 1 (by decide)).1, hreport⟩

end SyntaxTree

end BlockShading
