import BlockShading.Proofs.Tree.Finish
import Mathlib.Data.List.Nodup
import Mathlib.Data.List.Perm.Basic

/-!
# Walks of finished trees

A walk keeps a stack of pending positions and no record of the nodes it has seen. In a finished
tree it needs none: children come behind their parents and have one parent each, so the subtrees of
pending nodes are disjoint and the stack runs empty. `subtree` is the recursive description that
the walk is compared with, and `Walked` is the walk without a bound on its length. Main statement:
the walk of a stack is the subtrees of its entries, one after the other, and the subtree of the
root has every node once.
-/

namespace BlockShading.SyntaxTree

variable {tree : SyntaxTree} {i j c d : Nat} {stack : List NodeId}

def childrenOf (tree : SyntaxTree) (i : NodeId) : List NodeId :=
  ((tree.node? i).map (·.children)).getD []

/-- A node with the nodes at most `depth` below it, each before its children. -/
def subtreeWithin (tree : SyntaxTree) : Nat → NodeId → List NodeId
  | 0, i => [i]
  | depth + 1, i => i :: (tree.childrenOf i).flatMap (tree.subtreeWithin depth)

/-- A node, then the subtrees of its children in order. Positions grow on the way down, so nothing
is deeper than the number of positions behind the node. -/
def subtree (tree : SyntaxTree) (i : NodeId) : List NodeId := tree.subtreeWithin (tree.size - i) i

/-- From a stack of pending positions the walk visits the given ones and ends with an empty
stack. -/
inductive Walked (tree : SyntaxTree) : List NodeId → List NodeId → Prop
  | done : Walked tree [] []
  | visit {i : NodeId} {node : Node} {pending rest : List NodeId}
      (hnode : tree.node? i = some node) (more : Walked tree (node.children ++ pending) rest) :
      Walked tree (i :: pending) (i :: rest)

theorem childrenOf_of_node {node : Node} (hnode : tree.node? i = some node) :
    tree.childrenOf i = node.children := by
  simp [childrenOf, hnode]

theorem exists_node_of_lt (hi : i < tree.size) : ∃ node, tree.node? i = some node :=
  ⟨tree.nodes[i], Array.getElem?_eq_getElem hi⟩

theorem mem_childrenOf_iff : c ∈ tree.childrenOf i ↔ tree.IsChild i c := by
  unfold childrenOf IsChild
  cases tree.node? i <;> simp

theorem subtreeWithin_of_size_le (hi : tree.size ≤ i) (depth : Nat) :
    tree.subtreeWithin depth i = [i] := by
  have hnone : tree.node? i = none := Array.getElem?_eq_none hi
  cases depth with
  | zero => rfl
  | succ depth => simp [subtreeWithin, childrenOf, hnone]

/-- A longer bound on the visits changes nothing once the stack has run empty. -/
theorem Walked.walk_eq {visited : List NodeId} (h : tree.Walked stack visited) {steps : Nat}
    (hsteps : visited.length ≤ steps) : tree.walk steps stack = visited := by
  induction h generalizing steps with
  | done => cases steps <;> rfl
  | visit hnode _ ih =>
    obtain ⟨steps, rfl⟩ : ∃ n, steps = n + 1 := ⟨steps - 1, by simp at hsteps; omega⟩
    simp only [walk, hnode, ih (Nat.le_of_succ_le_succ hsteps)]

namespace Finished

/-- What holds of a node whenever it holds of its children holds of every node. -/
theorem induction_on_children (h : tree.Finished) {P : NodeId → Prop}
    (step : ∀ i, (∀ c, tree.IsChild i c → P c) → P i) (i : NodeId) : P i := by
  induction hn : tree.size - i using Nat.strongRecOn generalizing i with
  | ind n ih =>
    refine step i fun c hc => ih (tree.size - c) ?_ c rfl
    obtain ⟨hlt, hsize, -⟩ := h.isChild_spec hc
    omega

theorem subtreeWithin_eq (h : tree.Finished) (i : NodeId) :
    ∀ depth deeper, tree.size - i ≤ depth → tree.size - i ≤ deeper →
      tree.subtreeWithin depth i = tree.subtreeWithin deeper i := by
  induction i using h.induction_on_children with
  | step i ih =>
    intro depth deeper hdepth hdeeper
    by_cases hi : tree.size ≤ i
    · rw [subtreeWithin_of_size_le hi, subtreeWithin_of_size_le hi]
    obtain ⟨depth, rfl⟩ : ∃ n, depth = n + 1 := ⟨depth - 1, by omega⟩
    obtain ⟨deeper, rfl⟩ : ∃ n, deeper = n + 1 := ⟨deeper - 1, by omega⟩
    simp only [subtreeWithin, List.cons.injEq, true_and]
    refine List.flatMap_congr fun c hc => ?_
    have hchild := mem_childrenOf_iff.mp hc
    obtain ⟨hlt, -, -⟩ := h.isChild_spec hchild
    exact ih c hchild depth deeper (by omega) (by omega)

theorem subtree_eq (h : tree.Finished) (i : NodeId) :
    tree.subtree i = i :: (tree.childrenOf i).flatMap tree.subtree := by
  rw [subtree, h.subtreeWithin_eq i (tree.size - i) (tree.size - i + 1) (Nat.le_refl _)
    (Nat.le_succ _), subtreeWithin]
  congr 1
  refine List.flatMap_congr fun c hc => ?_
  obtain ⟨hlt, -, -⟩ := h.isChild_spec (mem_childrenOf_iff.mp hc)
  exact h.subtreeWithin_eq c _ _ (by omega) (Nat.le_refl _)

theorem mem_subtree_iff (h : tree.Finished) (i j : NodeId) :
    j ∈ tree.subtree i ↔ Relation.ReflTransGen tree.IsChild i j := by
  induction i using h.induction_on_children with
  | step i ih =>
    rw [h.subtree_eq, List.mem_cons, List.mem_flatMap, Relation.ReflTransGen.cases_head_iff,
      eq_comm]
    refine or_congr Iff.rfl (exists_congr fun c => ?_)
    rw [mem_childrenOf_iff]
    exact and_congr_right fun hchild => ih c hchild

theorem le_of_below (h : tree.Finished) (hbelow : Relation.ReflTransGen tree.IsChild i j) :
    i ≤ j := by
  induction hbelow with
  | refl => exact Nat.le_refl i
  | tail _ hchild ih => exact Nat.le_trans ih (Nat.le_of_lt (h.isChild_spec hchild).1)

/-- A sibling is never below a node: its only parent is in front of both. -/
theorem not_below_sibling (h : tree.Finished) (hc : tree.IsChild i c) (hd : tree.IsChild i d)
    (hne : c ≠ d) : ¬ Relation.ReflTransGen tree.IsChild c d := by
  intro hbelow
  rcases Relation.ReflTransGen.cases_tail hbelow with heq | ⟨p, hp, hpd⟩
  · exact hne heq.symm
  · have hparent : p = i := (h.isChild_spec hd).2.2 p hpd
    have hle : c ≤ i := hparent ▸ h.le_of_below hp
    have hlt := (h.isChild_spec hc).1
    omega

theorem disjoint_subtrees (h : tree.Finished) (hc : tree.IsChild i c) (hd : tree.IsChild i d)
    (hne : c ≠ d) : List.Disjoint (tree.subtree c) (tree.subtree d) := by
  intro j hjc hjd
  have hunique : Relator.RightUnique (Function.swap tree.IsChild) := fun j p q hp hq =>
    (h.isChild_spec hq).2.2 p hp
  have hup : ∀ {k}, j ∈ tree.subtree k →
      Relation.ReflTransGen (Function.swap tree.IsChild) j k := fun hj =>
    Relation.reflTransGen_swap.mpr ((h.mem_subtree_iff _ j).mp hj)
  rcases Relation.ReflTransGen.total_of_right_unique hunique (hup hjc) (hup hjd) with hcd | hdc
  · exact h.not_below_sibling hd hc hne.symm (Relation.reflTransGen_swap.mp hcd)
  · exact h.not_below_sibling hc hd hne (Relation.reflTransGen_swap.mp hdc)

theorem nodup_subtree (h : tree.Finished) (i : NodeId) : (tree.subtree i).Nodup := by
  induction i using h.induction_on_children with
  | step i ih =>
    rw [h.subtree_eq, List.nodup_cons, List.nodup_flatMap]
    refine ⟨?_, fun c hc => ih c (mem_childrenOf_iff.mp hc), ?_⟩
    · intro hi
      obtain ⟨c, hc, hic⟩ := List.mem_flatMap.mp hi
      have hle := h.le_of_below ((h.mem_subtree_iff c i).mp hic)
      have hlt := (h.isChild_spec (mem_childrenOf_iff.mp hc)).1
      omega
    · have hnodup : (tree.childrenOf i).Nodup := by
        unfold childrenOf
        cases hnode : tree.node? i with
        | none => simp
        | some node => simpa using h.children_nodup hnode
      refine hnodup.pairwise_of_forall_ne fun c hc d hd hne => ?_
      exact h.disjoint_subtrees (mem_childrenOf_iff.mp hc) (mem_childrenOf_iff.mp hd) hne

theorem below_root_iff (h : tree.Finished) (j : NodeId) :
    Relation.ReflTransGen tree.IsChild 0 j ↔ j < tree.size := by
  constructor
  · intro hbelow
    rcases Relation.ReflTransGen.cases_tail hbelow with rfl | ⟨p, -, hchild⟩
    · exact h.size_pos
    · exact (h.isChild_spec hchild).2.1
  · induction j using Nat.strongRecOn with
    | ind j ih =>
      intro hj
      rcases Nat.eq_zero_or_pos j with rfl | hpos
      · exact .refl
      · obtain ⟨p, hlt, hchild⟩ := h.exists_isChild hpos hj
        exact (ih p hlt (Nat.lt_trans hlt hj)).tail hchild

theorem subtree_zero_perm (h : tree.Finished) :
    (tree.subtree 0).Perm (List.range tree.size) := by
  rw [List.perm_ext_iff_of_nodup (h.nodup_subtree 0) List.nodup_range]
  intro j
  rw [h.mem_subtree_iff, h.below_root_iff, List.mem_range]

/-- The stack runs empty after the subtrees of its entries, whatever the entries are. -/
theorem walked (h : tree.Finished) (hstack : ∀ i ∈ stack, i < tree.size) :
    tree.Walked stack (stack.flatMap tree.subtree) := by
  -- A visit takes one position off what is still to come, so the induction is on its length.
  induction hn : (stack.flatMap tree.subtree).length using Nat.strongRecOn
    generalizing stack with
  | ind n ih =>
    subst hn
    cases stack with
    | nil => exact .done
    | cons i pending =>
      obtain ⟨node, hnode⟩ := exists_node_of_lt (hstack i List.mem_cons_self)
      have hlist : (i :: pending).flatMap tree.subtree =
          i :: (node.children ++ pending).flatMap tree.subtree := by
        rw [List.flatMap_cons, h.subtree_eq, childrenOf_of_node hnode, List.flatMap_append,
          List.cons_append]
      rw [hlist]
      refine .visit hnode (ih _ ?_ ?_ rfl)
      · rw [hlist, List.length_cons]
        exact Nat.lt_succ_self _
      · intro k hk
        rcases List.mem_append.mp hk with hk | hk
        · exact (h.isChild_spec ⟨node, hnode, hk⟩).2.1
        · exact hstack k (List.mem_cons_of_mem i hk)

theorem preorder_walked (h : tree.Finished) : tree.Walked [0] (tree.subtree 0) := by
  have hroot : ∀ i ∈ [0], i < tree.size := by simpa using h.size_pos
  simpa using h.walked hroot

theorem preorder_eq_subtree (h : tree.Finished) : tree.preorder = tree.subtree 0 := by
  refine h.preorder_walked.walk_eq (Nat.le_of_eq ?_)
  simpa using h.subtree_zero_perm.length_eq

theorem subtree_infix_of_below (h : tree.Finished)
    (hbelow : Relation.ReflTransGen tree.IsChild i j) : tree.subtree j <:+: tree.subtree i := by
  induction hbelow with
  | refl => exact List.infix_rfl
  | @tail p c _ hchild ih =>
    refine List.IsInfix.trans ?_ ih
    obtain ⟨before, after, hsplit⟩ := List.append_of_mem (mem_childrenOf_iff.mpr hchild)
    refine ⟨p :: before.flatMap tree.subtree, after.flatMap tree.subtree, ?_⟩
    rw [h.subtree_eq p, hsplit]
    simp

/-- In a walk of distinct positions, what comes first in a block comes before the rest of it. -/
theorem idxOf_lt_of_infix {block walk : List NodeId} (hnodup : walk.Nodup)
    (hblock : i :: block <:+: walk) (hj : j ∈ block) : walk.idxOf i < walk.idxOf j := by
  obtain ⟨before, after, rfl⟩ := hblock
  rw [List.append_assoc, List.cons_append] at hnodup ⊢
  obtain ⟨-, hrest, hdisjoint⟩ := List.nodup_append.mp hnodup
  have hnot : ∀ k ∈ i :: (block ++ after), k ∉ before := fun k hk hbefore =>
    hdisjoint k hbefore k hk rfl
  have hjmem : j ∈ block ++ after := List.mem_append_left after hj
  have hne : i ≠ j := fun heq => (List.nodup_cons.mp hrest).1 (heq ▸ hjmem)
  rw [List.idxOf_append_of_notMem (hnot i List.mem_cons_self),
    List.idxOf_append_of_notMem (hnot j (List.mem_cons_of_mem i hjmem)), List.idxOf_cons_self,
    List.idxOf_cons_ne _ hne]
  omega

theorem idxOf_lt_of_below (h : tree.Finished) (hbelow : Relation.TransGen tree.IsChild i j) :
    tree.preorder.idxOf i < tree.preorder.idxOf j := by
  have hnodup : tree.preorder.Nodup := h.preorder_eq_subtree ▸ h.nodup_subtree 0
  obtain ⟨c, hchild, hcj⟩ := Relation.TransGen.head'_iff.mp hbelow
  have hi : Relation.ReflTransGen tree.IsChild 0 i :=
    (h.below_root_iff i).mpr (Nat.lt_trans (h.isChild_spec hchild).1 (h.isChild_spec hchild).2.1)
  have hblock := h.subtree_infix_of_below hi
  rw [h.subtree_eq i, ← h.preorder_eq_subtree] at hblock
  refine idxOf_lt_of_infix hnodup hblock (List.mem_flatMap.mpr ⟨c, ?_, ?_⟩)
  · exact mem_childrenOf_iff.mpr hchild
  · exact (h.mem_subtree_iff c j).mpr hcj

end Finished

end BlockShading.SyntaxTree
