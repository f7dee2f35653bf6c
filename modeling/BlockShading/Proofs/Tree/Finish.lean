import BlockShading.Proofs.Tree.Building
import Mathlib.Logic.Relation

/-!
# Finished trees are closed

Finishing a builder looks at every link of every node and refuses the first that leads to no node
or outside its owner. Main statement: it refuses nothing else, so that in a finished tree no chain
of children and links, taken in any order, leaves the nodes of the tree or the extent of the node
it starts from. The containment of children was checked when they were pushed, that of links at
the end; `Leads` puts both into one relation.
-/

namespace BlockShading

namespace TreeBuilder

variable {b : TreeBuilder} {owner target : Nat} {extent : Extent}

/-- The result of checks of which the first that failed is known. -/
def verdict : Option TreeError → Except TreeError Unit
  | some e => .error e
  | none => .ok ()

theorem forM_verdict {α : Type} (fault? : α → Option TreeError) (xs : List α) :
    (xs.forM fun x => verdict (fault? x)) = verdict (xs.findSome? fault?) := by
  induction xs with
  | nil => rfl
  | cons x xs ih =>
    have hcons : ((x :: xs).forM fun x => verdict (fault? x)) =
        (verdict (fault? x)).bind fun _ => xs.forM fun x => verdict (fault? x) := rfl
    rw [hcons, ih, List.findSome?_cons]
    cases fault? x <;> rfl

def Holds (b : TreeBuilder) (extent : Extent) (target : NodeId) : Prop :=
  ∃ head, b.heads[target]? = some head ∧ extent.contains head.extent = true

def targetFault? (b : TreeBuilder) (owner : NodeId) (extent : Extent) (target : NodeId) :
    Option TreeError :=
  match b.heads[target]? with
  | none => some (.unknownNode target)
  | some head =>
    if extent.contains head.extent then none else some (.linkOutsideNode owner target)

theorem targetFault?_eq_none_iff : b.targetFault? owner extent target = none ↔
    b.Holds extent target := by
  unfold targetFault? Holds
  cases b.heads[target]? <;> simp

theorem checkTarget_eq (b : TreeBuilder) (owner : NodeId) (extent : Extent) (target : NodeId) :
    b.checkTarget owner extent target = verdict (b.targetFault? owner extent target) := by
  unfold checkTarget targetFault?
  rw [heads_getElem?]
  cases b.node? target with
  | none => rfl
  | some node =>
    simp only [Option.map_some, Node.head]
    split <;> rfl

/-- What is wrong with the links of a node: the fault of its first bad target. -/
def ownerFault? (b : TreeBuilder) (owner : NodeId) : Option TreeError :=
  (b.heads[owner]?).bind fun head =>
    (b.links owner).targets.findSome? (b.targetFault? owner head.extent)

theorem checkLinks_eq (b : TreeBuilder) :
    b.checkLinks = verdict ((List.range b.nodes.size).findSome? b.ownerFault?) := by
  rw [checkLinks, ← forM_verdict]
  congr 1
  funext owner
  rw [ownerFault?, heads_getElem?]
  cases hnode : b.node? owner with
  | none => rfl
  | some node =>
    simp only [Option.map_some, Option.bind_some, (head_of_node hnode).2.2, ← forM_verdict,
      ← checkTarget_eq]
    rfl

/-- Finishing keeps the nodes as they are, or names the first fault. -/
theorem finish_eq (b : TreeBuilder) :
    b.finish =
      if b.nodes.size = 0 then .error .empty
      else
        match (List.range b.nodes.size).findSome? b.ownerFault? with
        | some e => .error e
        | none => .ok ⟨b.source, b.nodes⟩ := by
  unfold finish
  rw [checkLinks_eq]
  cases (List.range b.nodes.size).findSome? b.ownerFault? <;> rfl

/-- Every link of a node leads to a node inside it. -/
def OwnLinksInside (b : TreeBuilder) (owner : NodeId) : Prop :=
  ∀ head, b.heads[owner]? = some head → ∀ target ∈ (b.links owner).targets,
    b.Holds head.extent target

def LinksInside (b : TreeBuilder) : Prop := ∀ owner, b.OwnLinksInside owner

theorem ownerFault?_eq_none_iff : b.ownerFault? owner = none ↔ b.OwnLinksInside owner := by
  unfold ownerFault? OwnLinksInside
  cases b.heads[owner]? with
  | none => simp
  | some head => simp [List.findSome?_eq_none_iff, targetFault?_eq_none_iff]

theorem ownLinksInside_iff : b.OwnLinksInside owner ↔
    ∀ head, b.heads[owner]? = some head →
      (∀ role target, (b.links owner).get role = some target → b.Holds head.extent target) ∧
        ∀ role, ∀ target ∈ (b.links owner).getList role, b.Holds head.extent target := by
  unfold OwnLinksInside
  simp only [Links.mem_targets_iff]
  constructor
  · intro h head hhead
    exact ⟨fun role target hrole => h head hhead target (Or.inl ⟨role, hrole⟩),
      fun role target hrole => h head hhead target (Or.inr ⟨role, hrole⟩)⟩
  · rintro h head hhead target (⟨role, hrole⟩ | ⟨role, hrole⟩)
    · exact (h head hhead).1 role target hrole
    · exact (h head hhead).2 role target hrole

/-- The first bad target of a node, in the order of its links. -/
theorem ownerFault?_eq_some_iff {e : TreeError} : b.ownerFault? owner = some e ↔
    ∃ head before target after, b.heads[owner]? = some head ∧
      (b.links owner).targets = before ++ target :: after ∧
      (∀ earlier ∈ before, b.Holds head.extent earlier) ∧
      b.targetFault? owner head.extent target = some e := by
  unfold ownerFault?
  rw [Option.bind_eq_some_iff]
  constructor
  · rintro ⟨head, hhead, hfault⟩
    obtain ⟨before, target, after, hsplit, htarget, hbefore⟩ :=
      List.findSome?_eq_some_iff.mp hfault
    exact ⟨head, before, target, after, hhead, hsplit,
      fun earlier h => targetFault?_eq_none_iff.mp (hbefore earlier h), htarget⟩
  · rintro ⟨head, before, target, after, hhead, hsplit, hbefore, htarget⟩
    refine ⟨head, hhead, List.findSome?_eq_some_iff.mpr ⟨before, target, after, hsplit, htarget, ?_⟩⟩
    exact fun earlier h => targetFault?_eq_none_iff.mpr (hbefore earlier h)

theorem findSome?_range_eq_some_iff {α : Type} {n : Nat} {f : Nat → Option α} {a : α} :
    (List.range n).findSome? f = some a ↔ ∃ i < n, f i = some a ∧ ∀ j < i, f j = none := by
  induction n with
  | zero => simp
  | succ n ih =>
    have hlast : [n].findSome? f = f n := by cases h : f n <;> simp [h]
    rw [List.range_succ, List.findSome?_append, Option.or_eq_some_iff, ih, hlast]
    simp only [List.findSome?_eq_none_iff, List.mem_range]
    constructor
    · rintro (⟨i, hi, hf, hbefore⟩ | ⟨hbefore, hf⟩)
      · exact ⟨i, Nat.lt_succ_of_lt hi, hf, hbefore⟩
      · exact ⟨n, Nat.lt_succ_self n, hf, hbefore⟩
    · rintro ⟨i, hi, hf, hbefore⟩
      rcases Nat.lt_succ_iff_lt_or_eq.mp hi with hi | rfl
      · exact Or.inl ⟨i, hi, hf, hbefore⟩
      · exact Or.inr ⟨hbefore, hf⟩

theorem findSome?_ownerFault?_eq_none_iff :
    (List.range b.nodes.size).findSome? b.ownerFault? = none ↔ b.LinksInside := by
  simp only [List.findSome?_eq_none_iff, ownerFault?_eq_none_iff, List.mem_range]
  constructor
  · intro h owner head hhead
    exact h owner (lt_size_of_head hhead) head hhead
  · intro h owner _
    exact h owner

theorem finish_eq_error_iff {e : TreeError} :
    b.finish = .error e ↔
      (b.nodes.size = 0 ∧ e = .empty) ∨
        ∃ owner, (∀ i < owner, b.OwnLinksInside i) ∧ b.ownerFault? owner = some e := by
  have hlt : ∀ {owner : Nat}, b.ownerFault? owner = some e → owner < b.nodes.size := by
    intro owner h
    obtain ⟨head, -, -, -, hhead, -⟩ := ownerFault?_eq_some_iff.mp h
    exact lt_size_of_head hhead
  have hfirst : (List.range b.nodes.size).findSome? b.ownerFault? = some e ↔
      ∃ owner, (∀ i < owner, b.OwnLinksInside i) ∧ b.ownerFault? owner = some e := by
    simp only [findSome?_range_eq_some_iff, ownerFault?_eq_none_iff]
    constructor
    · rintro ⟨owner, -, hfault, hbefore⟩
      exact ⟨owner, hbefore, hfault⟩
    · rintro ⟨owner, hbefore, hfault⟩
      exact ⟨owner, hlt hfault, hfault, hbefore⟩
  rw [finish_eq, ← hfirst]
  by_cases hsize : b.nodes.size = 0
  · simp [hsize, eq_comm]
  · cases (List.range b.nodes.size).findSome? b.ownerFault? <;> simp [hsize]

theorem finish_eq_ok_iff {tree : SyntaxTree} :
    b.finish = .ok tree ↔ 0 < b.nodes.size ∧ b.LinksInside ∧ tree = ⟨b.source, b.nodes⟩ := by
  rw [finish_eq, ← findSome?_ownerFault?_eq_none_iff]
  by_cases hsize : b.nodes.size = 0
  · simp [hsize]
  · have hpos : 0 < b.nodes.size := Nat.pos_of_ne_zero hsize
    cases (List.range b.nodes.size).findSome? b.ownerFault? <;> simp [hsize, hpos, eq_comm]

end TreeBuilder

inductive Accessor where
  | children
  | single (role : Role)
  | list (role : ListRole)

def Accessor.positions (accessor : Accessor) (node : Node) : List NodeId :=
  match accessor with
  | children => node.children
  | single role => (node.links.get role).toList
  | list role => node.links.getList role

namespace SyntaxTree

/-- Whether some accessor of the node at one position leads to another position. -/
def Leads (tree : SyntaxTree) (i j : NodeId) : Prop :=
  ∃ node accessor, tree.node? i = some node ∧ j ∈ Accessor.positions accessor node

end SyntaxTree

namespace TreeBuilder

variable {b : TreeBuilder} {i j : Nat}

theorem holds_of_leads (hb : b.WellFormed) (hlinks : b.LinksInside)
    (h : SyntaxTree.Leads ⟨b.source, b.nodes⟩ i j) :
    ∃ head, b.heads[i]? = some head ∧ b.Holds head.extent j := by
  obtain ⟨node, accessor, hnode, hj⟩ := h
  obtain ⟨hhead, hchildren, hlinksEq⟩ := head_of_node (b := b) hnode
  have hlinked : j ∈ node.links.targets → b.Holds node.extent j := fun hmem =>
    hlinks i node.head hhead j (hlinksEq ▸ hmem)
  refine ⟨node.head, hhead, ?_⟩
  cases accessor with
  | children =>
    obtain ⟨owner, head, howner, hhead', hin⟩ := hb.child_inside (hchildren ▸ hj : j ∈ b.children i)
    rw [hhead] at howner
    cases howner
    exact ⟨head, hhead', hin⟩
  | single role =>
    exact hlinked (Links.mem_targets_iff.mpr (Or.inl ⟨role, Option.mem_toList.mp hj⟩))
  | list role => exact hlinked (Links.mem_targets_iff.mpr (Or.inr ⟨role, hj⟩))

/-- No chain leaves the nodes of a finished builder or the extent it starts from. -/
theorem holds_of_chain (hb : b.WellFormed) (hlinks : b.LinksInside) {head : Head}
    (hhead : b.heads[i]? = some head)
    (h : Relation.ReflTransGen (SyntaxTree.Leads ⟨b.source, b.nodes⟩) i j) :
    b.Holds head.extent j := by
  induction h with
  | refl => exact ⟨head, hhead, Extent.contains_refl _⟩
  | tail _ hstep ih =>
    obtain ⟨middle, hmiddle, hin⟩ := ih
    obtain ⟨again, hagain, last, hlast, hinner⟩ := holds_of_leads hb hlinks hstep
    rw [hmiddle] at hagain
    cases hagain
    exact ⟨last, hlast, Extent.contains_trans hin hinner⟩

/-- Finishing refuses exactly the builders without nodes and those with a link that leads to no
node or outside its owner, for the first such link. What it accepts is closed under chains of
children and links. -/
theorem finish_closed (source : String) (operations : List Operation) :
    let b := (performAll (start source) operations).2
    ((∃ tree, b.finish = .ok tree) ↔
      0 < b.nodes.size ∧ ∀ owner head, b.heads[owner]? = some head →
        (∀ role target, (b.links owner).get role = some target → b.Holds head.extent target) ∧
          ∀ role, ∀ target ∈ (b.links owner).getList role, b.Holds head.extent target) ∧
      (∀ e, b.finish = .error e ↔
        (b.nodes.size = 0 ∧ e = .empty) ∨
          ∃ owner head before target after, b.heads[owner]? = some head ∧
            (∀ i < owner, b.OwnLinksInside i) ∧
            (b.links owner).targets = before ++ target :: after ∧
            (∀ earlier ∈ before, b.Holds head.extent earlier) ∧
            b.targetFault? owner head.extent target = some e) ∧
      ∀ tree, b.finish = .ok tree →
        tree.source = source ∧ tree.nodes = b.nodes ∧
          ∀ i j node, tree.node? i = some node → Relation.ReflTransGen tree.Leads i j →
            ∃ reached, tree.node? j = some reached ∧
              node.extent.contains reached.extent = true := by
  intro b
  obtain ⟨hwell, hsource, -⟩ := performAll_spec (wellFormed_start source) operations
  refine ⟨?_, ?_, ?_⟩
  · simp only [finish_eq_ok_iff, exists_and_left, exists_eq, and_true, LinksInside,
      ownLinksInside_iff]
  · intro e
    rw [finish_eq_error_iff]
    refine or_congr Iff.rfl (exists_congr fun owner => ?_)
    rw [ownerFault?_eq_some_iff]
    constructor
    · rintro ⟨hbefore, head, before, target, after, hhead, hsplit⟩
      exact ⟨head, before, target, after, hhead, hbefore, hsplit⟩
    · rintro ⟨head, before, target, after, hhead, hbefore, hsplit⟩
      exact ⟨hbefore, head, before, target, after, hhead, hsplit⟩
  · intro tree htree
    obtain ⟨-, hlinks, rfl⟩ := finish_eq_ok_iff.mp htree
    refine ⟨hsource, rfl, ?_⟩
    intro i j node hnode hchain
    have hhead := (head_of_node (b := b) hnode).1
    obtain ⟨head, hj, hin⟩ := holds_of_chain hwell hlinks hhead hchain
    obtain ⟨reached, hreached, rfl, -⟩ := exists_node_of_head hj
    exact ⟨reached, hreached, hin⟩

end TreeBuilder

namespace SyntaxTree

/-- Whether some operations build a tree that can be finished to this one. -/
def Finished (tree : SyntaxTree) : Prop :=
  ∃ source operations,
    (TreeBuilder.performAll (TreeBuilder.start source) operations).2.finish = .ok tree

def IsChild (tree : SyntaxTree) (i c : NodeId) : Prop :=
  ∃ node, tree.node? i = some node ∧ c ∈ node.children

namespace Finished

variable {tree : SyntaxTree} {i j c : Nat} {node : Node}

theorem exists_builder (h : tree.Finished) :
    ∃ b : TreeBuilder, b.WellFormed ∧ b.LinksInside ∧ 0 < b.nodes.size ∧
      tree = ⟨b.source, b.nodes⟩ := by
  obtain ⟨source, operations, hfinish⟩ := h
  obtain ⟨hwell, -, -⟩ :=
    TreeBuilder.performAll_spec (TreeBuilder.wellFormed_start source) operations
  obtain ⟨hpos, hlinks, htree⟩ := TreeBuilder.finish_eq_ok_iff.mp hfinish
  exact ⟨_, hwell, hlinks, hpos, htree⟩

theorem size_pos (h : tree.Finished) : 0 < tree.size := by
  obtain ⟨b, -, -, hpos, rfl⟩ := h.exists_builder
  exact hpos

theorem ordered (h : tree.Finished) (hnode : tree.node? i = some node) :
    node.extent.start ≤ node.extent.stop := by
  obtain ⟨b, hwell, -, -, rfl⟩ := h.exists_builder
  exact hwell.ordered (TreeBuilder.head_of_node (b := b) hnode).1

/-- What a chain of children and links reaches is a node inside the one it starts from. -/
theorem inside_of_chain (h : tree.Finished) (hnode : tree.node? i = some node)
    (hchain : Relation.ReflTransGen tree.Leads i j) :
    ∃ reached, tree.node? j = some reached ∧ node.extent.contains reached.extent = true := by
  obtain ⟨b, hwell, hlinks, -, rfl⟩ := h.exists_builder
  have hhead := (TreeBuilder.head_of_node (b := b) hnode).1
  obtain ⟨head, hj, hin⟩ := TreeBuilder.holds_of_chain hwell hlinks hhead hchain
  obtain ⟨reached, hreached, rfl, -⟩ := TreeBuilder.exists_node_of_head hj
  exact ⟨reached, hreached, hin⟩

/-- A child comes behind its parent, and it is a child of no other node. -/
theorem isChild_spec (h : tree.Finished) (hchild : tree.IsChild i c) :
    i < c ∧ c < tree.size ∧ ∀ p, tree.IsChild p c → p = i := by
  obtain ⟨b, hwell, -, -, rfl⟩ := h.exists_builder
  have hmem : ∀ {p : Nat}, IsChild ⟨b.source, b.nodes⟩ p c → c ∈ b.children p := by
    rintro p ⟨owner, howner, hc⟩
    rwa [(TreeBuilder.head_of_node (b := b) howner).2.1]
  obtain ⟨hlt, hsize⟩ := hwell.child_lt_size (hmem hchild)
  refine ⟨hlt, hsize, fun p hp => ?_⟩
  obtain ⟨head, hhead, hparent⟩ := hwell.mem_children_iff.mp (hmem hchild)
  obtain ⟨again, hagain, hother⟩ := hwell.mem_children_iff.mp (hmem hp)
  rw [hhead] at hagain
  cases hagain
  exact Option.some.inj (hother.symm.trans hparent)

theorem children_nodup (h : tree.Finished) (hnode : tree.node? i = some node) :
    node.children.Nodup := by
  obtain ⟨b, hwell, -, -, rfl⟩ := h.exists_builder
  rw [← (TreeBuilder.head_of_node (b := b) hnode).2.1]
  exact (hwell.children_increasing i).imp Nat.ne_of_lt

/-- Every node but the first is a child. -/
theorem exists_isChild (h : tree.Finished) (hpos : 0 < c) (hc : c < tree.size) :
    ∃ i < c, tree.IsChild i c := by
  obtain ⟨b, hwell, -, -, rfl⟩ := h.exists_builder
  obtain ⟨head, hhead⟩ := TreeBuilder.exists_head_of_lt (b := b) hc
  obtain ⟨i, hparent, hlt, -⟩ := hwell.entered_once hhead hpos
  have hmem : c ∈ b.children i := hwell.mem_children_iff.mpr ⟨head, hhead, hparent⟩
  have hsize : c < b.nodes.size := hc
  obtain ⟨owner, howner⟩ := TreeBuilder.exists_head_of_lt (b := b) (i := i) (by omega)
  obtain ⟨node, hnode, -, hchildren, -⟩ := TreeBuilder.exists_node_of_head howner
  exact ⟨i, hlt, node, hnode, hchildren ▸ hmem⟩

end Finished

end SyntaxTree

end BlockShading
