import BlockShading.Proofs.ParseTree.Linking
import BlockShading.Proofs.Tree.Walk
import Mathlib.Data.List.Perm.Subperm
import Mathlib.Data.List.Sort

/-!
# The shape of lowered trees and their links

Every link of a lowered tree leads down, and a list of links is in the order of the tree. A
statement that is a block has the block as its only child. A method has one kind of list of
modifiers, either those of the parse tree or an empty one.
-/

namespace BlockShading

namespace TreeBuilder

variable {b : TreeBuilder} {ids : List NodeId} {i j m : Nat}

/-- Nodes taken from numbered nodes and their children, one after the other, are in order. -/
theorem Numbered.flatMap_increasing (h : Numbered b ids i m) (hb : b.WellFormed)
    {choose : NodeId → List NodeId} (hchoose : ∀ c, (choose c).Pairwise (· < ·))
    (hnear : ∀ c, ∀ t ∈ choose c, t = c ∨ t ∈ b.children c) :
    (ids.flatMap choose).Pairwise (· < ·) := by
  induction h with
  | nil => simp
  | @cons i k m rest below after _ ihafter =>
    -- What is chosen for the first node is numbered before the second one.
    rw [List.flatMap_cons, List.pairwise_append]
    refine ⟨hchoose i, ihafter, fun s hs t ht => ?_⟩
    have hsk : s < k := by
      rcases hnear i s hs with rfl | hchild
      · exact below.le
      · exact (below.mem_bounds hchild).2
    obtain ⟨c, hc, htc⟩ := List.mem_flatMap.mp ht
    have hkc := (after.mem_bounds hc).1
    rcases hnear c t htc with rfl | hchild
    · exact Nat.lt_of_lt_of_le hsk hkc
    · exact Nat.lt_trans (Nat.lt_of_lt_of_le hsk hkc) (hb.child_lt_size hchild).1

theorem isChild_iff {c : NodeId} :
    SyntaxTree.IsChild ⟨b.source, b.nodes⟩ i c ↔ c ∈ b.children i :=
  SyntaxTree.mem_childrenOf_iff.symm

theorem Under.descends (hids : ∀ c ∈ ids, c ∈ b.children i) (h : Under b ids j) :
    Relation.TransGen (SyntaxTree.IsChild ⟨b.source, b.nodes⟩) i j := by
  induction h with
  | member hmem => exact .single (isChild_iff.mpr (hids _ hmem))
  | child _ hc ih => exact .tail ih (isChild_iff.mpr hc)

end TreeBuilder

namespace ParseTree

open TreeBuilder Lowered

variable {b : TreeBuilder} {spot : Spot} {children : List Lowered} {tree : ParseTree} {i : Nat}
  {head : Head}

theorem filter_increasing {p : Lowered → Bool} (h : (positions children).Pairwise (· < ·)) :
    ((children.filter p).map (·.id)).Pairwise (· < ·) :=
  h.sublist (List.filter_sublist.map _)

theorem classFields_increasing (hb : b.WellFormed) {body last : Nat}
    (h : Numbered b (b.children body) (body + 1) last) : (classFields b body).Pairwise (· < ·) := by
  refine h.flatMap_increasing hb (fun c => ?_) fun c t ht => ?_
  · split
    · exact List.pairwise_singleton _ _
    · exact (hb.children_increasing c).sublist List.filter_sublist
    · exact List.Pairwise.nil
  · split at ht
    · exact Or.inl (List.mem_singleton.mp ht)
    · exact Or.inr (List.mem_filter.mp ht).1
    · cases ht

/-- The lists among the links of a node are in the order of its lowered children. -/
theorem linksFor_increasing (h : (positions children).Pairwise (· < ·))
    (hfields : ∀ body ∈ positions children, (classFields b body).Pairwise (· < ·))
    (kind : NodeKind) (role : ListRole) :
    ((linksFor b kind children).getList role).Pairwise (· < ·) := by
  have hcondition : (conditionalLinks b children).getList role = [] := by
    unfold conditionalLinks conditionLinks
    cases children.find? fun c => c.row.field == some "condition" with
    | none => cases role <;> rfl
    | some condition =>
      simp only [Option.map_some, Option.getD_some]
      split <;> cases role <;> rfl
  cases kind
  case classDecl =>
    unfold linksFor classLinks
    cases hbody : (inField? children "body").or (ofRule? children "class_body") with
    | none => cases role <;> exact List.Pairwise.nil
    | some body =>
      cases role
      case fields => exact hfields body (classBody_mem_positions hbody)
      all_goals exact List.Pairwise.nil
  case ifElse =>
    rw [linksFor, hcondition]
    exact List.Pairwise.nil
  case loop form =>
    cases form
    case forLoop =>
      cases role
      case initialization => exact filter_increasing h
      case update => exact filter_increasing h
      all_goals exact List.Pairwise.nil
    all_goals
      rw [linksFor, hcondition]
      · exact List.Pairwise.nil
      · simp
  all_goals
    cases role
    all_goals first | exact filter_increasing h | exact List.Pairwise.nil

theorem held_subset_children (h : spot.Rooted b) :
    ∀ c ∈ positions (spot.held.map Spot.lowered), c ∈ b.children spot.own := by
  intro c hc
  rw [h.children, ← positions_lowered]
  exact List.mem_append_right _ hc

theorem Spot.Rooted.descends (h : spot.Rooted b) {t : NodeId}
    (ht : t ∈ (spot.linksIn b).targets) :
    Relation.TransGen (SyntaxTree.IsChild ⟨b.source, b.nodes⟩) spot.own t := by
  have hchosen : ∀ {t}, t ∈ (linksFor b spot.kind (spot.held.map Spot.lowered)).targets →
      Relation.TransGen (SyntaxTree.IsChild ⟨b.source, b.nodes⟩) spot.own t := fun ht =>
    (linksFor_under ht).descends (held_subset_children h)
  rcases Links.mem_targets_of_set .modifierList ht with hmodifiers | hlink
  · rcases Option.or_eq_some_iff.mp hmodifiers with hlist | ⟨-, hinserted⟩
    · exact hchosen (Links.mem_targets_iff.mpr (Or.inl ⟨.modifierList, hlist⟩))
    · refine .single (isChild_iff.mpr ?_)
      simp [h.children, hinserted]
  · exact hchosen hlink

theorem Spot.Rooted.lists_increasing (h : spot.Rooted b) (hb : b.WellFormed)
    (hfields : ∀ body < b.nodes.size, (classFields b body).Pairwise (· < ·)) (role : ListRole) :
    ((spot.linksIn b).getList role).Pairwise (· < ·) := by
  have hheld : (positions (spot.held.map Spot.lowered)).Pairwise (· < ·) := by
    have hchildren := hb.children_increasing spot.own
    rw [h.children, ← positions_lowered] at hchildren
    exact (List.pairwise_append.mp hchildren).2.1
  rw [Spot.linksIn, Links.getList_set]
  refine linksFor_increasing hheld (fun body hbody => hfields body ?_) _ role
  exact (hb.child_lt_size (held_subset_children h body hbody)).2

namespace Built

/-- A node is the own one of a row, links only to the block inside it, or has no links. -/
theorem links_cases (h : tree.Built b) (hhead : b.heads[i]? = some head) :
    (∃ spot ∈ tree.spots, spot.isSpliced = false ∧ i = spot.own ∧ head.kind = spot.kind) ∨
      (∃ block, b.children i = [block] ∧ b.links i = { codeBlock := some block }) ∨
      b.links i = {} := by
  obtain ⟨spot, hmem, hown, hpart⟩ := h.exists_part hhead
  have hsettled := h.settled spot hmem hown
  cases hpart with
  | own parent => exact Or.inl ⟨spot, hmem, hown, rfl, rfl⟩
  | wrapper hwrapped parent => exact Or.inr (Or.inl ⟨spot.own, hsettled.wrapper hwrapped⟩)
  | inserted hinserted => exact Or.inr (Or.inr (hsettled.inserted i hinserted).2)

theorem descends (h : tree.Built b) (hhead : b.heads[i]? = some head) {t : NodeId}
    (ht : t ∈ (b.links i).targets) :
    Relation.TransGen (SyntaxTree.IsChild ⟨b.source, b.nodes⟩) i t := by
  obtain ⟨spot, hmem, hown, rfl, -⟩ | ⟨block, hchildren, hlinks⟩ | hnone := h.links_cases hhead
  · have hsettled := h.settled spot hmem hown
    exact hsettled.descends (hsettled.links ▸ ht)
  · have hset : t ∈ (Links.set {} .codeBlock (some block)).targets := by
      rw [hlinks] at ht
      exact ht
    rcases Links.mem_targets_of_set .codeBlock hset with hblock | hempty
    · cases hblock
      exact .single (isChild_iff.mpr (by simp [hchildren]))
    · exact absurd hempty Links.not_mem_targets_empty
  · rw [hnone] at ht
    exact absurd ht Links.not_mem_targets_empty

theorem target_lt_size (h : tree.Built b) (hhead : b.heads[i]? = some head) {t : NodeId}
    (ht : t ∈ (b.links i).targets) : t < b.nodes.size := by
  obtain ⟨p, -, hchild⟩ := Relation.TransGen.tail'_iff.mp (h.descends hhead ht)
  exact (h.wellFormed.child_lt_size (isChild_iff.mp hchild)).2

theorem lists_increasing (h : tree.Built b) (hhead : b.heads[i]? = some head) (role : ListRole) :
    ((b.links i).getList role).Pairwise (· < ·) := by
  obtain ⟨spot, hmem, hown, rfl, -⟩ | ⟨block, -, hlinks⟩ | hnone := h.links_cases hhead
  · have hsettled := h.settled spot hmem hown
    rw [hsettled.links]
    refine hsettled.lists_increasing h.wellFormed (fun body hbody => ?_) role
    obtain ⟨last, hlast⟩ := h.numbered.numbered_children (Nat.zero_le body) hbody
    exact classFields_increasing h.wellFormed hlast
  · rw [hlinks]
    cases role <;> exact List.Pairwise.nil
  · rw [hnone]
    cases role <;> exact List.Pairwise.nil

theorem inOrder (h : tree.Built b) (hhead : b.heads[i]? = some head) (role : ListRole) :
    ((b.links i).getList role).Sublist (SyntaxTree.preorder ⟨b.source, b.nodes⟩) := by
  have hincreasing := h.lists_increasing hhead role
  rw [h.numbered.preorder_eq_range]
  have hbounded : (b.links i).getList role ⊆ List.range b.nodes.size := fun t ht =>
    List.mem_range.mpr (h.target_lt_size hhead (Links.mem_targets_iff.mpr (Or.inr ⟨role, ht⟩)))
  have hnodup : ((b.links i).getList role).Nodup := hincreasing.imp Nat.ne_of_lt
  exact List.sublist_of_subperm_of_pairwise (hnodup.subperm hbounded)
    (hincreasing.imp Nat.le_of_lt) (List.pairwise_le_range)

end Built

section Kinds

variable {row : Row} {trees : List ParseTree} {parentKind rule : String}

/-- Apart from a few kinds, the kind of a row is that of its rule. -/
theorem kindOfRule?_of_classify {kind : NodeKind} (h : classify row trees parentKind = kind)
    (hkind : kind ∉ [.returnType, .classDecl, .keyword, .other]) :
    kindOfRule? row.kind = some kind := by
  subst h
  simp only [List.mem_cons, List.not_mem_nil, not_or, or_false] at hkind
  unfold classify at hkind ⊢
  split
  · simp_all
  split
  · simp_all
  split
  · next hrule => exact hrule
  · split <;> simp_all

theorem kindOfRule?_ne_blockStatement : kindOfRule? rule ≠ some .blockStatement := by
  unfold kindOfRule?
  split <;> simp

theorem rule_of_modifierList (h : kindOfRule? rule = some .modifierList) : rule = "modifiers" := by
  unfold kindOfRule? at h
  split at h <;> simp_all

theorem rule_of_methodDecl (h : kindOfRule? rule = some .methodDecl) :
    rule = "method_declaration" ∨ rule = "constructor_declaration" := by
  unfold kindOfRule? at h
  split at h <;> simp_all

theorem classify_modifiers (hkind : row.kind = "modifiers") (hfield : row.field ≠ some "type") :
    classify row trees parentKind = .modifierList := by
  have hrule : kindOfRule? "modifiers" = some .modifierList := rfl
  simp [classify, hkind, hfield, hrule]

end Kinds

/-- Only the node around a block is a statement of its own kind. -/
theorem Built.block (h : tree.Built b) (hhead : b.heads[i]? = some head)
    (hkind : head.kind = .blockStatement) :
    ∃ c block, b.children i = [c] ∧ b.heads[c]? = some block ∧ block.kind = .codeBlock ∧
      block.extent = head.extent ∧ (b.links i).codeBlock = some c := by
  obtain ⟨spot, hmem, hown, hpart⟩ := h.exists_part hhead
  cases hpart with
  | own parent =>
    exact absurd (kindOfRule?_of_classify hkind (by simp)) kindOfRule?_ne_blockStatement
  | wrapper hwrapped parent =>
    obtain ⟨hchildren, hlinks⟩ := (h.settled spot hmem hown).wrapper hwrapped
    obtain ⟨_, hblock⟩ := h.head_own hmem hown
    exact ⟨spot.own, _, hchildren, hblock, kind_eq_codeBlock hwrapped, rfl, by rw [hlinks]⟩
  | inserted hinserted => cases hkind

/-- Whether the node at a position stands for a row of a tree. -/
def Represents (tree : ParseTree) (i : NodeId) : Prop :=
  ∃ spot ∈ tree.spots, spot.isSpliced = false ∧ (i = spot.own ∨ i = spot.first)

theorem not_represents_inserted (hmem : spot ∈ tree.spots) (hown : spot.isSpliced = false)
    (hinserted : spot.inserted? = some i) : ¬ tree.Represents i := by
  rintro ⟨other, hother, hunspliced, hi⟩
  obtain ⟨hplace, hfirst, hhead⟩ := inserted_head hown hinserted
  -- The position is the second of the method, so a row at it can only be that of the method.
  have hone : 1 < spot.heads.length := (List.getElem?_eq_some_iff.mp hhead).1
  obtain ⟨j, hj, hagain⟩ : ∃ j < other.heads.length, i = other.first + j := by
    obtain ⟨k, parent, hplaced, hhead'⟩ := exists_own_head hunspliced
    have hk : k < other.heads.length := (List.getElem?_eq_some_iff.mp hhead').1
    rcases hi with rfl | rfl
    · exact ⟨k, hk, hplaced⟩
    · exact ⟨0, Nat.zero_lt_of_lt hk, rfl⟩
  cases (consecutive_spotsFrom 0 [] tree).spot_unique hmem hother hone hj hplace hagain
  have hstart : i = spot.first := by
    rcases hi with rfl | rfl
    · exact hfirst
    · rfl
  omega

theorem ne_splicedRule_of_hasChild {trees : List ParseTree}
    (h : hasChild trees "finally_clause" = false) :
    ∀ tree ∈ trees, tree.row.kind ≠ splicedRule := by
  intro t ht hkind
  have := List.any_eq_false.mp h t ht
  simp [hkind, splicedRule] at this

/-- Where no row is left out, a row holds the rows right below it. -/
theorem held_trees (h : hasChild spot.tree.children "finally_clause" = false) :
    spot.held.map (·.tree) = spot.tree.children :=
  heldBelow_of_no_splice (ne_splicedRule_of_hasChild h)

theorem hasChild_eq_any_held (h : hasChild spot.tree.children "finally_clause" = false)
    (rule : String) :
    hasChild spot.tree.children rule = spot.held.any fun other => other.row.kind == rule := by
  rw [hasChild, ← held_trees h, List.any_map]
  rfl

/-- A row becomes a list of modifiers exactly if it is a row of modifiers. -/
theorem Built.modifierList_iff (h : tree.Built b)
    (hmodifiers : ∀ spot ∈ tree.spots, spot.row.kind = "modifiers" → spot.row.field ≠ some "type")
    (hmem : spot ∈ tree.spots) (hown : spot.isSpliced = false) :
    b.kind? spot.first = some .modifierList ↔ spot.row.kind = "modifiers" := by
  obtain ⟨parent, hhead⟩ := h.head_first hmem hown
  rw [kind?_eq, hhead, Option.map_some, Option.some.injEq]
  constructor
  · intro hkind
    cases hwrapped : spot.isWrapped with
    | true => simp [hwrapped] at hkind
    | false =>
      simp only [hwrapped, Bool.false_eq_true, if_false] at hkind
      exact rule_of_modifierList (kindOfRule?_of_classify hkind (by simp))
  · intro hrule
    have hwrapped : spot.isWrapped = false := by
      simp [Spot.isWrapped, isStatementBlock, hrule]
    simp only [hwrapped, Bool.false_eq_true, if_false]
    exact classify_modifiers hrule (hmodifiers spot hmem hrule)

theorem modifierList_linksIn (hkind : spot.kind = .methodDecl) :
    (spot.linksIn b).modifierList =
      ((spot.held.find? fun other => b.kind? other.first == some .modifierList).map (·.first)).or
        spot.inserted? := by
  have hlist : (linksFor b .methodDecl (spot.held.map Spot.lowered)).modifierList =
      (spot.held.find? fun other => b.kind? other.first == some .modifierList).map (·.first) := by
    simp only [linksFor, ofKind?, List.find?_map, Option.map_map]
    rfl
  rw [← hlist, Spot.linksIn, hkind]
  rfl

theorem represents_held (hmem : spot ∈ tree.spots) (hown : spot.isSpliced = false) {other : Spot}
    (hother : other ∈ spot.held) : tree.Represents other.first := by
  obtain ⟨hunder, hunspliced, -⟩ := mem_held hother hown
  exact ⟨other, mem_spots_of_mem_spotsUnder hmem hunder, hunspliced, Or.inr rfl⟩

/-- A method has a list of modifiers, which is an empty one that stands for no row exactly if the
row of the method has none right below it. -/
structure ModifiersFound (tree : ParseTree) (lowered : SyntaxTree) (spot : Spot) (method : Node)
    (m : NodeId) (list : Node) : Prop where
  linked : method.links.modifierList = some m
  child : m ∈ method.children
  found : lowered.node? m = some list
  kind : list.kind = .modifierList
  inserted_iff : (¬ tree.Represents m ∧
    list.extent = ⟨method.extent.start, method.extent.start⟩) ↔
      hasChild spot.tree.children "modifiers" = false
  alike : ∀ c ∈ method.children, ∀ other, lowered.node? c = some other →
    other.kind = .modifierList → (tree.Represents c ↔ tree.Represents m)
  only : ∀ c ∈ method.children, ¬ tree.Represents c → c = m

section Methods

variable (h : tree.Built b)
  (hmodifiers : ∀ spot ∈ tree.spots, spot.row.kind = "modifiers" → spot.row.field ≠ some "type")
  (hmem : spot ∈ tree.spots) (hown : spot.isSpliced = false) (hkind : spot.kind = .methodDecl)
  (hfinally : hasChild spot.tree.children "finally_clause" = false)

include h hmodifiers hmem hown hkind hfinally

/-- A method with modifiers links to a row of them. -/
theorem exists_linked_modifiers (hsome : hasChild spot.tree.children "modifiers" = true) :
    ∃ other ∈ spot.held, (b.links spot.own).modifierList = some other.first ∧
      b.kind? other.first = some .modifierList := by
  rw [hasChild_eq_any_held hfinally] at hsome
  obtain ⟨listed, hlisted, hrule⟩ := List.any_eq_true.mp hsome
  obtain ⟨hunder, hunspliced, -⟩ := mem_held hlisted hown
  have hshown := (h.modifierList_iff hmodifiers (mem_spots_of_mem_spotsUnder hmem hunder)
    hunspliced).mpr (beq_iff_eq.mp hrule)
  obtain ⟨other, hother⟩ : ∃ other, (spot.held.find? fun other =>
      b.kind? other.first == some .modifierList) = some other := by
    rw [← Option.isSome_iff_exists, List.find?_isSome]
    exact ⟨listed, hlisted, by simp [hshown]⟩
  refine ⟨other, List.mem_of_find?_eq_some hother, ?_, by simpa using List.find?_some hother⟩
  rw [(h.settled spot hmem hown).links, modifierList_linksIn hkind, hother]
  rfl

/-- A method without modifiers links to the empty list of them, which is its only such child. -/
theorem inserted_linked_modifiers (hnone : hasChild spot.tree.children "modifiers" = false) :
    (b.links spot.own).modifierList = some (spot.own + 1) ∧
      spot.inserted? = some (spot.own + 1) ∧
      ∀ other ∈ spot.held, b.kind? other.first ≠ some .modifierList := by
  have hinserted : spot.inserted? = some (spot.own + 1) := by
    simp [Spot.inserted?, hkind, hnone]
  have hothers : ∀ other ∈ spot.held, b.kind? other.first ≠ some .modifierList := by
    intro other hother hshown
    obtain ⟨hunder, hunspliced, -⟩ := mem_held hother hown
    have hrule := (h.modifierList_iff hmodifiers (mem_spots_of_mem_spotsUnder hmem hunder)
      hunspliced).mp hshown
    rw [hasChild_eq_any_held hfinally] at hnone
    exact List.any_eq_false.mp hnone other hother (beq_iff_eq.mpr hrule)
  have hfind : (spot.held.find? fun other => b.kind? other.first == some .modifierList) = none :=
    List.find?_eq_none.mpr fun other hother => by simpa using hothers other hother
  refine ⟨?_, hinserted, hothers⟩
  rw [(h.settled spot hmem hown).links, modifierList_linksIn hkind, hfind, hinserted]
  rfl

/-- With rows of modifiers every child of the method stands for a row. -/
theorem modifiersFound_of_rows {method : Node} (hmethod : b.node? spot.own = some method)
    (hsome : hasChild spot.tree.children "modifiers" = true) :
    ∃ m list, ModifiersFound tree ⟨b.source, b.nodes⟩ spot method m list := by
  obtain ⟨-, hchildren, hlinks⟩ := head_of_node hmethod
  obtain ⟨other, hother, hlinked, hshown⟩ :=
    exists_linked_modifiers h hmodifiers hmem hown hkind hfinally hsome
  have hinserted : spot.inserted? = none := by simp [Spot.inserted?, hsome]
  rw [(h.settled spot hmem hown).children, hinserted] at hchildren
  have hrepresented : ∀ c ∈ method.children, tree.Represents c := by
    rw [← hchildren]
    intro c hc
    obtain ⟨held, hheld, rfl⟩ := List.mem_map.mp hc
    exact represents_held hmem hown hheld
  have hchild : other.first ∈ method.children := by
    rw [← hchildren]
    exact List.mem_append_right _ (List.mem_map_of_mem hother)
  obtain ⟨list, hlist, hlistkind⟩ := Option.map_eq_some_iff.mp hshown
  refine ⟨other.first, list, hlinks ▸ hlinked, hchild, hlist, hlistkind, ?_, ?_, ?_⟩
  · simp [hrepresented _ hchild, hsome]
  · intro c hc _ _ _
    exact iff_of_true (hrepresented c hc) (hrepresented _ hchild)
  · intro c hc hnot
    exact absurd (hrepresented c hc) hnot

/-- Without rows of modifiers the empty list is the one child that stands for no row. -/
theorem modifiersFound_of_inserted {method : Node} (hmethod : b.node? spot.own = some method)
    (hnone : hasChild spot.tree.children "modifiers" = false) :
    ∃ m list, ModifiersFound tree ⟨b.source, b.nodes⟩ spot method m list := by
  obtain ⟨hhead, hchildren, hlinks⟩ := head_of_node hmethod
  obtain ⟨parent, hspot⟩ := h.head_own hmem hown
  have hextent : method.extent = spot.extent :=
    congrArg Head.extent (Option.some.inj (hhead.symm.trans hspot))
  obtain ⟨hlinked, hinserted, hothers⟩ :=
    inserted_linked_modifiers h hmodifiers hmem hown hkind hfinally hnone
  rw [(h.settled spot hmem hown).children, hinserted] at hchildren
  have hcases : ∀ c ∈ method.children, c = spot.own + 1 ∨ ∃ other ∈ spot.held, c = other.first := by
    rw [← hchildren]
    intro c hc
    rcases List.mem_cons.mp hc with rfl | hheld
    · exact Or.inl rfl
    · obtain ⟨other, hother, rfl⟩ := List.mem_map.mp hheld
      exact Or.inr ⟨other, hother, rfl⟩
  have hnot := not_represents_inserted hmem hown hinserted
  obtain ⟨hplace, -, hplaced⟩ := inserted_head hown hinserted
  have hlisthead := h.head_at hmem hplaced
  rw [← hplace] at hlisthead
  obtain ⟨list, hlist, hlisteq, -⟩ := exists_node_of_head hlisthead
  have hempty : list.extent = ⟨method.extent.start, method.extent.start⟩ := by
    rw [hextent]
    exact congrArg Head.extent hlisteq
  refine ⟨spot.own + 1, list, hlinks ▸ hlinked, ?_, hlist, congrArg Head.kind hlisteq, ?_, ?_, ?_⟩
  · rw [← hchildren]
    exact List.mem_cons_self
  · simp [hnot, hempty, hnone]
  · intro c hc found hfound hfoundkind
    rcases hcases c hc with rfl | ⟨other, hother, rfl⟩
    · rfl
    · have hshown : b.kind? other.first = some .modifierList := by
        rw [← hfoundkind]
        exact congrArg (Option.map Node.kind) hfound
      exact absurd hshown (hothers other hother)
  · intro c hc hunrepresented
    rcases hcases c hc with rfl | ⟨other, hother, rfl⟩
    · rfl
    · exact absurd (represents_held hmem hown hother) hunrepresented

end Methods

/-- Links lead down, lists of links are in order, and blocks and methods have their parts. -/
structure WellLinked (tree : ParseTree) (lowered : SyntaxTree) : Prop where
  descends : ∀ i node, lowered.node? i = some node → ∀ t ∈ node.links.targets,
    Relation.TransGen lowered.IsChild i t
  inOrder : ∀ i node, lowered.node? i = some node → ∀ role,
    (node.links.getList role).Pairwise (· < ·) ∧
      (node.links.getList role).Sublist lowered.preorder
  blocks : ∀ i node, lowered.node? i = some node → node.kind = .blockStatement →
    ∃ c block, node.children = [c] ∧ lowered.node? c = some block ∧ block.kind = .codeBlock ∧
      block.extent = node.extent ∧ node.links.codeBlock = some c
  methods : ∀ i method, lowered.node? i = some method → method.kind = .methodDecl →
    ∃ spot ∈ tree.spots, spot.isSpliced = false ∧ spot.own = i ∧
      ∃ m list, ModifiersFound tree lowered spot method m list

/-- In a lowered tree every link leads to a proper descendant, every list of links is in the order
of the tree, a statement that is a block has the block alone below it, and a method has either the
modifiers of its row or an empty list of them. The grammar has the parts of a `finally` in a `try`
only, and the type of a method is no list of modifiers. -/
theorem lower_wellLinked {source : String} {lowered : SyntaxTree}
    (h : tree.lower source = .ok lowered)
    (hmodifiers : ∀ spot ∈ tree.spots, spot.row.kind = "modifiers" → spot.row.field ≠ some "type")
    (hfinally : ∀ spot ∈ tree.spots,
      spot.row.kind = "method_declaration" ∨ spot.row.kind = "constructor_declaration" →
        hasChild spot.tree.children "finally_clause" = false) :
    WellLinked tree lowered := by
  obtain ⟨b, hbuilt, -, rfl⟩ := exists_built h
  constructor
  case descends =>
    intro i node hnode t ht
    obtain ⟨hhead, -, hlinks⟩ := head_of_node (b := b) hnode
    exact hbuilt.descends hhead (hlinks ▸ ht)
  case inOrder =>
    intro i node hnode role
    obtain ⟨hhead, -, hlinks⟩ := head_of_node (b := b) hnode
    rw [← hlinks]
    exact ⟨hbuilt.lists_increasing hhead role, hbuilt.inOrder hhead role⟩
  case blocks =>
    intro i node hnode hkind
    obtain ⟨hhead, hchildren, hlinks⟩ := head_of_node (b := b) hnode
    obtain ⟨c, inner, hc, hinner, hcode, hextent, hlink⟩ := hbuilt.block hhead hkind
    obtain ⟨block, hblock, rfl, -⟩ := exists_node_of_head hinner
    exact ⟨c, block, hchildren ▸ hc, hblock, hcode, hextent, hlinks ▸ hlink⟩
  case methods =>
    intro i method hmethod hkind
    obtain ⟨hhead, -, -⟩ := head_of_node (b := b) hmethod
    obtain ⟨spot, hmem, hown, hpart⟩ := hbuilt.exists_part hhead
    generalize hmethodhead : method.head = methodHead at hpart
    cases hpart with
    | own parent =>
      have hspot : spot.kind = .methodDecl := by
        rw [← hkind]
        exact (congrArg Head.kind hmethodhead).symm
      have hrule := rule_of_methodDecl (kindOfRule?_of_classify hspot (by simp))
      have hwhole := hfinally spot hmem hrule
      refine ⟨spot, hmem, hown, rfl, ?_⟩
      cases hrows : hasChild spot.tree.children "modifiers" with
      | true => exact modifiersFound_of_rows hbuilt hmodifiers hmem hown hspot hwhole hmethod hrows
      | false =>
        exact modifiersFound_of_inserted hbuilt hmodifiers hmem hown hspot hwhole hmethod hrows
    | wrapper hwrapped parent => cases hkind.symm.trans (congrArg Head.kind hmethodhead)
    | inserted hinserted => cases hkind.symm.trans (congrArg Head.kind hmethodhead)

def ofRuleIn (field kind : String) (start stop : Nat) (children : List ParseTree) : ParseTree :=
  node ⟨kind, some field, true, false, false, start, stop⟩ children

/-- An enumeration with a constant, a field, a method with a block in it and a public method with a
loop. The field and the methods are one level below the constant. -/
def loopInEnum : ParseTree :=
  ofRule "enum_declaration" 0 46
    [ofRuleIn "body" "enum_body" 6 46
      [ofRule "enum_constant" 7 8 [],
        ofRule "enum_body_declarations" 8 45
          [ofRule "field_declaration" 9 15 [],
            ofRule "method_declaration" 15 22
              [ofRuleIn "body" "block" 18 22 [ofRule "block" 19 21 []]],
            ofRule "method_declaration" 22 45
              [ofRule "modifiers" 22 28 [],
                ofRuleIn "body" "block" 32 45
                  [ofRule "for_statement" 33 44
                    [ofRuleIn "init" "identifier" 37 38 [], ofRuleIn "init" "identifier" 39 40 [],
                      ofRuleIn "body" ";" 43 44 []]]]]]]

theorem lower_wellLinked_loopInEnum :
    ∃ lowered, loopInEnum.lower "enum E{A;int x;f(){{}}public g(){for(a,b;;);}}" = .ok lowered ∧
      WellLinked loopInEnum lowered ∧
      (lowered.nodesAt [0, 5, 8, 10, 13]).map (·.links.targets) =
        [[2, 4], [6, 7], [9], [11, 12], [16, 14, 15]] := by
  have htargets : ((loopInEnum.lower "enum E{A;int x;f(){{}}public g(){for(a,b;;);}}").toOption.map
      fun lowered => (lowered.nodesAt [0, 5, 8, 10, 13]).map (·.links.targets)) =
        some [[2, 4], [6, 7], [9], [11, 12], [16, 14, 15]] := by
    decide +kernel
  have hmodifiers : ∀ spot ∈ loopInEnum.spots, spot.row.kind = "modifiers" →
      spot.row.field ≠ some "type" := by
    decide +kernel
  have hfinally : ∀ spot ∈ loopInEnum.spots,
      spot.row.kind = "method_declaration" ∨ spot.row.kind = "constructor_declaration" →
        hasChild spot.tree.children "finally_clause" = false := by
    decide +kernel
  cases hrun : loopInEnum.lower "enum E{A;int x;f(){{}}public g(){for(a,b;;);}}" with
  | error e =>
    rw [hrun] at htargets
    cases htargets
  | ok lowered =>
    rw [hrun] at htargets
    exact ⟨lowered, rfl, lower_wellLinked hrun hmodifiers hfinally, Option.some.inj htargets⟩

end ParseTree

end BlockShading
