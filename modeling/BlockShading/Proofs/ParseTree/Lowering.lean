import BlockShading.Proofs.ParseTree.LinkTargets
import BlockShading.Proofs.ParseTree.Spots
import BlockShading.Proofs.Tree.Grafting

/-!
# Lowering a parse tree

Lowering pushes the heads of the rows in pre-order and stops at the first row with a fault. Each
step of it is a graft, and a whole tree is lowered by induction on its rows.
-/

namespace BlockShading.ParseTree

open TreeBuilder Building

variable {b c d : TreeBuilder} {parent : Option NodeId} {kind : NodeKind} {extent : Extent}
  {children : List ParseTree} {below : Option TreeError} {new : List Head}

theorem pushModifiers_yields {id : Nat} {head : Head} (hb : b.WellFormed)
    (hlinks : b.LinksInside) (hhead : b.heads[id]? = some head) (hextent : head.extent = extent)
    (kind : NodeKind) (children : List ParseTree) :
    Yields (pushModifiers id kind extent children) b none fun modifiers c =>
      Grafted b c (some id) modifiers.toList (modifierHeads id kind extent children) := by
  unfold pushModifiers modifierHeads
  split
  · have horder := hb.ordered hhead
    have hsource := hb.inSource hhead
    have hok : b.pushFault? (some id) ⟨extent.start, extent.start⟩ = none := by
      rw [pushFault?_eq_none_iff]
      refine ⟨Nat.le_refl _, ?_, by simp, ?_⟩
      · rw [← hextent]
        exact Nat.le_trans horder hsource
      · rintro p hp
        cases hp
        have hstart : head.extent.start = extent.start := by rw [hextent]
        refine ⟨head, hhead, Extent.contains_iff.mpr ⟨Nat.le_of_eq hstart, ?_⟩⟩
        rw [← hextent]
        exact horder
    have hpush := Yields.push b (some id) .modifierList ⟨extent.start, extent.start⟩
    rw [hok] at hpush
    refine hpush.after_sound ?_
    rintro added c ⟨-, rfl, rfl⟩
    exact .pure (Grafted.added hb hlinks hok .modifierList)
  · exact .pure (.refl hb hlinks _)

/-- A row that is lowered to a node of its own, with the links of the node inside it. -/
theorem lowerAs_yields {lowerBelow : NodeId → Building (List Lowered)} (hb : b.WellFormed)
    (hlinks : b.LinksInside)
    (hbelow : ∀ c ids, Grafted (b.added parent kind extent) c (some b.nodes.size) ids
        (modifierHeads b.nodes.size kind extent children) →
      Yields (lowerBelow b.nodes.size) c below fun lowered d =>
        Grafted c d (some b.nodes.size) (positions lowered) new) :
    Yields (lowerAs parent kind extent children lowerBelow) b
      ((b.pushFault? parent extent).or below) fun id d => id = b.nodes.size ∧
        Grafted b d parent [b.nodes.size] (⟨kind, extent, parent⟩ ::
          (modifierHeads b.nodes.size kind extent children ++ new)) := by
  unfold lowerAs
  refine .push_bind fun hok => ?_
  have hhead := head_added_size b parent kind extent
  refine (pushModifiers_yields (hb.added kind hok) (hlinks.added parent kind extent) hhead rfl
    kind children).after_sound fun modifiers c hmodifiers => ?_
  refine (hbelow c _ hmodifiers).before_sound fun lowered d hlowered => ?_
  have hgraft := hmodifiers.trans hlowered (by simp)
  have hsize : b.nodes.size < d.nodes.size := by
    have := hgraft.size
    simp only [size_added] at this
    omega
  refine .get_bind (.modifyLinks_bind hsize (.pure ⟨rfl, ?_⟩))
  have hwhole := Grafted.below (fun _ => lt_size_of_pushFault? hok) hgraft
  refine hwhole.setLinks (Nat.le_refl _) ?_
  intro head hdhead target htarget
  have hchildren := hgraft.children_new
  have hunder : ∀ {t}, t ∈ (linksFor d kind lowered).targets → d.Holds head.extent t := fun ht =>
    (linksFor_under ht).holds hgraft.wellFormed hdhead fun child hchild => by
      rw [hchildren]
      exact List.mem_append_right _ hchild
  rcases Links.mem_targets_of_set .modifierList htarget with hmodifier | hlink
  · rcases Option.or_eq_some_iff.mp hmodifier with hchosen | ⟨-, hempty⟩
    · exact hunder (Links.mem_targets_iff.mpr (Or.inl ⟨.modifierList, hchosen⟩))
    · have hmember : Under d modifiers.toList target := .member (by simp [hempty])
      refine hmember.holds hgraft.wellFormed hdhead fun child hchild => ?_
      rw [hchildren]
      exact List.mem_append_left _ hchild
  · exact hunder hlink

/-- A block and the statement around it, which links to the block. -/
theorem lowerWrapped_yields {lowerBlock : NodeId → Building NodeId}
    (hblock : b.pushFault? parent extent = none →
      Yields (lowerBlock b.nodes.size) (b.added parent .blockStatement extent) below fun id d =>
        Grafted (b.added parent .blockStatement extent) d (some b.nodes.size) [id] new) :
    Yields (lowerWrapped parent extent lowerBlock) b ((b.pushFault? parent extent).or below)
      fun id d => id = b.nodes.size ∧
        Grafted b d parent [b.nodes.size] (⟨.blockStatement, extent, parent⟩ :: new) := by
  unfold lowerWrapped
  refine .push_bind fun hok => ?_
  refine (hblock hok).before_sound fun block d hgraft => ?_
  have hsize : b.nodes.size < d.nodes.size := by
    have := hgraft.size
    simp only [size_added] at this
    omega
  refine .modifyLinks_bind hsize (.pure ⟨rfl, ?_⟩)
  have hwhole := Grafted.below (fun _ => lt_size_of_pushFault? hok) hgraft
  refine hwhole.setLinks (Nat.le_refl _) ?_
  intro head hdhead target htarget
  rcases Links.mem_targets_of_set .codeBlock htarget with hnew | hold
  · have hmember : Under d [block] target := .member (by simp [Option.some.inj hnew])
    refine hmember.holds hgraft.wellFormed hdhead fun child hchild => ?_
    rw [hgraft.children_new]
    exact hchild
  · exact hgraft.linksInside _ head hdhead target hold

/-- The builder has a node for what is above a place, and nothing yet if that is nothing. -/
structure Fits (b : TreeBuilder) (above : List Place) : Prop where
  root : above = [] → b.nodes.size = 0
  holder : ∀ holder, holderAmong? above = some holder →
    ∃ head, b.heads[holder.own]? = some head ∧ head.extent = holder.extent

/-- The fault of a row is that of the first push for it. -/
theorem pushFault?_eq_fault? {spot : Spot} (hfits : Fits b spot.above)
    (hfirst : spot.first = b.nodes.size) (hspliced : spot.isSpliced = false) :
    b.pushFault? (spot.holder?.map Spot.own) spot.extent = spot.fault? b.sourceSize := by
  unfold pushFault? Spot.fault?
  simp only [hspliced, Bool.false_eq_true, if_false]
  refine ite_congr rfl (fun _ => rfl) fun _ => ite_congr rfl (fun _ => rfl) fun _ => ?_
  cases hholder : spot.holder? with
  | none =>
    have hroot : spot.above = [] := Classical.byContradiction fun hne => by
      obtain ⟨holder, hsome⟩ := exists_holder hne
      exact absurd (hholder.symm.trans hsome) (by simp)
    simp [hfits.root hroot]
  | some holder =>
    obtain ⟨head, hhead, hextent⟩ := hfits.holder holder hholder
    simp [hhead, hextent, hfirst]

/-- What lowering a tree in any place does: it fails with the fault of the first faulty row, or
grafts the nodes of all its rows. -/
def LowersTree (tree : ParseTree) : Prop :=
  ∀ (b : TreeBuilder) (above : List Place), b.WellFormed → b.LinksInside → Fits b above →
    Spot.isSpliced ⟨⟨b.nodes.size, tree⟩, above⟩ = false →
    Yields (lowerTree ((holderAmong? above).map Spot.own) (kindAbove above) tree) b
      ((spotsFrom b.nodes.size above tree).findSome? (Spot.fault? b.sourceSize)) fun id c =>
        id = b.nodes.size ∧ Grafted b c ((holderAmong? above).map Spot.own) [b.nodes.size]
          ((spotsFrom b.nodes.size above tree).flatMap Spot.heads)

def LowersTrees (trees : List ParseTree) : Prop :=
  ∀ (b : TreeBuilder) (above : List Place) (holder : Spot), b.WellFormed → b.LinksInside →
    Fits b above → holderAmong? above = some holder →
    Yields (lowerTrees holder.own (kindAbove above) trees) b
      ((spotsBelow b.nodes.size above trees).findSome? (Spot.fault? b.sourceSize)) fun lowered c =>
        Grafted b c (some holder.own) (positions lowered)
          ((spotsBelow b.nodes.size above trees).flatMap Spot.heads)

theorem lowersTrees_nil : LowersTrees [] := by
  intro b above holder hb hlinks _ _
  rw [lowerTrees, spotsBelow]
  exact .pure (.refl hb hlinks _)

/-- After a graft the same rows above still have their nodes. -/
theorem Fits.grafted {above : List Place} {holder : Spot} {owner : Option NodeId}
    {ids : List NodeId} (h : Fits b above) (hholder : holderAmong? above = some holder)
    (hgraft : Grafted b c owner ids new) : Fits c above where
  root := by
    rintro rfl
    cases hholder
  holder := by
    intro again hagain
    obtain ⟨head, hhead, hextent⟩ := h.holder again hagain
    exact ⟨head, hgraft.head_of_some hhead, hextent⟩

/-- A row that is left out needs no node of its own. -/
theorem Fits.spliced {above : List Place} {place : Place} (h : Fits b above)
    (hspliced : Spot.isSpliced ⟨place, above⟩ = true) : Fits b (place :: above) where
  root := by simp
  holder := by
    rw [holderAmong?_of_isSpliced hspliced]
    exact h.holder

/-- Lowering the trees after some that are lowered already. -/
theorem LowersTrees.after {trees : List ParseTree} (h : LowersTrees trees) {above : List Place}
    {holder : Spot} (hfits : Fits b above) (hholder : holderAmong? above = some holder)
    {parts : List Lowered} {before : List Spot}
    (hgraft : Grafted b c (some holder.own) (positions parts) (before.flatMap Spot.heads)) :
    Yields (do return parts ++ (← lowerTrees holder.own (kindAbove above) trees)) c
      ((spotsBelow (b.nodes.size + (before.flatMap Spot.heads).length) above trees).findSome?
        (Spot.fault? b.sourceSize)) fun lowered d =>
      Grafted b d (some holder.own) (positions lowered)
        ((before ++ spotsBelow (b.nodes.size + (before.flatMap Spot.heads).length) above
          trees).flatMap Spot.heads) := by
  have hsource : b.sourceSize = c.sourceSize := by rw [sourceSize, sourceSize, hgraft.source]
  have howner : ∀ p, some holder.own = some p → p < b.nodes.size := by
    rintro p hp
    cases hp
    obtain ⟨head, hhead, -⟩ := hfits.holder holder hholder
    exact lt_size_of_head hhead
  rw [← hgraft.size, hsource]
  refine (h c above holder hgraft.wellFormed hgraft.linksInside (hfits.grafted hholder hgraft)
    hholder).before_sound fun others d hothers => .pure ?_
  have hpositions : positions (parts ++ others) = positions parts ++ positions others :=
    List.map_append
  rw [hpositions, List.flatMap_append]
  exact hgraft.trans hothers howner

/-- The trees below a row: a part that is left out gives way to what is below it. -/
theorem lowersTrees_cons {row : Row} {children rest : List ParseTree}
    (htree : LowersTree (node row children)) (hbelow : LowersTrees children)
    (hrest : LowersTrees rest) : LowersTrees (node row children :: rest) := by
  intro b above holder hb hlinks hfits hholder
  have habove : above ≠ [] := by
    rintro rfl
    cases hholder
  rw [lowerTrees, spotsBelow, List.findSome?_append]
  by_cases hkind : row.kind = splicedRule
  · rw [if_pos hkind]
    let place : Place := ⟨b.nodes.size, node row children⟩
    have hspliced : Spot.isSpliced ⟨place, above⟩ = true := isSpliced_iff.mpr ⟨habove, hkind⟩
    have hparts := hbelow b (place :: above) holder hb hlinks (hfits.spliced hspliced)
      ((holderAmong?_of_isSpliced hspliced).trans hholder)
    have hspots := spotsFrom_of_isSpliced hspliced
    have hheads : (spotsFrom b.nodes.size above (node row children)).flatMap Spot.heads =
        (spotsBelow b.nodes.size (place :: above) children).flatMap Spot.heads := by
      rw [hspots, List.flatMap_cons, heads_of_isSpliced hspliced, List.nil_append]
    have hfault : (spotsFrom b.nodes.size above (node row children)).findSome?
        (Spot.fault? b.sourceSize) = (spotsBelow b.nodes.size (place :: above)
          children).findSome? (Spot.fault? b.sourceSize) := by
      rw [hspots, findSome?_cons_or, fault?_of_isSpliced hspliced, Option.none_or]
    rw [hfault]
    refine hparts.bind fun parts c hgraft => ?_
    exact hrest.after hfits hholder (hheads ▸ hgraft)
  · rw [if_neg hkind]
    have hspliced : Spot.isSpliced ⟨⟨b.nodes.size, node row children⟩, above⟩ = false := by
      exact Bool.eq_false_iff.mpr fun h => hkind (isSpliced_iff.mp h).2
    have hone := htree b above hb hlinks hfits hspliced
    rw [hholder] at hone
    refine hone.bind ?_
    rintro id c ⟨rfl, hgraft⟩
    have hgraft' : Grafted b c (some holder.own)
        (positions [⟨b.nodes.size, node row children⟩]) _ := hgraft
    exact hrest.after hfits hholder hgraft'

/-- The own node of a row is there for what is below the row. -/
theorem Fits.under {spot : Spot} {head : Head} (hspliced : spot.isSpliced = false)
    (hhead : c.heads[spot.own]? = some head) (hextent : head.extent = spot.extent) :
    Fits c (spot.toPlace :: spot.above) where
  root := by simp
  holder := by
    intro holder hagain
    cases (holderAmong?_of_not_isSpliced hspliced).symm.trans hagain
    exact ⟨head, hhead, hextent⟩

/-- What is below a row, once the row has its own node. -/
theorem LowersTrees.under {spot : Spot} {head : Head} (h : LowersTrees spot.tree.children)
    (hspliced : spot.isSpliced = false) (hc : c.WellFormed) (hlinks : c.LinksInside)
    (hsize : c.nodes.size = spot.first + spot.heads.length)
    (hhead : c.heads[spot.own]? = some head) (hextent : head.extent = spot.extent) :
    Yields (lowerTrees spot.own spot.row.kind spot.tree.children) c
      (spot.spotsUnder.findSome? (Spot.fault? c.sourceSize)) fun lowered d =>
        Grafted c d (some spot.own) (positions lowered) (spot.spotsUnder.flatMap Spot.heads) := by
  have hholder := holderAmong?_of_not_isSpliced hspliced
  have hlower := h c _ spot hc hlinks (Fits.under hspliced hhead hextent) hholder
  rw [hsize] at hlower
  exact hlower

/-- The own node of a row and what is below it, pushed under any parent. -/
theorem lowerAs_own {spot : Spot} (h : LowersTrees spot.tree.children) (hb : b.WellFormed)
    (hlinks : b.LinksInside) (parent : Option NodeId) (hspliced : spot.isSpliced = false)
    (hown : spot.own = b.nodes.size)
    (hlength : b.nodes.size + 1 + (modifierHeads b.nodes.size spot.kind spot.extent
      spot.tree.children).length = spot.first + spot.heads.length) :
    Yields (lowerAs parent spot.kind spot.extent spot.tree.children fun id =>
        lowerTrees id spot.row.kind spot.tree.children) b
      ((b.pushFault? parent spot.extent).or
        (spot.spotsUnder.findSome? (Spot.fault? b.sourceSize))) fun id c =>
      id = b.nodes.size ∧ Grafted b c parent [b.nodes.size] (⟨spot.kind, spot.extent, parent⟩ ::
        (modifierHeads b.nodes.size spot.kind spot.extent spot.tree.children ++
          spot.spotsUnder.flatMap Spot.heads)) := by
  refine lowerAs_yields hb hlinks fun c ids hgraft => ?_
  have hsource : b.sourceSize = c.sourceSize := by
    rw [sourceSize, sourceSize, hgraft.source, source_added]
  have hhead := hgraft.head_of_some (head_added_size ..)
  have hsize : c.nodes.size = spot.first + spot.heads.length := by
    rw [hgraft.size, size_added, hlength]
  rw [← hown] at hhead
  rw [hsource, ← hown]
  exact h.under hspliced hgraft.wellFormed hgraft.linksInside hsize hhead rfl

theorem lowerAs_spot {spot : Spot} (h : LowersTrees spot.tree.children) (hb : b.WellFormed)
    (hlinks : b.LinksInside) (hfirst : spot.first = b.nodes.size)
    (hspliced : spot.isSpliced = false) (hwrapped : spot.isWrapped = false) :
    Yields (lowerAs (spot.holder?.map Spot.own) spot.kind spot.extent spot.tree.children fun id =>
        lowerTrees id spot.row.kind spot.tree.children) b
      ((b.pushFault? (spot.holder?.map Spot.own) spot.extent).or
        (spot.spotsUnder.findSome? (Spot.fault? b.sourceSize))) fun id c =>
      id = b.nodes.size ∧ Grafted b c (spot.holder?.map Spot.own) [b.nodes.size]
        (spot.heads ++ spot.spotsUnder.flatMap Spot.heads) := by
  have hown : spot.own = b.nodes.size := by rw [Spot.own, if_neg (by simp [hwrapped]), hfirst]
  have hheads := heads_of_not_isWrapped hspliced hwrapped
  rw [hfirst] at hheads
  have hlower := lowerAs_own h hb hlinks (spot.holder?.map Spot.own) hspliced hown (by
    rw [hheads, hfirst, List.length_cons]
    omega)
  rw [hheads]
  exact hlower

/-- A block in the place of a statement, with the node for the statement around it. -/
theorem lowerWrapped_spot {spot : Spot} (h : LowersTrees spot.tree.children) (hb : b.WellFormed)
    (hlinks : b.LinksInside) (hfirst : spot.first = b.nodes.size)
    (hspliced : spot.isSpliced = false) (hwrapped : spot.isWrapped = true) :
    Yields (lowerWrapped (spot.holder?.map Spot.own) spot.extent fun wrapper =>
        lowerAs (some wrapper) spot.kind spot.extent spot.tree.children fun id =>
          lowerTrees id spot.row.kind spot.tree.children) b
      ((b.pushFault? (spot.holder?.map Spot.own) spot.extent).or
        (spot.spotsUnder.findSome? (Spot.fault? b.sourceSize))) fun id c =>
      id = b.nodes.size ∧ Grafted b c (spot.holder?.map Spot.own) [b.nodes.size]
        (spot.heads ++ spot.spotsUnder.flatMap Spot.heads) := by
  have hkind : spot.kind = .codeBlock := kind_eq_codeBlock hwrapped
  have hheads := heads_of_isWrapped hspliced hwrapped
  rw [hfirst] at hheads
  rw [hheads]
  refine lowerWrapped_yields fun hok => ?_
  have hinner : (b.added (spot.holder?.map Spot.own) .blockStatement spot.extent).pushFault?
      (some b.nodes.size) spot.extent = none := by
    obtain ⟨horder, hsource, -⟩ := pushFault?_eq_none_iff.mp hok
    refine pushFault?_eq_none_iff.mpr ⟨horder, by simpa [sourceSize] using hsource, by simp, ?_⟩
    rintro p hp
    cases hp
    exact ⟨_, head_added_size .., Extent.contains_refl _⟩
  have hown : spot.own =
      (b.added (spot.holder?.map Spot.own) .blockStatement spot.extent).nodes.size := by
    rw [Spot.own, if_pos hwrapped, hfirst, size_added]
  have hlower := lowerAs_own h (hb.added .blockStatement hok)
    (hlinks.added (spot.holder?.map Spot.own) .blockStatement spot.extent) (some b.nodes.size)
    hspliced hown (by
      rw [hheads, hfirst, hkind, modifierHeads_of_ne (by simp), size_added]
      rfl)
  rw [hinner, Option.none_or, hkind, modifierHeads_of_ne (by simp), sourceSize, source_added]
    at hlower
  rw [hkind]
  refine hlower.mono ?_
  rintro id d ⟨rfl, hgraft⟩
  exact hgraft

theorem lowersTree_node {row : Row} {children : List ParseTree} (hbelow : LowersTrees children) :
    LowersTree (node row children) := by
  intro b above hb hlinks hfits hspliced
  let spot : Spot := ⟨⟨b.nodes.size, node row children⟩, above⟩
  have hfault : b.pushFault? (spot.holder?.map Spot.own) spot.extent =
      spot.fault? b.sourceSize := pushFault?_eq_fault? hfits rfl hspliced
  have hspots : spotsFrom b.nodes.size above (node row children) = spot :: spot.spotsUnder := by
    rw [spotsFrom]
    rfl
  rw [lowerTree, hspots, findSome?_cons_or, List.flatMap_cons, ← hfault]
  by_cases horder : row.stop < row.start
  · -- The row is refused before anything is pushed, for the reason a push would give.
    have hreversed : b.pushFault? (spot.holder?.map Spot.own) spot.extent =
        some (.invalidRange row.start row.stop) := by
      unfold pushFault?
      exact if_pos horder
    rw [Extent.ordered, if_pos horder, hreversed]
    exact ⟨b, rfl⟩
  · rw [Extent.ordered, if_neg horder]
    cases hwrapped : spot.isWrapped with
    | true =>
      have hblock : isStatementBlock row (kindAbove above) = true := hwrapped
      simp only [hblock, if_true]
      exact lowerWrapped_spot hbelow hb hlinks rfl hspliced hwrapped
    | false =>
      have hblock : isStatementBlock row (kindAbove above) = false := hwrapped
      simp only [hblock, Bool.false_eq_true, if_false]
      exact lowerAs_spot hbelow hb hlinks rfl hspliced hwrapped

theorem lowersTrees : ∀ trees : List ParseTree, LowersTrees trees
  | [] => lowersTrees_nil
  | node _ children :: rest =>
    lowersTrees_cons (lowersTree_node (lowersTrees children)) (lowersTrees children)
      (lowersTrees rest)

theorem lowersTree (tree : ParseTree) : LowersTree tree := by
  cases tree with
  | node row children => exact lowersTree_node (lowersTrees children)

end BlockShading.ParseTree
