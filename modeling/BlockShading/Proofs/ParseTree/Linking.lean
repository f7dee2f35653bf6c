import BlockShading.Proofs.ParseTree.Held
import BlockShading.Proofs.ParseTree.Outcome
import Mathlib.Data.List.Basic
import Mathlib.Data.List.Find

/-!
# The links of lowered rows

The links of a node are chosen while the tree is built, from what is below the node at that time.
Nothing below it changes afterwards, so they are also the links that would be chosen in the
finished tree. `Spot.Settled` says this of a row, with the children of its nodes; lowering settles
every row that is not left out.
-/

namespace BlockShading

namespace TreeBuilder

variable {b c : TreeBuilder} {i : Nat}

theorem kind?_eq (b : TreeBuilder) (i : NodeId) : b.kind? i = b.heads[i]?.map (·.kind) := by
  rw [kind?, heads_getElem?, Option.map_map]
  rfl

theorem extent?_eq (b : TreeBuilder) (i : NodeId) : b.extent? i = b.heads[i]?.map (·.extent) := by
  rw [extent?, heads_getElem?, Option.map_map]
  rfl

/-- Two builders have the same node at a position, links apart. -/
structure SameAt (b c : TreeBuilder) (i : NodeId) : Prop where
  head : c.heads[i]? = b.heads[i]?
  children : c.children i = b.children i

namespace SameAt

theorem kind? (h : SameAt b c i) : c.kind? i = b.kind? i := by
  rw [kind?_eq, kind?_eq, h.head]

theorem text (h : SameAt b c i) (hsource : c.source = b.source) : c.text i = b.text i := by
  rw [TreeBuilder.text, TreeBuilder.text, extent?_eq, extent?_eq, h.head, hsource]

end SameAt

theorem sameAt_setLinks (b : TreeBuilder) (id : NodeId) (change : Links → Links) (i : NodeId) :
    SameAt b (b.setLinks id change) i :=
  ⟨by rw [heads_setLinks], children_setLinks ..⟩

theorem setLinks_unchanged {id i : NodeId} {change : Links → Links} (hlt : id < i)
    (hi : i < b.nodes.size) :
    SameAt b (b.setLinks id change) i ∧ (b.setLinks id change).links i = b.links i := by
  refine ⟨sameAt_setLinks .., ?_⟩
  rw [links_setLinks hi, if_neg (Nat.ne_of_lt hlt)]

theorem push_eq_ok {parent : Option NodeId} {kind : NodeKind} {extent : Extent} {id : NodeId}
    (h : push parent kind extent b = .ok id c) :
    b.pushFault? parent extent = none ∧ id = b.nodes.size ∧ c = b.added parent kind extent :=
  (Building.Yields.push b parent kind extent).of_ok h

theorem modifyLinks_eq_ok {id : NodeId} {change : Links → Links} {u : Unit}
    (h : modifyLinks id change b = .ok u c) : id < b.nodes.size ∧ c = b.setLinks id change := by
  rw [modifyLinks_eq] at h
  split at h
  · next hid =>
    cases h
    exact ⟨hid, rfl⟩
  · cases h

end TreeBuilder

theorem Building.exists_of_bind_eq_ok {α β : Type} {b d : TreeBuilder} {x : Building α}
    {g : α → Building β} {z : β} (h : (x >>= g) b = .ok z d) :
    ∃ a c, x b = .ok a c ∧ g a c = .ok z d := by
  cases hx : x b with
  | ok a c => exact ⟨a, c, rfl, (bind_of_ok hx g).symm.trans h⟩
  | error e c =>
    rw [bind_of_error hx] at h
    cases h

namespace ParseTree

open TreeBuilder Building Lowered

variable {b c d : TreeBuilder} {children : List Lowered} {kind : NodeKind}

section Congruence

variable (hsource : c.source = b.source)
  (hsame : ∀ i, Under b (positions children) i → SameAt b c i)

include hsource hsame

theorem token?_congr (text : String) : token? c children text = token? b children text := by
  unfold token?
  rw [List.find?_congr]
  intro child hchild
  rw [(hsame _ (.member (mem_positions hchild))).text hsource]

theorem lastToken?_congr (text : String) :
    lastToken? c children text = lastToken? b children text := by
  unfold lastToken? token?
  rw [List.find?_congr]
  intro child hchild
  rw [(hsame _ (.member (mem_positions (List.mem_reverse.mp hchild)))).text hsource]

theorem classLinks_congr : classLinks c children = classLinks b children := by
  unfold classLinks
  cases hbody : (inField? children "body").or (ofRule? children "class_body") with
  | none => rfl
  | some body =>
    have hunder : Under b (positions children) body := .member (classBody_mem_positions hbody)
    have hchildren := (hsame body hunder).children
    have hchild : ∀ i ∈ b.children body, SameAt b c i := fun i hi => hsame i (.child hunder hi)
    have hopening : openingBrace? c body = openingBrace? b body := by
      unfold openingBrace?
      rw [hchildren]
      refine List.find?_congr fun i hi => ?_
      rw [(hchild i hi).text hsource]
    have hclosing : closingBrace? c body = closingBrace? b body := by
      unfold closingBrace?
      rw [hchildren]
      refine List.find?_congr fun i hi => ?_
      rw [(hchild i (List.mem_reverse.mp hi)).text hsource]
    have hfields : classFields c body = classFields b body := by
      unfold classFields
      rw [hchildren]
      refine List.flatMap_congr fun i hi => ?_
      rw [(hchild i hi).kind?, (hchild i hi).children]
      have hinner : ((b.children i).filter fun j => c.kind? j == some .field) =
          (b.children i).filter fun j => b.kind? j == some .field := by
        refine List.filter_congr fun j hj => ?_
        rw [(hsame j (.child (.child hunder hi) hj)).kind?]
      rw [hinner]
    simp only [hopening, hclosing, hfields]

omit hsource in
theorem conditionalLinks_congr : conditionalLinks c children = conditionalLinks b children := by
  unfold conditionalLinks
  cases hfind : children.find? fun child => child.row.field == some "condition" with
  | none => rfl
  | some condition =>
    have hcondition := mem_positions (List.mem_of_find?_eq_some hfind)
    have hchildren := (hsame condition.id (.member hcondition)).children
    have hlinks : conditionLinks c condition = conditionLinks b condition := by
      simp only [conditionLinks, conditionParts, hchildren]
    simp only [Option.map_some, hlinks]

/-- The links chosen for a node depend on the nodes below it only. -/
theorem linksFor_congr (kind : NodeKind) : linksFor c kind children = linksFor b kind children := by
  have htoken := token?_congr hsource hsame
  have hlast := lastToken?_congr hsource hsame
  have hkind : ∀ kind, ofKind? c children kind = ofKind? b children kind := by
    intro kind
    unfold ofKind?
    rw [List.find?_congr]
    intro child hchild
    rw [(hsame _ (.member (mem_positions hchild))).kind?]
  cases kind
  case classDecl => exact classLinks_congr hsource hsame
  case ifElse => exact conditionalLinks_congr hsame
  case loop form =>
    cases form
    case forLoop => simp only [linksFor, htoken, hlast]
    all_goals exact conditionalLinks_congr hsame
  all_goals simp only [linksFor, htoken, hlast, hkind]

end Congruence

/-- The empty list of modifiers, if there is one, is the next node and has nothing below it. -/
theorem pushModifiers_eq_ok {id : NodeId} {extent : Extent} {trees : List ParseTree}
    {modifiers : Option NodeId} (h : pushModifiers id kind extent trees b = .ok modifiers c) :
    modifiers = (if kind = .methodDecl ∧ !hasChild trees "modifiers" then some b.nodes.size
      else none) ∧
      ∀ i, modifiers = some i → i < c.nodes.size ∧ c.children i = [] ∧ c.links i = {} := by
  unfold pushModifiers at h
  split at h
  · next hmissing =>
    obtain ⟨added, _, hpush, hpure⟩ := exists_of_bind_eq_ok h
    obtain ⟨-, rfl, rfl⟩ := push_eq_ok hpush
    cases hpure
    refine ⟨(if_pos hmissing).symm, ?_⟩
    rintro i ⟨⟩
    exact ⟨by simp, by simp [TreeBuilder.children, node?_added],
      by simp [TreeBuilder.links, node?_added]⟩
  · next hmissing =>
    cases h
    refine ⟨(if_neg hmissing).symm, ?_⟩
    rintro i ⟨⟩

/-- A row lowered to a node: what is below the node is lowered first, then its links are set. -/
theorem lowerAs_eq_ok {parent : Option NodeId} {extent : Extent} {trees : List ParseTree}
    {lowerBelow : NodeId → Building (List Lowered)} {id : NodeId}
    (h : lowerAs parent kind extent trees lowerBelow b = .ok id d) :
    ∃ modifiers c lowered e, b.pushFault? parent extent = none ∧
      pushModifiers b.nodes.size kind extent trees (b.added parent kind extent) = .ok modifiers c ∧
      lowerBelow b.nodes.size c = .ok lowered e ∧ id = b.nodes.size ∧
      d = e.setLinks b.nodes.size fun _ =>
        (linksFor e kind lowered).set .modifierList
          ((linksFor e kind lowered).modifierList.or modifiers) := by
  obtain ⟨_, _, hpush, hafter⟩ := exists_of_bind_eq_ok h
  obtain ⟨hok, rfl, rfl⟩ := push_eq_ok hpush
  obtain ⟨modifiers, c, hmodifiers, hafter⟩ := exists_of_bind_eq_ok hafter
  obtain ⟨lowered, e, hlowered, hafter⟩ := exists_of_bind_eq_ok hafter
  rw [bind_of_ok (get_apply e)] at hafter
  obtain ⟨_, _, hedit, hpure⟩ := exists_of_bind_eq_ok hafter
  obtain ⟨-, rfl⟩ := modifyLinks_eq_ok hedit
  cases hpure
  exact ⟨modifiers, c, lowered, e, hok, hmodifiers, hlowered, rfl, rfl⟩

theorem lowerWrapped_eq_ok {parent : Option NodeId} {extent : Extent}
    {lowerBlock : NodeId → Building NodeId} {id : NodeId}
    (h : lowerWrapped parent extent lowerBlock b = .ok id d) :
    ∃ block e, b.pushFault? parent extent = none ∧
      lowerBlock b.nodes.size (b.added parent .blockStatement extent) = .ok block e ∧
      id = b.nodes.size ∧
      d = e.setLinks b.nodes.size fun links => { links with codeBlock := some block } := by
  obtain ⟨_, _, hpush, hafter⟩ := exists_of_bind_eq_ok h
  obtain ⟨hok, rfl, rfl⟩ := push_eq_ok hpush
  obtain ⟨block, e, hblock, hafter⟩ := exists_of_bind_eq_ok hafter
  obtain ⟨_, _, hedit, hpure⟩ := exists_of_bind_eq_ok hafter
  obtain ⟨-, rfl⟩ := modifyLinks_eq_ok hedit
  cases hpure
  exact ⟨block, e, hok, hblock, rfl, rfl⟩

/-- The links that are chosen for the node of a row among the rows it holds. -/
def Spot.linksIn (spot : Spot) (b : TreeBuilder) : Links :=
  let links := linksFor b spot.kind (spot.held.map Spot.lowered)
  links.set .modifierList (links.modifierList.or spot.inserted?)

/-- The own node of a row has the children and the links that the rows it holds give it. -/
structure Spot.Rooted (b : TreeBuilder) (spot : Spot) : Prop where
  placed : spot.own < b.nodes.size
  children : b.children spot.own = spot.inserted?.toList ++ spot.held.map (·.first)
  links : b.links spot.own = spot.linksIn b
  inserted : ∀ i, spot.inserted? = some i → b.children i = [] ∧ b.links i = {}

structure Spot.Settled (b : TreeBuilder) (spot : Spot) : Prop extends spot.Rooted b where
  wrapper : spot.isWrapped = true →
    b.children spot.first = [spot.own] ∧ b.links spot.first = { codeBlock := some spot.own }

variable {spot : Spot}

theorem positions_lowered (spots : List Spot) :
    positions (spots.map Spot.lowered) = spots.map (·.first) := by
  rw [positions, List.map_map]
  rfl

theorem Spot.first_le_own (spot : Spot) : spot.first ≤ spot.own := by
  unfold Spot.own
  split
  · exact Nat.le_succ _
  · exact Nat.le_refl _

theorem Spot.Rooted.lt_of_under (h : spot.Rooted b) (hb : b.WellFormed) {i : NodeId}
    (hi : Under b (positions (spot.held.map Spot.lowered)) i) :
    spot.own < i ∧ i < b.nodes.size := by
  induction hi with
  | member hmem =>
    refine hb.child_lt_size ?_
    rw [h.children, ← positions_lowered]
    exact List.mem_append_right _ hmem
  | child _ hc ih =>
    obtain ⟨hlt, hsize⟩ := hb.child_lt_size hc
    exact ⟨Nat.lt_trans ih.1 hlt, hsize⟩

/-- Links of a settled row are the same as long as its nodes and those behind them are. -/
theorem Spot.Rooted.congr (h : spot.Rooted b) (hb : b.WellFormed) (hsource : c.source = b.source)
    (hsize : b.nodes.size ≤ c.nodes.size)
    (hsame : ∀ i, spot.own ≤ i → i < b.nodes.size → SameAt b c i ∧ c.links i = b.links i) :
    spot.Rooted c := by
  have hown := hsame spot.own (Nat.le_refl _) h.placed
  constructor
  case placed => exact Nat.lt_of_lt_of_le h.placed hsize
  case children => rw [hown.1.children, h.children]
  case links =>
    -- All that the choice of links reads is behind the own node.
    have hlinks : linksFor c spot.kind (spot.held.map Spot.lowered) =
        linksFor b spot.kind (spot.held.map Spot.lowered) := by
      refine linksFor_congr hsource (fun i hi => ?_) _
      obtain ⟨hlt, hlast⟩ := h.lt_of_under hb hi
      exact (hsame i (Nat.le_of_lt hlt) hlast).1
    rw [hown.2, h.links, Spot.linksIn, Spot.linksIn, hlinks]
  case inserted =>
    intro i hi
    have hchild : i ∈ b.children spot.own := by simp [h.children, hi]
    obtain ⟨hlt, hlast⟩ := hb.child_lt_size hchild
    obtain ⟨hnode, hlinks⟩ := hsame i (Nat.le_of_lt hlt) hlast
    rw [hnode.children, hlinks]
    exact h.inserted i hi

theorem Spot.Settled.congr (h : spot.Settled b) (hb : b.WellFormed)
    (hsource : c.source = b.source) (hsize : b.nodes.size ≤ c.nodes.size)
    (hsame : ∀ i, spot.first ≤ i → i < b.nodes.size → SameAt b c i ∧ c.links i = b.links i) :
    spot.Settled c where
  toRooted := h.toRooted.congr hb hsource hsize fun i hi =>
    hsame i (Nat.le_trans spot.first_le_own hi)
  wrapper := by
    intro hwrapped
    have hfirst := hsame spot.first (Nat.le_refl _)
      (Nat.lt_of_le_of_lt spot.first_le_own h.placed)
    rw [hfirst.1.children, hfirst.2]
    exact h.wrapper hwrapped

theorem Spot.Settled.grafted {owner : Option NodeId} {ids : List NodeId} {new : List Head}
    (h : spot.Settled b) (hb : b.WellFormed) (hgraft : Grafted b c owner ids new)
    (howner : ∀ p, owner = some p → p < spot.first) : spot.Settled c := by
  have hsize := hgraft.size
  refine h.congr hb hgraft.source (by omega) fun i hi hlast => ⟨⟨?_, ?_⟩, hgraft.links i hlast⟩
  · obtain ⟨head, hhead⟩ := exists_head_of_lt hlast
    rw [hhead, hgraft.head_of_some hhead]
  · have hne : owner ≠ some i := fun hi' => Nat.lt_irrefl i (Nat.lt_of_lt_of_le (howner i hi') hi)
    rw [hgraft.children i hlast, if_neg hne, List.append_nil]

theorem Spot.Rooted.setLinks (h : spot.Rooted b) (hb : b.WellFormed) {id : NodeId}
    (hid : id < spot.own) (change : Links → Links) : spot.Rooted (b.setLinks id change) :=
  h.congr hb (source_setLinks ..) (Nat.le_of_eq (size_setLinks ..).symm) fun _ hi =>
    setLinks_unchanged (Nat.lt_of_lt_of_le hid hi)

theorem Spot.Settled.setLinks (h : spot.Settled b) (hb : b.WellFormed) {id : NodeId}
    (hid : id < spot.first) (change : Links → Links) : spot.Settled (b.setLinks id change) :=
  h.congr hb (source_setLinks ..) (Nat.le_of_eq (size_setLinks ..).symm) fun _ hi =>
    setLinks_unchanged (Nat.lt_of_lt_of_le hid hi)

/-- Links chosen for a node before they are set are those chosen afterwards: no choice looks at
links. -/
theorem rooted_setLinks (hb : b.WellFormed) (hplaced : spot.own < b.nodes.size)
    (hchildren : b.children spot.own = spot.inserted?.toList ++ spot.held.map (·.first))
    (hinserted : ∀ i, spot.inserted? = some i → b.children i = [] ∧ b.links i = {}) :
    spot.Rooted (b.setLinks spot.own fun _ => spot.linksIn b) := by
  constructor
  case placed => rwa [size_setLinks]
  case children => rw [children_setLinks, hchildren]
  case links =>
    rw [links_setLinks hplaced, if_pos rfl, Spot.linksIn, Spot.linksIn,
      linksFor_congr (source_setLinks ..) fun i _ => sameAt_setLinks ..]
  case inserted =>
    intro i hi
    have hchild : i ∈ b.children spot.own := by simp [hchildren, hi]
    obtain ⟨hlt, hlast⟩ := hb.child_lt_size hchild
    obtain ⟨hsame, hlinks⟩ := setLinks_unchanged hlt hlast
    rw [hsame.children, hlinks]
    exact hinserted i hi

/-- Trees that are lowered under a row give the rows it holds, and all rows of them are settled. -/
def SettlesTrees (trees : List ParseTree) : Prop :=
  ∀ (b c : TreeBuilder) (above : List Place) (holder : Spot) (lowered : List Lowered),
    b.WellFormed → b.LinksInside → Fits b above → holderAmong? above = some holder →
    lowerTrees holder.own (kindAbove above) trees b = .ok lowered c →
    lowered = (heldBelow b.nodes.size above trees).map Spot.lowered ∧
      ∀ spot ∈ spotsBelow b.nodes.size above trees, spot.isSpliced = false → spot.Settled c

def SettlesTree (tree : ParseTree) : Prop :=
  ∀ (b c : TreeBuilder) (above : List Place) (id : NodeId),
    b.WellFormed → b.LinksInside → Fits b above →
    Spot.isSpliced ⟨⟨b.nodes.size, tree⟩, above⟩ = false →
    lowerTree ((holderAmong? above).map Spot.own) (kindAbove above) tree b = .ok id c →
    ∀ spot ∈ spotsFrom b.nodes.size above tree, spot.isSpliced = false → spot.Settled c

/-- The own node of a row and the rows below it, once they are lowered. -/
theorem lowerAs_settles (h : SettlesTrees spot.tree.children) (hb : b.WellFormed)
    (hlinks : b.LinksInside) {parent : Option NodeId} (hspliced : spot.isSpliced = false)
    (hown : spot.own = b.nodes.size)
    (hlength : b.nodes.size + 1 + (modifierHeads b.nodes.size spot.kind spot.extent
      spot.tree.children).length = spot.first + spot.heads.length) {id : NodeId}
    (hrun : lowerAs parent spot.kind spot.extent spot.tree.children
      (fun id => lowerTrees id spot.row.kind spot.tree.children) b = .ok id d) :
    spot.Rooted d ∧ ∀ under ∈ spot.spotsUnder, under.isSpliced = false → under.Settled d := by
  obtain ⟨modifiers, c, lowered, e, hok, hpush, hlower, rfl, rfl⟩ := lowerAs_eq_ok hrun
  have hadded := head_added_size b parent spot.kind spot.extent
  have hmodifiers := (pushModifiers_yields (hb.added spot.kind hok)
    (hlinks.added parent spot.kind spot.extent) hadded rfl spot.kind spot.tree.children).of_ok hpush
  have hsize : c.nodes.size = spot.first + spot.heads.length := by
    rw [hmodifiers.size, size_added, hlength]
  have hhead := hmodifiers.head_of_some hadded
  rw [← hown] at hhead hlower
  have hbelow := ((lowersTrees _).under hspliced hmodifiers.wellFormed hmodifiers.linksInside hsize
    hhead rfl).of_ok hlower
  obtain ⟨hheld, hsettled⟩ := h c e _ spot lowered hmodifiers.wellFormed hmodifiers.linksInside
    (Fits.under hspliced hhead rfl) (holderAmong?_of_not_isSpliced hspliced) hlower
  rw [hsize] at hheld hsettled
  have hplaced : spot.own < e.nodes.size := by
    rw [hbelow.size]
    exact Nat.lt_of_lt_of_le (lt_size_of_head hhead) (Nat.le_add_right _ _)
  have hchildren : e.children spot.own = modifiers.toList ++ positions lowered := by
    rw [hown] at hbelow ⊢
    exact (hmodifiers.trans hbelow (by simp)).children_new
  obtain ⟨hinserted, hempty⟩ := pushModifiers_eq_ok hpush
  rw [size_added, ← hown] at hinserted
  change modifiers = spot.inserted? at hinserted
  subst hinserted hheld
  rw [positions_lowered] at hchildren
  rw [← hown]
  refine ⟨rooted_setLinks hbelow.wellFormed hplaced hchildren fun i hi => ?_, ?_⟩
  · -- The empty list of modifiers was there before the rows below, which are not under it.
    obtain ⟨hlast, hnone, hbare⟩ := hempty i hi
    have hchild : i ∈ e.children spot.own := by simp [hchildren, hi]
    have hne : some spot.own ≠ some i := by
      simpa using Nat.ne_of_lt (hbelow.wellFormed.child_lt_size hchild).1
    rw [hbelow.children i hlast, hbelow.links i hlast, if_neg hne, hnone, List.append_nil]
    exact ⟨rfl, hbare⟩
  · intro under hunder hunspliced
    exact (hsettled under hunder hunspliced).setLinks hbelow.wellFormed
      (own_lt_of_mem_spotsUnder hspliced hunder) _

theorem lowerAs_spot_settles (h : SettlesTrees spot.tree.children) (hb : b.WellFormed)
    (hlinks : b.LinksInside) (hfirst : spot.first = b.nodes.size)
    (hspliced : spot.isSpliced = false) (hwrapped : spot.isWrapped = false) {id : NodeId}
    (hrun : lowerAs (spot.holder?.map Spot.own) spot.kind spot.extent spot.tree.children
      (fun id => lowerTrees id spot.row.kind spot.tree.children) b = .ok id d) :
    spot.Settled d ∧ ∀ under ∈ spot.spotsUnder, under.isSpliced = false → under.Settled d := by
  have hown : spot.own = b.nodes.size := (own_of_not_isWrapped hwrapped).trans hfirst
  have hheads := heads_of_not_isWrapped hspliced hwrapped
  rw [hfirst] at hheads
  obtain ⟨hrooted, hbelow⟩ := lowerAs_settles h hb hlinks hspliced hown (by
    rw [hheads, hfirst, List.length_cons]
    omega) hrun
  exact ⟨⟨hrooted, by simp [hwrapped]⟩, hbelow⟩

/-- A block and the statement around it, whose only child and only link is the block. -/
theorem lowerWrapped_spot_settles (h : SettlesTrees spot.tree.children) (hb : b.WellFormed)
    (hlinks : b.LinksInside) (hfirst : spot.first = b.nodes.size)
    (hspliced : spot.isSpliced = false) (hwrapped : spot.isWrapped = true) {id : NodeId}
    (hrun : lowerWrapped (spot.holder?.map Spot.own) spot.extent (fun wrapper =>
      lowerAs (some wrapper) spot.kind spot.extent spot.tree.children fun id =>
        lowerTrees id spot.row.kind spot.tree.children) b = .ok id d) :
    spot.Settled d ∧ ∀ under ∈ spot.spotsUnder, under.isSpliced = false → under.Settled d := by
  obtain ⟨block, e, hok, hblock, rfl, rfl⟩ := lowerWrapped_eq_ok hrun
  have hkind : spot.kind = .codeBlock := kind_eq_codeBlock hwrapped
  have hown : spot.own =
      (b.added (spot.holder?.map Spot.own) .blockStatement spot.extent).nodes.size := by
    rw [own_of_isWrapped hwrapped, hfirst, size_added]
  have hlength : (b.added (spot.holder?.map Spot.own) .blockStatement spot.extent).nodes.size + 1 +
      (modifierHeads (b.added (spot.holder?.map Spot.own) .blockStatement spot.extent).nodes.size
        spot.kind spot.extent spot.tree.children).length = spot.first + spot.heads.length := by
    rw [heads_of_isWrapped hspliced hwrapped, hfirst, hkind, modifierHeads_of_ne (by simp),
      size_added]
    rfl
  have hwell := hb.added .blockStatement hok
  have hinside := hlinks.added (spot.holder?.map Spot.own) .blockStatement spot.extent
  obtain ⟨hrooted, hbelow⟩ := lowerAs_settles h hwell hinside hspliced hown hlength hblock
  obtain ⟨hid, hgraft⟩ := (lowerAs_own (lowersTrees _) hwell hinside (some b.nodes.size) hspliced
    hown hlength).of_ok hblock
  rw [← hown] at hid hgraft
  subst hid
  have hlt : b.nodes.size < spot.own := by
    rw [own_of_isWrapped hwrapped, hfirst]
    exact Nat.lt_succ_self _
  have hsize : b.nodes.size < e.nodes.size := Nat.lt_trans hlt hrooted.placed
  refine ⟨⟨?_, fun _ => ?_⟩, fun under hunder hunspliced => ?_⟩
  · exact hrooted.setLinks hgraft.wellFormed hlt _
  · have hbare : e.links b.nodes.size = {} := by
      rw [hgraft.links _ (by simp)]
      simp [TreeBuilder.links, node?_added]
    rw [hfirst, children_setLinks, links_setLinks hsize, if_pos rfl, hgraft.children_new, hbare]
    exact ⟨rfl, rfl⟩
  · have hbehind := own_lt_of_mem_spotsUnder hspliced hunder
    exact (hbelow under hunder hunspliced).setLinks hgraft.wellFormed (Nat.lt_trans hlt hbehind) _

theorem settlesTree_node {row : Row} {trees : List ParseTree} (h : SettlesTrees trees) :
    SettlesTree (node row trees) := by
  intro b c above id hb hlinks hfits hspliced hrun
  let spot : Spot := ⟨⟨b.nodes.size, node row trees⟩, above⟩
  have hspots : spotsFrom b.nodes.size above (node row trees) = spot :: spot.spotsUnder := by
    rw [spotsFrom]
    rfl
  have hsettled : spot.Settled c ∧
      ∀ under ∈ spot.spotsUnder, under.isSpliced = false → under.Settled c := by
    rw [lowerTree] at hrun
    obtain ⟨extent, b', hordered, hrun⟩ := exists_of_bind_eq_ok hrun
    by_cases horder : row.stop < row.start
    · rw [Extent.ordered, if_pos horder] at hordered
      cases hordered
    rw [Extent.ordered, if_neg horder] at hordered
    cases hordered
    cases hwrapped : spot.isWrapped with
    | true =>
      have hblock : isStatementBlock row (kindAbove above) = true := hwrapped
      simp only [hblock, if_true] at hrun
      exact lowerWrapped_spot_settles h hb hlinks rfl hspliced hwrapped hrun
    | false =>
      have hblock : isStatementBlock row (kindAbove above) = false := hwrapped
      simp only [hblock, Bool.false_eq_true, if_false] at hrun
      exact lowerAs_spot_settles h hb hlinks rfl hspliced hwrapped hrun
  rw [hspots]
  intro again hagain hown
  rcases List.mem_cons.mp hagain with rfl | hunder
  · exact hsettled.1
  · exact hsettled.2 again hunder hown

theorem settlesTrees_nil : SettlesTrees [] := by
  intro b c above holder lowered _ _ _ _ hrun
  rw [lowerTrees] at hrun
  cases hrun
  rw [heldBelow, spotsBelow]
  exact ⟨rfl, by simp⟩

/-- Trees after others: what the others have settled stays so. -/
theorem SettlesTrees.after {trees : List ParseTree} (h : SettlesTrees trees) {above : List Place}
    {holder : Spot} (hfits : Fits b above) (hholder : holderAmong? above = some holder)
    {ids : List NodeId} {before : List Spot} {lowered : List Lowered}
    (hgraft : Grafted b c (some holder.own) ids (before.flatMap Spot.heads))
    (hbefore : Consecutive b.nodes.size before)
    (hsettled : ∀ spot ∈ before, spot.isSpliced = false → spot.Settled c)
    (hrun : lowerTrees holder.own (kindAbove above) trees c = .ok lowered d) :
    let next := b.nodes.size + (before.flatMap Spot.heads).length
    lowered = (heldBelow next above trees).map Spot.lowered ∧
      ∀ spot ∈ before ++ spotsBelow next above trees, spot.isSpliced = false →
        spot.Settled d := by
  intro next
  have hsize : c.nodes.size = next := hgraft.size
  have hfits' := hfits.grafted hholder hgraft
  obtain ⟨hheld, hrest⟩ := h c d above holder lowered hgraft.wellFormed hgraft.linksInside hfits'
    hholder hrun
  have hmore := (lowersTrees trees c above holder hgraft.wellFormed hgraft.linksInside hfits'
    hholder).of_ok hrun
  rw [hsize] at hheld hrest
  refine ⟨hheld, fun spot hspot hown => ?_⟩
  rcases List.mem_append.mp hspot with hmem | hmem
  · -- The later trees go under the holder, which stands before all rows of the earlier ones.
    refine (hsettled spot hmem hown).grafted hgraft.wellFormed hmore ?_
    rintro p hp
    cases hp
    obtain ⟨head, hhead, -⟩ := hfits.holder holder hholder
    exact Nat.lt_of_lt_of_le (lt_size_of_head hhead) (hbefore.first_le hmem)
  · exact hrest spot hmem hown

theorem settlesTrees_cons {row : Row} {children rest : List ParseTree}
    (htree : SettlesTree (node row children)) (hbelow : SettlesTrees children)
    (hrest : SettlesTrees rest) : SettlesTrees (node row children :: rest) := by
  intro b d above holder lowered hb hlinks hfits hholder hrun
  have habove : above ≠ [] := by
    rintro rfl
    cases hholder
  rw [lowerTrees] at hrun
  rw [heldBelow, heldFrom, spotsBelow]
  by_cases hkind : row.kind = splicedRule
  · rw [if_pos hkind] at hrun ⊢
    let place : Place := ⟨b.nodes.size, node row children⟩
    have hspliced : Spot.isSpliced ⟨place, above⟩ = true := isSpliced_iff.mpr ⟨habove, hkind⟩
    have hwithin := (holderAmong?_of_isSpliced hspliced).trans hholder
    obtain ⟨parts, c, hparts, hrun⟩ := exists_of_bind_eq_ok hrun
    obtain ⟨others, _, hothers, hpure⟩ := exists_of_bind_eq_ok hrun
    cases hpure
    have hgraft := (lowersTrees children b (place :: above) holder hb hlinks
      (hfits.spliced hspliced) hwithin).of_ok hparts
    obtain ⟨hheld, hsettled⟩ := hbelow b c (place :: above) holder parts hb hlinks
      (hfits.spliced hspliced) hwithin hparts
    have hspots := spotsFrom_of_isSpliced hspliced
    have hheads : (spotsFrom b.nodes.size above (node row children)).flatMap Spot.heads =
        (spotsBelow b.nodes.size (place :: above) children).flatMap Spot.heads := by
      rw [hspots, List.flatMap_cons, heads_of_isSpliced hspliced, List.nil_append]
    rw [← hheads] at hgraft
    have hfrom : ∀ spot ∈ spotsFrom b.nodes.size above (node row children),
        spot.isSpliced = false → spot.Settled c := by
      rw [hspots]
      intro spot hspot hown
      rcases List.mem_cons.mp hspot with rfl | hmem
      · rw [hspliced] at hown
        cases hown
      · exact hsettled spot hmem hown
    obtain ⟨hmore, hall⟩ := hrest.after hfits hholder hgraft (consecutive_spotsFrom _ _ _) hfrom
      hothers
    rw [hheld, hmore, List.map_append]
    exact ⟨rfl, hall⟩
  · rw [if_neg hkind] at hrun ⊢
    have hspliced : Spot.isSpliced ⟨⟨b.nodes.size, node row children⟩, above⟩ = false := by
      exact Bool.eq_false_iff.mpr fun h => hkind (isSpliced_iff.mp h).2
    obtain ⟨id, c, hid, hrun⟩ := exists_of_bind_eq_ok hrun
    obtain ⟨others, _, hothers, hpure⟩ := exists_of_bind_eq_ok hrun
    cases hpure
    have hid' : lowerTree ((holderAmong? above).map Spot.own) (kindAbove above)
        (node row children) b = .ok id c := by
      rw [hholder]
      exact hid
    obtain ⟨rfl, hgraft⟩ := (lowersTree _ b above hb hlinks hfits hspliced).of_ok hid'
    rw [hholder] at hgraft
    have hfrom := htree b c above _ hb hlinks hfits hspliced hid'
    obtain ⟨hmore, hall⟩ := hrest.after hfits hholder hgraft (consecutive_spotsFrom _ _ _) hfrom
      hothers
    rw [hmore, List.map_append]
    exact ⟨rfl, hall⟩

theorem settlesTrees (trees : List ParseTree) : SettlesTrees trees := by
  induction trees using forest_induction with
  | nil => exact settlesTrees_nil
  | cons row children rest ihbelow ihrest =>
    exact settlesTrees_cons (settlesTree_node ihbelow) ihbelow ihrest

theorem settlesTree (tree : ParseTree) : SettlesTree tree := by
  cases tree with
  | node row children => exact settlesTree_node (settlesTrees children)

/-- A builder has the nodes of the rows of a tree in order, and all rows are settled. -/
structure Built (tree : ParseTree) (b : TreeBuilder) : Prop where
  heads : b.heads = tree.spots.flatMap Spot.heads
  numbered : Numbered b [0] 0 b.nodes.size
  wellFormed : b.WellFormed
  settled : ∀ spot ∈ tree.spots, spot.isSpliced = false → spot.Settled b

theorem exists_built {tree : ParseTree} {source : String} {lowered : SyntaxTree}
    (h : tree.lower source = .ok lowered) :
    ∃ b, tree.Built b ∧ b.source = source ∧ lowered = ⟨b.source, b.nodes⟩ := by
  have hyields := lowerTree_yields tree source
  unfold lower at h
  cases hrun : lowerTree none "" tree (start source) with
  | error e b =>
    rw [hrun] at h
    cases h
  | ok id b =>
    rw [hrun] at h
    obtain ⟨hgraft, hfinish⟩ := hyields.of_ok hrun
    cases hfinish.symm.trans h
    have hsettled := settlesTree tree (start source) b [] id (wellFormed_start source)
      (linksInside_start source) (fits_start source) rfl hrun
    exact ⟨b, ⟨hgraft.heads, hgraft.numbered, hgraft.wellFormed, hsettled⟩, hgraft.source, rfl⟩

namespace Built

variable {tree : ParseTree} {i k : Nat} {head : Head}

theorem head_at (h : tree.Built b) (hmem : spot ∈ tree.spots) (hk : spot.heads[k]? = some head) :
    b.heads[spot.first + k]? = some head := by
  have hlt : k < spot.heads.length := (List.getElem?_eq_some_iff.mp hk).1
  have hheads := (consecutive_spotsFrom 0 [] tree).heads_getElem? hmem hlt
  rw [Nat.sub_zero] at hheads
  rw [h.heads, ← hk]
  exact hheads

theorem head_own (h : tree.Built b) (hmem : spot ∈ tree.spots) (hown : spot.isSpliced = false) :
    ∃ parent, b.heads[spot.own]? = some ⟨spot.kind, spot.extent, parent⟩ := by
  obtain ⟨k, parent, hk, hhead⟩ := exists_own_head hown
  exact ⟨parent, by rw [hk]; exact h.head_at hmem hhead⟩

/-- The node that stands for a row among its siblings. -/
theorem head_first (h : tree.Built b) (hmem : spot ∈ tree.spots) (hown : spot.isSpliced = false) :
    ∃ parent, b.heads[spot.first]? =
      some ⟨if spot.isWrapped then .blockStatement else spot.kind, spot.extent, parent⟩ := by
  refine ⟨spot.holder?.map Spot.own, h.head_at (k := 0) hmem ?_⟩
  cases hwrapped : spot.isWrapped with
  | true => rw [heads_of_isWrapped hown hwrapped]; rfl
  | false => rw [heads_of_not_isWrapped hown hwrapped]; rfl

theorem exists_part (h : tree.Built b) (hhead : b.heads[i]? = some head) :
    ∃ spot ∈ tree.spots, spot.isSpliced = false ∧ spot.Part i head := by
  have hi : i < (tree.spots.flatMap Spot.heads).length := by
    rw [← h.heads, length_heads]
    exact lt_size_of_head hhead
  obtain ⟨spot, hmem, k, hk, heq⟩ := (consecutive_spotsFrom 0 [] tree).exists_spot hi
  rw [Nat.zero_add] at heq
  have hown : spot.isSpliced = false := Bool.eq_false_iff.mpr fun hs => by
    simp [heads_of_isSpliced hs] at hk
  have hthere := h.head_at hmem (List.getElem?_eq_getElem hk)
  rw [← heq, hhead] at hthere
  cases hthere
  rw [heq]
  exact ⟨spot, hmem, hown, part_of_heads_getElem? (List.getElem?_eq_getElem hk)⟩

end Built

end ParseTree

end BlockShading
