import BlockShading.ParseTree.Lower
import BlockShading.Proofs.Tree.Building

/-!
# The rows of a parse tree in their places

The rows of a parse tree are listed in pre-order, each with the rows above it. From its place
alone a row has the heads of the nodes that stand for it and the reason for which it has none.
Nothing here mentions a builder: this is what lowering a tree is measured against.
-/

namespace BlockShading.ParseTree

/-- A row with what is below it, and the number of nodes made for the rows before it. -/
structure Place where
  first : NodeId
  tree : ParseTree

/-- A row in its place, below other rows of which the nearest comes first. -/
structure Spot extends Place where
  above : List Place

def kindAbove : List Place → String
  | [] => ""
  | place :: _ => place.tree.row.kind

/-- The head of the empty list of modifiers under a method without any. -/
def modifierHeads (id : NodeId) (kind : NodeKind) (extent : Extent) (children : List ParseTree) :
    List Head :=
  if kind = .methodDecl ∧ !hasChild children "modifiers" then
    [⟨.modifierList, ⟨extent.start, extent.start⟩, some id⟩]
  else []

namespace Spot

variable (spot : Spot)

def row : Row := spot.tree.row

def extent : Extent := ⟨spot.row.start, spot.row.stop⟩

def parentKind : String := kindAbove spot.above

/-- Whether the row is left out and what is below it belongs to the row above. -/
def isSpliced : Bool := !spot.above.isEmpty && spot.row.kind == splicedRule

def isWrapped : Bool := isStatementBlock spot.row spot.parentKind

def kind : NodeKind := classify spot.row spot.tree.children spot.parentKind

def own : NodeId := if spot.isWrapped then spot.first + 1 else spot.first

end Spot

/-- The nearest of some rows, each above the one before, that is not left out. -/
def holderAmong? : List Place → Option Spot
  | [] => none
  | place :: above =>
    if Spot.isSpliced ⟨place, above⟩ then holderAmong? above else some ⟨place, above⟩

namespace Spot

variable (spot : Spot)

def holder? : Option Spot := holderAmong? spot.above

def heads : List Head :=
  if spot.isSpliced then []
  else if spot.isWrapped then
    [⟨.blockStatement, spot.extent, spot.holder?.map own⟩,
      ⟨.codeBlock, spot.extent, some spot.first⟩]
  else
    ⟨spot.kind, spot.extent, spot.holder?.map own⟩ ::
      modifierHeads spot.first spot.kind spot.extent spot.tree.children

def fault? (size : Nat) (spot : Spot) : Option TreeError :=
  if spot.isSpliced then none
  else if spot.extent.stop < spot.extent.start then
    some (.invalidRange spot.extent.start spot.extent.stop)
  else if size < spot.extent.stop then some (.outOfSource spot.extent size)
  else
    spot.holder?.bind fun holder =>
      if holder.extent.contains spot.extent then none
      else some (.childOutsideParent spot.first spot.extent holder.own holder.extent)

end Spot

mutual

/-- The rows of a tree in pre-order, with `first` nodes before them and `above` over them. -/
def spotsFrom (first : NodeId) (above : List Place) : ParseTree → List Spot
  | node row children =>
    let place : Place := ⟨first, node row children⟩
    let spot : Spot := ⟨place, above⟩
    spot :: spotsBelow (first + spot.heads.length) (place :: above) children

def spotsBelow (first : NodeId) (above : List Place) : List ParseTree → List Spot
  | [] => []
  | tree :: rest =>
    let spots := spotsFrom first above tree
    spots ++ spotsBelow (first + (spots.flatMap Spot.heads).length) above rest

end

def spots (tree : ParseTree) : List Spot := spotsFrom 0 [] tree

theorem kind_eq_codeBlock {row : Row} {children : List ParseTree} {parentKind : String}
    (h : isStatementBlock row parentKind = true) :
    classify row children parentKind = .codeBlock := by
  simp only [isStatementBlock, Bool.and_eq_true, beq_iff_eq, List.contains_iff_mem] at h
  obtain ⟨hblock, hcontext⟩ := h
  have hparent : parentKind ≠ "method_declaration" := by
    rintro rfl
    exact absurd hcontext (by decide)
  have hrule : kindOfRule? "block" = some .codeBlock := rfl
  rw [classify, hblock]
  simp [hparent, hrule]

/-- Below some row there is always one that is not left out: the root is not. -/
theorem exists_holder {above : List Place} (h : above ≠ []) :
    ∃ holder, holderAmong? above = some holder := by
  induction above with
  | nil => exact absurd rfl h
  | cons place above ih =>
    unfold holderAmong?
    split
    · next hspliced =>
      refine ih fun hnil => ?_
      simp [Spot.isSpliced, hnil] at hspliced
    · exact ⟨_, rfl⟩

theorem modifierHeads_of_ne {kind : NodeKind} (h : kind ≠ .methodDecl) (id : NodeId)
    (extent : Extent) (children : List ParseTree) :
    modifierHeads id kind extent children = [] := by
  simp [modifierHeads, h]

theorem isSpliced_iff {spot : Spot} :
    spot.isSpliced = true ↔ spot.above ≠ [] ∧ spot.row.kind = splicedRule := by
  simp [Spot.isSpliced]

theorem heads_of_isSpliced {spot : Spot} (h : spot.isSpliced = true) : spot.heads = [] := by
  rw [Spot.heads, if_pos h]

theorem fault?_of_isSpliced {spot : Spot} (h : spot.isSpliced = true) (size : Nat) :
    spot.fault? size = none := by
  rw [Spot.fault?, if_pos h]

theorem holderAmong?_of_isSpliced {place : Place} {above : List Place}
    (h : Spot.isSpliced ⟨place, above⟩ = true) :
    holderAmong? (place :: above) = holderAmong? above := by
  rw [holderAmong?, if_pos h]

theorem holderAmong?_of_not_isSpliced {place : Place} {above : List Place}
    (h : Spot.isSpliced ⟨place, above⟩ = false) :
    holderAmong? (place :: above) = some ⟨place, above⟩ := by
  rw [holderAmong?, if_neg (by simp [h])]

theorem findSome?_cons_or {α β : Type} (f : α → Option β) (x : α) (xs : List α) :
    (x :: xs).findSome? f = (f x).or (xs.findSome? f) := by
  rw [List.findSome?_cons]
  cases f x <;> rfl

/-- A row that is left out adds no node before the rows below it. -/
theorem spotsFrom_of_isSpliced {first : NodeId} {above : List Place} {row : Row}
    {children : List ParseTree} (h : Spot.isSpliced ⟨⟨first, node row children⟩, above⟩ = true) :
    spotsFrom first above (node row children) =
      ⟨⟨first, node row children⟩, above⟩ ::
        spotsBelow first (⟨first, node row children⟩ :: above) children := by
  rw [spotsFrom, heads_of_isSpliced h]
  rfl

theorem heads_of_isWrapped {spot : Spot} (hspliced : spot.isSpliced = false)
    (hwrapped : spot.isWrapped = true) :
    spot.heads = [⟨.blockStatement, spot.extent, spot.holder?.map Spot.own⟩,
      ⟨.codeBlock, spot.extent, some spot.first⟩] := by
  rw [Spot.heads, if_neg (by simp [hspliced]), if_pos hwrapped]

theorem heads_of_not_isWrapped {spot : Spot} (hspliced : spot.isSpliced = false)
    (hwrapped : spot.isWrapped = false) :
    spot.heads = ⟨spot.kind, spot.extent, spot.holder?.map Spot.own⟩ ::
      modifierHeads spot.first spot.kind spot.extent spot.tree.children := by
  rw [Spot.heads, if_neg (by simp [hspliced]), if_neg (by simp [hwrapped])]

def Spot.spotsUnder (spot : Spot) : List Spot :=
  spotsBelow (spot.first + spot.heads.length) (spot.toPlace :: spot.above) spot.tree.children

/-- The row covers a range of the source that lies inside the row that holds it. -/
structure Spot.Sound (size : Nat) (spot : Spot) : Prop where
  ordered : spot.row.start ≤ spot.row.stop
  inSource : spot.row.stop ≤ size
  nested : ∀ holder, spot.holder? = some holder → holder.extent.contains spot.extent = true

theorem fault?_eq_none_iff {size : Nat} {spot : Spot} :
    spot.fault? size = none ↔ (spot.isSpliced = false → spot.Sound size) := by
  have hextent : spot.extent = ⟨spot.row.start, spot.row.stop⟩ := rfl
  unfold Spot.fault?
  cases hspliced : spot.isSpliced with
  | true => simp
  | false =>
    simp only [Bool.false_eq_true, if_false, true_implies]
    by_cases horder : spot.extent.stop < spot.extent.start
    · rw [if_pos horder]
      refine iff_of_false (by simp) fun h => ?_
      exact absurd h.ordered (Nat.not_le.mpr horder)
    by_cases hsource : size < spot.extent.stop
    · rw [if_neg horder, if_pos hsource]
      refine iff_of_false (by simp) fun h => ?_
      exact absurd h.inSource (Nat.not_le.mpr hsource)
    rw [if_neg horder, if_neg hsource]
    constructor
    · intro h
      refine ⟨Nat.not_lt.mp horder, Nat.not_lt.mp hsource, fun holder hholder => ?_⟩
      simpa [hholder] using h
    · intro h
      cases hholder : spot.holder? with
      | none => rfl
      | some holder => simp [h.nested holder hholder]

/-- The only reasons for which a row is refused. -/
theorem fault?_cases {size : Nat} {spot : Spot} {e : TreeError} (h : spot.fault? size = some e) :
    e = .invalidRange spot.row.start spot.row.stop ∨ e = .outOfSource spot.extent size ∨
      ∃ holder, spot.holder? = some holder ∧
        e = .childOutsideParent spot.first spot.extent holder.own holder.extent := by
  unfold Spot.fault? at h
  split at h
  · cases h
  split at h
  · exact Or.inl (Option.some.inj h).symm
  split at h
  · exact Or.inr (Or.inl (Option.some.inj h).symm)
  · obtain ⟨holder, hholder, hfault⟩ := Option.bind_eq_some_iff.mp h
    split at hfault
    · cases hfault
    · exact Or.inr (Or.inr ⟨holder, hholder, (Option.some.inj hfault).symm⟩)

/-- Each row of a list begins where the heads of the rows before it end. -/
def Consecutive (first : Nat) (spots : List Spot) : Prop :=
  ∀ before spot after, spots = before ++ spot :: after →
    spot.first = first + (before.flatMap Spot.heads).length

theorem consecutive_nil (first : Nat) : Consecutive first [] := by
  intro before spot after h
  simp at h

theorem Consecutive.cons {spot : Spot} {spots : List Spot}
    (h : Consecutive (spot.first + spot.heads.length) spots) :
    Consecutive spot.first (spot :: spots) := by
  intro before again after hsplit
  rcases List.cons_eq_append_iff.mp hsplit with ⟨rfl, hcons⟩ | ⟨rest, rfl, hrest⟩
  · cases hcons
    rfl
  · rw [h rest again after hrest, List.flatMap_cons, List.length_append, Nat.add_assoc]

theorem Consecutive.append {first : Nat} {spots more : List Spot} (h : Consecutive first spots)
    (hmore : Consecutive (first + (spots.flatMap Spot.heads).length) more) :
    Consecutive first (spots ++ more) := by
  intro before spot after hsplit
  rcases List.append_eq_append_iff.mp hsplit with ⟨rest, rfl, hrest⟩ | ⟨rest, rfl, hrest⟩
  · rw [hmore rest spot after hrest, List.flatMap_append, List.length_append, Nat.add_assoc]
  · cases rest with
    | nil =>
      have := hmore [] spot after hrest.symm
      simpa using this
    | cons again rest =>
      cases hrest
      exact h before spot rest rfl

mutual

theorem consecutive_spotsFrom (first : Nat) (above : List Place) :
    ∀ tree, Consecutive first (spotsFrom first above tree)
  | node row children => by
    rw [spotsFrom]
    exact Consecutive.cons (consecutive_spotsBelow _ _ children)

theorem consecutive_spotsBelow (first : Nat) (above : List Place) :
    ∀ trees, Consecutive first (spotsBelow first above trees)
  | [] => by
    rw [spotsBelow]
    exact consecutive_nil first
  | tree :: rest => by
    rw [spotsBelow]
    exact (consecutive_spotsFrom first above tree).append (consecutive_spotsBelow _ above rest)

end

end BlockShading.ParseTree
