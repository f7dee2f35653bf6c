import BlockShading.Proofs.ParseTree.Spots

/-!
# The rows that a row holds

The children of the node of a row stand for the rows right below it, where a row that is left out
gives way to what is below it in turn. `Spot.held` lists these rows. The nodes of different rows
are apart from each other, and each position is that of a node of some row.
-/

namespace BlockShading.ParseTree

mutual

/-- The rows of a tree that belong to the row above it: its own, or what is below if that is left
out. -/
def heldFrom (first : NodeId) (above : List Place) : ParseTree → List Spot
  | node row children =>
    let place : Place := ⟨first, node row children⟩
    if row.kind = splicedRule then heldBelow first (place :: above) children
    else [⟨place, above⟩]

def heldBelow (first : NodeId) (above : List Place) : List ParseTree → List Spot
  | [] => []
  | tree :: rest =>
    let next := first + ((spotsFrom first above tree).flatMap Spot.heads).length
    heldFrom first above tree ++ heldBelow next above rest

end

namespace Spot

variable (spot : Spot)

def held : List Spot :=
  heldBelow (spot.first + spot.heads.length) (spot.toPlace :: spot.above) spot.tree.children

/-- The tree of the row with the position of the node that stands for it. -/
def lowered : Lowered := ⟨spot.first, spot.tree⟩

/-- The position of the empty list of modifiers, for a method without any. -/
def inserted? : Option NodeId :=
  if spot.kind = .methodDecl ∧ !hasChild spot.tree.children "modifiers" then some (spot.own + 1)
  else none

end Spot

variable {spot other : Spot} {first : NodeId} {above : List Place} {trees : List ParseTree}
  {spots : List Spot} {i k : Nat}

/-- Induction on trees in a row: below the first of them, and on the others. -/
theorem forest_induction {P : List ParseTree → Prop} (nil : P [])
    (cons : ∀ row children rest, P children → P rest → P (node row children :: rest)) :
    ∀ trees, P trees
  | [] => nil
  | node row children :: rest =>
    cons row children rest (forest_induction nil cons children) (forest_induction nil cons rest)

/-- A held row is among the rows below, is not left out itself, and only rows that are left out
stand between it and its holder. -/
theorem mem_heldBelow (habove : above ≠ []) (h : spot ∈ heldBelow first above trees) :
    spot ∈ spotsBelow first above trees ∧ spot.isSpliced = false ∧
      holderAmong? spot.above = holderAmong? above := by
  induction trees using forest_induction generalizing first above with
  | nil => simp [heldBelow] at h
  | cons row children rest ihbelow ihrest =>
    rw [spotsBelow, List.mem_append]
    rw [heldBelow, List.mem_append, heldFrom] at h
    rcases h with hfirst | hrest
    · by_cases hkind : row.kind = splicedRule
      · -- The row gives way to what is below it, which has the same holder.
        have hspliced : Spot.isSpliced ⟨⟨first, node row children⟩, above⟩ = true :=
          isSpliced_iff.mpr ⟨habove, hkind⟩
        rw [if_pos hkind] at hfirst
        obtain ⟨hmem, hown, hholder⟩ := ihbelow (List.cons_ne_nil _ _) hfirst
        rw [spotsFrom_of_isSpliced hspliced]
        exact ⟨Or.inl (List.mem_cons_of_mem _ hmem), hown,
          hholder.trans (holderAmong?_of_isSpliced hspliced)⟩
      · rw [if_neg hkind] at hfirst
        cases List.mem_singleton.mp hfirst
        refine ⟨Or.inl ?_, Bool.eq_false_iff.mpr fun hs => hkind (isSpliced_iff.mp hs).2, rfl⟩
        rw [spotsFrom]
        exact List.mem_cons_self
    · obtain ⟨hmem, hown, hholder⟩ := ihrest habove hrest
      exact ⟨Or.inr hmem, hown, hholder⟩

/-- Where nothing is left out, the held rows are those of the trees, in order. -/
theorem heldBelow_of_no_splice (h : ∀ tree ∈ trees, tree.row.kind ≠ splicedRule) :
    (heldBelow first above trees).map (·.tree) = trees := by
  induction trees using forest_induction generalizing first above with
  | nil => simp [heldBelow]
  | cons row children rest _ ihrest =>
    have hkind : row.kind ≠ splicedRule := h (node row children) List.mem_cons_self
    rw [heldBelow, heldFrom, if_neg hkind, List.singleton_append, List.map_cons,
      ihrest fun tree ht => h tree (List.mem_cons_of_mem _ ht)]

/-- The rows below a row of a forest are rows of the forest. -/
theorem mem_spotsBelow_trans (h : spot ∈ spotsBelow first above trees)
    (hother : other ∈ spot.spotsUnder) : other ∈ spotsBelow first above trees := by
  induction trees using forest_induction generalizing first above with
  | nil => simp [spotsBelow] at h
  | cons row children rest ihbelow ihrest =>
    rw [spotsBelow, List.mem_append] at h ⊢
    rw [spotsFrom] at h ⊢
    rcases h with hfrom | hrest
    · refine Or.inl (List.mem_cons_of_mem _ ?_)
      rcases List.mem_cons.mp hfrom with rfl | hbelow
      · exact hother
      · exact ihbelow hbelow
    · exact Or.inr (ihrest hrest)

theorem mem_spots_of_mem_spotsUnder {tree : ParseTree} (h : spot ∈ tree.spots)
    (hother : other ∈ spot.spotsUnder) : other ∈ tree.spots := by
  have hforest : ∀ s, s ∈ tree.spots ↔ s ∈ spotsBelow 0 [] [tree] := by
    simp [spots, spotsBelow]
  rw [hforest] at h ⊢
  exact mem_spotsBelow_trans h hother

theorem mem_held (h : other ∈ spot.held) (hspot : spot.isSpliced = false) :
    other ∈ spot.spotsUnder ∧ other.isSpliced = false ∧ other.holder? = some spot := by
  obtain ⟨hmem, hown, hholder⟩ := mem_heldBelow (List.cons_ne_nil _ _) h
  exact ⟨hmem, hown, hholder.trans (holderAmong?_of_not_isSpliced hspot)⟩

theorem inserted?_of_isWrapped (h : spot.isWrapped = true) : spot.inserted? = none := by
  have hkind : spot.kind = .codeBlock := kind_eq_codeBlock h
  simp [Spot.inserted?, hkind]

theorem own_of_not_isWrapped (h : spot.isWrapped = false) : spot.own = spot.first := by
  simp [Spot.own, h]

theorem own_of_isWrapped (h : spot.isWrapped = true) : spot.own = spot.first + 1 := by
  simp [Spot.own, h]

/-- What the node at a position is for a row. -/
inductive Spot.Part (spot : Spot) : NodeId → Head → Prop
  | own (parent : Option NodeId) : Part spot spot.own ⟨spot.kind, spot.extent, parent⟩
  | wrapper (h : spot.isWrapped = true) (parent : Option NodeId) :
      Part spot spot.first ⟨.blockStatement, spot.extent, parent⟩
  | inserted {i : NodeId} (h : spot.inserted? = some i) :
      Part spot i ⟨.modifierList, ⟨spot.extent.start, spot.extent.start⟩, some spot.own⟩

/-- The nodes of a row: its own one, and one around it or an empty list of modifiers behind it. -/
theorem part_of_heads_getElem? {head : Head} (h : spot.heads[k]? = some head) :
    spot.Part (spot.first + k) head := by
  have hspliced : spot.isSpliced = false := Bool.eq_false_iff.mpr fun hs => by
    simp [heads_of_isSpliced hs] at h
  cases hwrapped : spot.isWrapped with
  | true =>
    have hkind : spot.kind = .codeBlock := kind_eq_codeBlock hwrapped
    rw [heads_of_isWrapped hspliced hwrapped] at h
    match k, h with
    | 0, h =>
      cases h
      exact .wrapper hwrapped _
    | 1, h =>
      cases h
      rw [← own_of_isWrapped hwrapped, ← hkind]
      exact .own _
  | false =>
    have hown := own_of_not_isWrapped hwrapped
    rw [heads_of_not_isWrapped hspliced hwrapped] at h
    match k, h with
    | 0, h =>
      cases h
      rw [Nat.add_zero, ← hown]
      exact .own _
    | 1, h =>
      rw [List.getElem?_cons_succ, modifierHeads] at h
      split at h
      · next hinserted =>
        cases h
        rw [← hown]
        exact .inserted (by rw [Spot.inserted?, if_pos hinserted])
      · cases h
    | k + 2, h =>
      rw [List.getElem?_cons_succ, modifierHeads] at h
      split at h <;> cases h

theorem exists_own_head (h : spot.isSpliced = false) :
    ∃ k parent, spot.own = spot.first + k ∧
      spot.heads[k]? = some ⟨spot.kind, spot.extent, parent⟩ := by
  cases hwrapped : spot.isWrapped with
  | true =>
    have hkind : spot.kind = .codeBlock := kind_eq_codeBlock hwrapped
    refine ⟨1, some spot.first, own_of_isWrapped hwrapped, ?_⟩
    rw [heads_of_isWrapped h hwrapped, hkind]
    rfl
  | false =>
    refine ⟨0, spot.holder?.map Spot.own, own_of_not_isWrapped hwrapped, ?_⟩
    rw [heads_of_not_isWrapped h hwrapped]
    rfl

theorem inserted_head (h : spot.isSpliced = false) (hi : spot.inserted? = some i) :
    i = spot.first + 1 ∧ spot.own = spot.first ∧
      spot.heads[1]? = some ⟨.modifierList, ⟨spot.extent.start, spot.extent.start⟩,
        some spot.own⟩ := by
  have hwrapped : spot.isWrapped = false := Bool.eq_false_iff.mpr fun hw => by
    rw [inserted?_of_isWrapped hw] at hi
    cases hi
  have hown := own_of_not_isWrapped hwrapped
  rw [Spot.inserted?] at hi
  split at hi
  · next hmissing =>
    cases hi
    refine ⟨by rw [hown], hown, ?_⟩
    rw [heads_of_not_isWrapped h hwrapped, modifierHeads, if_pos hmissing, hown]
    rfl
  · cases hi

namespace Consecutive

variable {start : Nat}

theorem first_eq (h : Consecutive start spots) {before after : List Spot}
    (hsplit : spots = before ++ spot :: after) :
    start + (before.flatMap Spot.heads).length = spot.first :=
  (h before spot after hsplit).symm

theorem first_le (h : Consecutive start spots) (hmem : spot ∈ spots) : start ≤ spot.first := by
  obtain ⟨before, after, hsplit⟩ := List.append_of_mem hmem
  have hfirst := h.first_eq hsplit
  omega

theorem heads_getElem? (h : Consecutive start spots) (hmem : spot ∈ spots)
    (hk : k < spot.heads.length) :
    (spots.flatMap Spot.heads)[spot.first - start + k]? = spot.heads[k]? := by
  obtain ⟨before, after, rfl⟩ := List.append_of_mem hmem
  rw [← h.first_eq rfl, Nat.add_sub_cancel_left, List.flatMap_append,
    List.getElem?_append_right (Nat.le_add_right _ _), Nat.add_sub_cancel_left,
    List.flatMap_cons, List.getElem?_append_left hk]

/-- Every position is that of a node of some row. -/
theorem exists_spot (h : Consecutive start spots) (hi : i < (spots.flatMap Spot.heads).length) :
    ∃ spot ∈ spots, ∃ k < spot.heads.length, start + i = spot.first + k := by
  induction spots generalizing start i with
  | nil => simp at hi
  | cons spot rest ih =>
    have hfirst : start = spot.first := h.first_eq (List.nil_append _).symm
    have hrest : Consecutive (start + spot.heads.length) rest := by
      intro before again after hsplit
      rw [h (spot :: before) again after (by rw [hsplit, List.cons_append]), List.flatMap_cons,
        List.length_append, Nat.add_assoc]
    rw [List.flatMap_cons, List.length_append] at hi
    by_cases hhere : i < spot.heads.length
    · exact ⟨spot, List.mem_cons_self, i, hhere, by omega⟩
    · obtain ⟨again, hmem, k, hk, heq⟩ := ih hrest (i := i - spot.heads.length) (by omega)
      exact ⟨again, List.mem_cons_of_mem _ hmem, k, hk, by omega⟩

theorem spot_unique (h : Consecutive start spots) (hmem : spot ∈ spots) (hother : other ∈ spots)
    {j : Nat} (hk : k < spot.heads.length) (hj : j < other.heads.length)
    (hspot : i = spot.first + k) (hagain : i = other.first + j) : spot = other := by
  obtain ⟨before, after, rfl⟩ := List.append_of_mem hmem
  have hfirst := h.first_eq rfl
  -- Of two rows in a list the nodes of the earlier one end before those of the later one begin.
  rcases List.mem_append.mp hother with hbefore | hafter
  · obtain ⟨earlier, between, rfl⟩ := List.append_of_mem hbefore
    have hthere := h.first_eq (List.append_assoc earlier (other :: between) (spot :: after))
    simp only [List.flatMap_append, List.flatMap_cons, List.length_append] at hfirst
    omega
  · rcases List.mem_cons.mp hafter with rfl | hafter
    · rfl
    · obtain ⟨between, later, rfl⟩ := List.append_of_mem hafter
      have hthere := h.first_eq
        (List.append_assoc before (spot :: between) (other :: later)).symm
      simp only [List.flatMap_append, List.flatMap_cons, List.length_append] at hthere
      omega

end Consecutive

theorem own_lt_of_mem_spotsUnder (h : spot.isSpliced = false) (hother : other ∈ spot.spotsUnder) :
    spot.own < other.first := by
  obtain ⟨k, parent, hown, hhead⟩ := exists_own_head h
  have hk : k < spot.heads.length := (List.getElem?_eq_some_iff.mp hhead).1
  rw [hown]
  exact Nat.lt_of_lt_of_le (Nat.add_lt_add_left hk _)
    ((consecutive_spotsBelow _ _ _).first_le hother)

end BlockShading.ParseTree
