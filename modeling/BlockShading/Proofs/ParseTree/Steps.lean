import BlockShading.ParseTree.Lower
import BlockShading.Proofs.Tree.Finish

/-!
# Lowering as operations on a builder

Lowering changes a builder only by pushes and edits of links, so the builder it leaves is one that
some operations lead to, also when it fails on the way. What is proved of finished trees therefore
holds of every lowered tree.
-/

namespace BlockShading

namespace Building

open TreeBuilder

variable {α β : Type} {x : Building α} {g : α → Building β}

/-- The builder that a step leaves. -/
def left : EStateM.Result TreeError TreeBuilder α → TreeBuilder
  | .ok _ b => b
  | .error _ b => b

/-- Whether operations lead to whatever builder a step leaves. -/
def Composed (x : Building α) : Prop :=
  ∀ b, ∃ operations, left (x b) = (performAll b operations).2

theorem performAll_append (b : TreeBuilder) (first second : List Operation) :
    (performAll b (first ++ second)).2 = (performAll (performAll b first).2 second).2 := by
  induction first generalizing b with
  | nil => rfl
  | cons operation rest ih =>
    simp only [List.cons_append, performAll]
    cases operation.perform b <;> exact ih _

theorem performAll_single (b : TreeBuilder) (operation : Operation) :
    (performAll b [operation]).2 = left (operation.perform b) := by
  simp only [performAll]
  cases operation.perform b <;> rfl

namespace Composed

theorem pure (a : α) : Composed (Pure.pure a : Building α) := fun _ => ⟨[], rfl⟩

theorem ofExcept (result : Except TreeError α) :
    Composed (MonadExcept.ofExcept result : Building α) := by
  cases result <;> exact fun _ => ⟨[], rfl⟩

theorem get : Composed (MonadState.get : Building TreeBuilder) := fun _ => ⟨[], rfl⟩

theorem bind (hx : Composed x) (hg : ∀ a, Composed (g a)) : Composed (x >>= g) := by
  intro b
  obtain ⟨first, hfirst⟩ := hx b
  cases hxb : x b with
  | ok a c =>
    obtain ⟨second, hsecond⟩ := hg a c
    rw [hxb] at hfirst
    refine ⟨first ++ second, ?_⟩
    rw [bind_of_ok hxb, hsecond, performAll_append, ← hfirst]
    rfl
  | error e c =>
    rw [hxb] at hfirst
    exact ⟨first, by rw [bind_of_error hxb, ← hfirst]; rfl⟩

theorem push (parent : Option NodeId) (kind : NodeKind) (extent : Extent) :
    Composed (TreeBuilder.push parent kind extent) := by
  intro b
  refine ⟨[.push parent kind extent], ?_⟩
  rw [performAll_single, Operation.perform]
  cases hpush : TreeBuilder.push parent kind extent b with
  | ok id c => rw [bind_of_ok hpush]; rfl
  | error e c => rw [bind_of_error hpush]; rfl

theorem modifyLinks (id : NodeId) (change : Links → Links) :
    Composed (TreeBuilder.modifyLinks id change) := by
  intro b
  refine ⟨[.editLinks id change], ?_⟩
  rw [performAll_single, Operation.perform]
  cases hedit : TreeBuilder.modifyLinks id change b with
  | ok _ c => rw [bind_of_ok hedit]; rfl
  | error e c => rw [bind_of_error hedit]; rfl

end Composed

end Building

namespace ParseTree

open Building

theorem pushModifiers_composed (id : NodeId) (kind : NodeKind) (extent : Extent)
    (children : List ParseTree) : Composed (pushModifiers id kind extent children) := by
  unfold pushModifiers
  split
  · exact (Composed.push _ _ _).bind fun _ => .pure _
  · exact .pure _

theorem lowerAs_composed (parent : Option NodeId) (kind : NodeKind) (extent : Extent)
    (children : List ParseTree) {lowerBelow : NodeId → Building (List Lowered)}
    (hbelow : ∀ id, Composed (lowerBelow id)) :
    Composed (lowerAs parent kind extent children lowerBelow) := by
  refine (Composed.push _ _ _).bind fun id => ?_
  refine (pushModifiers_composed _ _ _ _).bind fun modifiers => (hbelow id).bind fun lowered => ?_
  exact Composed.get.bind fun b => (Composed.modifyLinks _ _).bind fun _ => .pure _

theorem lowerWrapped_composed (parent : Option NodeId) (extent : Extent)
    {lowerBlock : NodeId → Building NodeId} (hblock : ∀ id, Composed (lowerBlock id)) :
    Composed (lowerWrapped parent extent lowerBlock) := by
  refine (Composed.push _ _ _).bind fun wrapper => (hblock wrapper).bind fun block => ?_
  exact (Composed.modifyLinks _ _).bind fun _ => .pure _

theorem lowerTree_composed_of_below (parent : Option NodeId) (parentKind : String) (row : Row)
    {children : List ParseTree}
    (hbelow : ∀ id kind, Composed (lowerTrees id kind children)) :
    Composed (lowerTree parent parentKind (node row children)) := by
  rw [lowerTree]
  refine (Composed.ofExcept _).bind fun extent => ?_
  split
  · exact lowerWrapped_composed _ _ fun _ => lowerAs_composed _ _ _ _ fun id => hbelow id _
  · exact lowerAs_composed _ _ _ _ fun id => hbelow id _

theorem lowerTrees_composed : ∀ (trees : List ParseTree) (parent : NodeId) (parentKind : String),
    Composed (lowerTrees parent parentKind trees)
  | [], _, _ => by
    rw [lowerTrees]
    exact .pure _
  | node row children :: rest, parent, parentKind => by
    have hbelow : ∀ id kind, Composed (lowerTrees id kind children) := fun id kind =>
      lowerTrees_composed children id kind
    have hrest := lowerTrees_composed rest parent parentKind
    rw [lowerTrees]
    split
    · exact (hbelow parent row.kind).bind fun parts => hrest.bind fun others => .pure _
    · exact (lowerTree_composed_of_below _ _ row hbelow).bind fun id =>
        hrest.bind fun others => .pure _

/-- A lowered tree is a finished tree. -/
theorem finished_of_lower {tree : ParseTree} {source : String} {lowered : SyntaxTree}
    (h : tree.lower source = .ok lowered) : lowered.Finished := by
  cases tree with
  | node row children =>
    have hcomposed := lowerTree_composed_of_below none "" row fun id kind =>
      lowerTrees_composed children id kind
    obtain ⟨operations, hleft⟩ := hcomposed (TreeBuilder.start source)
    unfold lower at h
    split at h
    · cases h
    · next b hb =>
      rw [hb] at hleft
      exact ⟨source, operations, hleft ▸ h⟩

end ParseTree

end BlockShading
