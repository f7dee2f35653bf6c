import BlockShading.Proofs.Tree.Finish

/-!
# Trees grafted onto a builder

Building a part of a tree adds nodes behind those that are there and children to one of them. This
is `Grafted`: it says which heads are added and under which node, that the new nodes are numbered
in the order of a walk, and that nothing else changes. Grafts are put together one after the other
and one below the other. `Yields` is the rule by which steps of building follow each other: the
first fault among them is the fault of all.
-/

namespace BlockShading

namespace TreeBuilder

variable {b c d : TreeBuilder} {ids rest : List NodeId} {i k m : Nat}

/-- The trees at some positions, one after the other, take up the positions from `i` to `m` in
pre-order. -/
inductive Numbered (b : TreeBuilder) : List NodeId → Nat → Nat → Prop
  | nil (i : Nat) : Numbered b [] i i
  | cons {i k m : Nat} {rest : List NodeId} (below : Numbered b (b.children i) (i + 1) k)
      (after : Numbered b rest k m) : Numbered b (i :: rest) i m

namespace Numbered

theorem le (h : Numbered b ids i m) : i ≤ m := by
  induction h with
  | nil => exact Nat.le_refl _
  | cons _ _ ihbelow ihafter => omega

theorem append {more : List NodeId} (h : Numbered b ids i k) (hmore : Numbered b more k m) :
    Numbered b (ids ++ more) i m := by
  induction h with
  | nil => exact hmore
  | cons below _ _ ihafter => exact .cons below (ihafter hmore)

theorem congr (h : Numbered b ids i m)
    (hsame : ∀ j, i ≤ j → j < m → c.children j = b.children j) : Numbered c ids i m := by
  induction h with
  | nil => exact .nil _
  | @cons i k m rest below after ihbelow ihafter =>
    have hk := below.le
    have hm := after.le
    refine .cons ?_ (ihafter fun j hj hjm => hsame j (by omega) hjm)
    rw [hsame i (Nat.le_refl i) (by omega)]
    exact ihbelow fun j hj hjk => hsame j (by omega) (by omega)

theorem mem_bounds (h : Numbered b ids i m) {c : Nat} (hc : c ∈ ids) : i ≤ c ∧ c < m := by
  induction h with
  | nil => cases hc
  | @cons i k m rest below after _ ihafter =>
    have hk := below.le
    have hm := after.le
    rcases List.mem_cons.mp hc with rfl | hrest
    · omega
    · have := ihafter hrest
      omega

/-- Below each of the numbered nodes the trees are numbered as well. -/
theorem numbered_children (h : Numbered b ids i m) {j : Nat} (hi : i ≤ j) (hj : j < m) :
    ∃ last, Numbered b (b.children j) (j + 1) last := by
  induction h with
  | nil => omega
  | @cons i k m rest below after ihbelow ihafter =>
    by_cases hroot : j = i
    · exact ⟨k, hroot ▸ below⟩
    by_cases hbelow : j < k
    · exact ihbelow (by omega) hbelow
    · exact ihafter (by omega) hj

/-- A walk passes the numbered trees in the order of their numbers and goes on behind them. -/
theorem walk_eq (h : Numbered b ids i m) (hm : m ≤ b.nodes.size) (steps : Nat)
    (pending : List NodeId) :
    SyntaxTree.walk ⟨b.source, b.nodes⟩ (steps + (m - i)) (ids ++ pending) =
      List.range' i (m - i) ++ SyntaxTree.walk ⟨b.source, b.nodes⟩ steps pending := by
  induction h generalizing steps pending with
  | nil => simp
  | @cons i k m rest below after ihbelow ihafter =>
    have hik := below.le
    have hkm := after.le
    obtain ⟨head, hhead⟩ := exists_head_of_lt (b := b) (i := i) (by omega)
    obtain ⟨node, hnode, -, hchildren, -⟩ := exists_node_of_head hhead
    have hnode' : SyntaxTree.node? ⟨b.source, b.nodes⟩ i = some node := hnode
    have hsteps : steps + (m - i) = steps + (m - k) + (k - (i + 1)) + 1 := by omega
    have hrange : List.range' i (m - i) =
        i :: (List.range' (i + 1) (k - (i + 1)) ++ List.range' k (m - k)) := by
      have hcount : m - i = (k - (i + 1)) + (m - k) + 1 := by omega
      have hk : k = i + 1 + (k - (i + 1)) := by omega
      rw [hcount, List.range'_succ, ← List.range'_append_1, ← hk]
    rw [hsteps, List.cons_append, SyntaxTree.walk, hnode']
    simp only [hchildren]
    rw [ihbelow (by omega), ihafter hm, hrange, List.cons_append, List.append_assoc]

/-- A whole tree numbered in pre-order is walked from its first node to its last. -/
theorem preorder_eq_range (h : Numbered b [0] 0 b.nodes.size) :
    SyntaxTree.preorder ⟨b.source, b.nodes⟩ = List.range b.nodes.size := by
  have hwalk := h.walk_eq (Nat.le_refl _) 0 []
  simpa [SyntaxTree.preorder, SyntaxTree.size, SyntaxTree.walk, List.range_eq_range'] using hwalk

end Numbered

theorem linksInside_start (source : String) : (start source).LinksInside := by
  intro owner head hhead
  simp [start, TreeBuilder.heads] at hhead

namespace LinksInside

theorem added (h : b.LinksInside) (parent : Option NodeId) (kind : NodeKind) (extent : Extent) :
    (b.added parent kind extent).LinksInside := by
  intro owner head hhead target htarget
  rw [links_added] at htarget
  obtain ⟨rfl, -⟩ | hold := heads_added_cases hhead
  · -- The new node has no links.
    have hnone : b.node? b.nodes.size = none := Array.getElem?_eq_none (Nat.le_refl _)
    simp [links, hnone, Links.targets, Role.all, ListRole.all, Links.get, Links.getList] at htarget
  · obtain ⟨found, hfound, hin⟩ := h owner head hold target htarget
    exact ⟨found, head_added_of_some hfound parent kind extent, hin⟩

theorem setLinks (h : b.LinksInside) {id : Nat} {change : Links → Links}
    (hinside : ∀ head, b.heads[id]? = some head →
      ∀ target ∈ (change (b.links id)).targets, b.Holds head.extent target) :
    (b.setLinks id change).LinksInside := by
  intro owner head hhead target htarget
  rw [heads_setLinks] at hhead
  have hold : b.Holds head.extent target := by
    rw [links_setLinks (lt_size_of_head hhead)] at htarget
    split at htarget
    · next howner =>
      subst howner
      exact hinside head hhead target htarget
    · exact h owner head hhead target htarget
  obtain ⟨found, hfound, hin⟩ := hold
  exact ⟨found, by rw [heads_setLinks]; exact hfound, hin⟩

end LinksInside

/-- `c` is `b` with trees at `ids` grafted under `owner`, made of nodes with the given heads. -/
structure Grafted (b c : TreeBuilder) (owner : Option NodeId) (ids : List NodeId)
    (new : List Head) : Prop where
  source : c.source = b.source
  heads : c.heads = b.heads ++ new
  children : ∀ i < b.nodes.size, c.children i = b.children i ++ if owner = some i then ids else []
  links : ∀ i < b.nodes.size, c.links i = b.links i
  numbered : Numbered c ids b.nodes.size c.nodes.size
  wellFormed : c.WellFormed
  linksInside : c.LinksInside

namespace Grafted

variable {owner parent : Option NodeId} {new : List Head} {kind : NodeKind} {extent : Extent}

theorem refl (hb : b.WellFormed) (hlinks : b.LinksInside) (owner : Option NodeId) :
    Grafted b b owner [] [] where
  source := rfl
  heads := by simp
  children := by simp
  links := fun _ _ => rfl
  numbered := .nil _
  wellFormed := hb
  linksInside := hlinks

theorem size (h : Grafted b c owner ids new) : c.nodes.size = b.nodes.size + new.length := by
  rw [← length_heads, h.heads, List.length_append, length_heads]

theorem head_of_some (h : Grafted b c owner ids new) {head : Head}
    (hi : b.heads[i]? = some head) : c.heads[i]? = some head := by
  rw [h.heads, List.getElem?_append_left (by simpa using lt_size_of_head hi), hi]

/-- One graft after the other under the same node. -/
theorem trans {more : List NodeId} {newer : List Head} (h : Grafted b c owner ids new)
    (hmore : Grafted c d owner more newer) (howner : ∀ p, owner = some p → p < b.nodes.size) :
    Grafted b d owner (ids ++ more) (new ++ newer) where
  source := hmore.source.trans h.source
  heads := by rw [hmore.heads, h.heads, List.append_assoc]
  children := by
    intro i hi
    have hsize := h.size
    rw [hmore.children i (by omega), h.children i hi]
    by_cases howns : owner = some i <;> simp [howns]
  links := by
    intro i hi
    have hsize := h.size
    exact (hmore.links i (by omega)).trans (h.links i hi)
  numbered := by
    refine Numbered.append (h.numbered.congr ?_) hmore.numbered
    intro j hj hjc
    have hne : owner ≠ some j := fun hj' => absurd (howner j hj') (Nat.not_lt.mpr hj)
    rw [hmore.children j hjc, if_neg hne, List.append_nil]
  wellFormed := hmore.wellFormed
  linksInside := hmore.linksInside

/-- A new node has the children that are grafted under it. -/
theorem children_new
    (h : Grafted (b.added parent kind extent) c (some b.nodes.size) ids new) :
    c.children b.nodes.size = ids := by
  have hnew : (b.added parent kind extent).children b.nodes.size = [] := by
    simp [TreeBuilder.children, node?_added]
  rw [h.children _ (by simp), hnew, if_pos rfl, List.nil_append]

/-- A node and the graft below it. -/
theorem below (hparent : ∀ p : Nat, parent = some p → p < b.nodes.size)
    (h : Grafted (b.added parent kind extent) c (some b.nodes.size) ids new) :
    Grafted b c parent [b.nodes.size] (⟨kind, extent, parent⟩ :: new) where
  source := h.source.trans (source_added ..)
  heads := by rw [h.heads, heads_added, List.append_assoc, List.singleton_append]
  children := by
    intro i hi
    have hne : some b.nodes.size ≠ some i := by simpa using Nat.ne_of_gt hi
    rw [h.children i (by simpa using Nat.lt_succ_of_lt hi), if_neg hne, List.append_nil,
      children_added hparent]
  links := by
    intro i hi
    exact (h.links i (by simpa using Nat.lt_succ_of_lt hi)).trans (links_added ..)
  numbered := by
    refine .cons ?_ (.nil _)
    rw [h.children_new]
    simpa using h.numbered
  wellFormed := h.wellFormed
  linksInside := h.linksInside

/-- The links of a new node may be set at any time. -/
theorem setLinks (h : Grafted b c owner ids new) {id : Nat} {change : Links → Links}
    (hid : b.nodes.size ≤ id)
    (hinside : ∀ head, c.heads[id]? = some head →
      ∀ target ∈ (change (c.links id)).targets, c.Holds head.extent target) :
    Grafted b (c.setLinks id change) owner ids new where
  source := h.source
  heads := by rw [heads_setLinks, h.heads]
  children := by simpa using h.children
  links := by
    intro i hi
    have hsize := h.size
    have hold : i < c.nodes.size := by omega
    have hne : id ≠ i := Nat.ne_of_gt (Nat.lt_of_lt_of_le hi hid)
    rw [links_setLinks hold, if_neg hne]
    exact h.links i hi
  numbered := by
    rw [size_setLinks]
    exact h.numbered.congr fun j _ _ => children_setLinks ..
  wellFormed := h.wellFormed.setLinks id change
  linksInside := h.linksInside.setLinks hinside

theorem added (hb : b.WellFormed) (hlinks : b.LinksInside)
    (hok : b.pushFault? parent extent = none) (kind : NodeKind) :
    Grafted b (b.added parent kind extent) parent [b.nodes.size] [⟨kind, extent, parent⟩] :=
  below (fun _ hp => lt_size_of_pushFault? hok hp)
    (.refl (hb.added kind hok) (hlinks.added parent kind extent) _)

end Grafted

end TreeBuilder

namespace Building

variable {α β : Type} {b : TreeBuilder} {fault later : Option TreeError}
  {x : Building α} {g : α → Building β} {post : α → TreeBuilder → Prop}
  {goal : β → TreeBuilder → Prop}

/-- A step fails with the given fault, or without one gives what satisfies `post`. -/
def Yields (x : Building α) (b : TreeBuilder) (fault : Option TreeError)
    (post : α → TreeBuilder → Prop) : Prop :=
  match fault with
  | some e => ∃ c, x b = .error e c
  | none => ∃ a c, x b = .ok a c ∧ post a c

namespace Yields

theorem pure {a : α} (h : post a b) : Yields (Pure.pure a) b none post := ⟨a, b, rfl, h⟩

/-- The first fault of two steps is the fault of both. -/
theorem bind (hx : Yields x b fault post) (hg : ∀ a c, post a c → Yields (g a) c later goal) :
    Yields (x >>= g) b (fault.or later) goal := by
  cases fault with
  | some e =>
    obtain ⟨c, hc⟩ := hx
    exact ⟨c, bind_of_error hc g⟩
  | none =>
    obtain ⟨a, c, hc, hpost⟩ := hx
    have hnext := hg a c hpost
    cases later with
    | some e =>
      obtain ⟨d, hd⟩ := hnext
      exact ⟨d, (bind_of_ok hc g).trans hd⟩
    | none =>
      obtain ⟨z, d, hd, hgoal⟩ := hnext
      exact ⟨z, d, (bind_of_ok hc g).trans hd, hgoal⟩

theorem after_sound (hx : Yields x b none post)
    (hg : ∀ a c, post a c → Yields (g a) c later goal) : Yields (x >>= g) b later goal :=
  hx.bind hg

theorem before_sound (hx : Yields x b fault post)
    (hg : ∀ a c, post a c → Yields (g a) c none goal) : Yields (x >>= g) b fault goal := by
  have h := hx.bind hg
  rwa [Option.or_none] at h

theorem mono {post' : α → TreeBuilder → Prop} (hx : Yields x b fault post)
    (himp : ∀ a c, post a c → post' a c) : Yields x b fault post' := by
  cases fault with
  | some e => exact hx
  | none =>
    obtain ⟨a, c, hc, hpost⟩ := hx
    exact ⟨a, c, hc, himp a c hpost⟩

theorem of_ok {a : α} {c : TreeBuilder} (hx : Yields x b fault post) (h : x b = .ok a c) :
    post a c := by
  cases fault with
  | some e =>
    obtain ⟨d, hd⟩ := hx
    rw [hd] at h
    cases h
  | none =>
    obtain ⟨a', d, hd, hpost⟩ := hx
    rw [hd] at h
    cases h
    exact hpost

theorem get_bind {g : TreeBuilder → Building β} (h : Yields (g b) b fault goal) :
    Yields (get >>= g) b fault goal := h

theorem push (b : TreeBuilder) (parent : Option NodeId) (kind : NodeKind) (extent : Extent) :
    Yields (TreeBuilder.push parent kind extent) b (b.pushFault? parent extent) fun id c =>
      b.pushFault? parent extent = none ∧ id = b.nodes.size ∧ c = b.added parent kind extent := by
  have hpush := TreeBuilder.push_eq b parent kind extent
  cases hfault : b.pushFault? parent extent with
  | some e => exact ⟨b, by rw [hpush, hfault]⟩
  | none => exact ⟨_, _, by rw [hpush, hfault], rfl, rfl, rfl⟩

/-- What follows a push need only be looked at if the push has no fault. -/
theorem push_bind {parent : Option NodeId} {kind : NodeKind} {extent : Extent}
    {g : NodeId → Building β}
    (h : b.pushFault? parent extent = none →
      Yields (g b.nodes.size) (b.added parent kind extent) later goal) :
    Yields (TreeBuilder.push parent kind extent >>= g) b
      ((b.pushFault? parent extent).or later) goal := by
  refine (push b parent kind extent).bind ?_
  rintro id c ⟨hfault, rfl, rfl⟩
  exact h hfault

theorem modifyLinks_bind {id : Nat} {change : Links → Links} {g : Unit → Building β}
    (hid : id < b.nodes.size) (h : Yields (g ()) (b.setLinks id change) later goal) :
    Yields (TreeBuilder.modifyLinks id change >>= g) b later goal := by
  have hedit : Yields (TreeBuilder.modifyLinks id change) b none fun _ c =>
      c = b.setLinks id change :=
    ⟨⟨⟩, _, by rw [TreeBuilder.modifyLinks_eq, if_pos hid], rfl⟩
  refine hedit.after_sound ?_
  rintro _ c rfl
  exact h

end Yields

end Building

end BlockShading
