import BlockShading.Tree.Builder

/-!
# What building keeps

A builder is looked at through the heads of its nodes, which never change once a node is pushed,
and through the lists of children. A push checks first and changes the builder afterwards:
`push_eq` splits it into the reason for which it fails and the builder it leaves. Main statement:
after any run of operations, however many of them fail, the nodes form one tree with the root in
front, in which parents, children and extents agree.
-/

namespace BlockShading

/-- What a node is pushed with. -/
structure Head where
  kind : NodeKind
  extent : Extent
  parent : Option NodeId
  deriving DecidableEq, Repr

def Node.head (node : Node) : Head := ⟨node.kind, node.extent, node.parent⟩

namespace TreeBuilder

variable {b : TreeBuilder} {i p id : Nat} {node : Node} {parent : Option NodeId}
  {kind : NodeKind} {extent : Extent}

def heads (b : TreeBuilder) : List Head := b.nodes.toList.map Node.head

/-- The links of a node; none for an unknown one. -/
def links (b : TreeBuilder) (id : NodeId) : Links := ((b.node? id).map (·.links)).getD {}

@[simp] theorem length_heads (b : TreeBuilder) : b.heads.length = b.nodes.size := by simp [heads]

theorem heads_getElem? (b : TreeBuilder) (i : Nat) : b.heads[i]? = (b.node? i).map Node.head := by
  simp [heads, node?]

theorem lt_size_of_head {head : Head} (h : b.heads[i]? = some head) : i < b.nodes.size := by
  rw [← length_heads]
  exact (List.getElem?_eq_some_iff.mp h).1

theorem exists_head_of_lt (h : i < b.nodes.size) : ∃ head, b.heads[i]? = some head :=
  ⟨_, List.getElem?_eq_getElem (by simpa using h)⟩

theorem exists_node_of_head {head : Head} (h : b.heads[i]? = some head) :
    ∃ node, b.node? i = some node ∧ node.head = head ∧ node.children = b.children i ∧
      node.links = b.links i := by
  rw [heads_getElem?] at h
  obtain ⟨node, hnode, rfl⟩ := Option.map_eq_some_iff.mp h
  exact ⟨node, hnode, rfl, by simp [children, hnode], by simp [links, hnode]⟩

theorem head_of_node (h : b.node? i = some node) :
    b.heads[i]? = some node.head ∧ b.children i = node.children ∧ b.links i = node.links := by
  simp [heads_getElem?, children, links, h]

/-- Why a node cannot be pushed, if it cannot. -/
def pushFault? (b : TreeBuilder) (parent : Option NodeId) (extent : Extent) : Option TreeError :=
  if extent.stop < extent.start then some (.invalidRange extent.start extent.stop)
  else if b.sourceSize < extent.stop then some (.outOfSource extent b.sourceSize)
  else
    match parent with
    | none => if b.nodes.size = 0 then none else some .multipleRoots
    | some p =>
      match b.heads[p]? with
      | none => some (.unknownNode p)
      | some owner =>
        if owner.extent.contains extent then none
        else some (.childOutsideParent b.nodes.size extent p owner.extent)

def added (b : TreeBuilder) (parent : Option NodeId) (kind : NodeKind) (extent : Extent) :
    TreeBuilder :=
  (parent.elim b fun p => b.enter p b.nodes.size).append ⟨kind, extent, parent, [], {}⟩

theorem lookup_eq (b : TreeBuilder) (id : NodeId) :
    lookup id b =
      match b.node? id with
      | some node => .ok node b
      | none => .error (.unknownNode id) b := by
  rw [lookup, Building.bind_of_ok (Building.get_apply b)]
  cases b.node? id <;> rfl

/-- A push either fails for one reason and leaves the builder alone, or adds one node. -/
theorem push_eq (b : TreeBuilder) (parent : Option NodeId) (kind : NodeKind) (extent : Extent) :
    push parent kind extent b =
      match b.pushFault? parent extent with
      | some e => .error e b
      | none => .ok b.nodes.size (b.added parent kind extent) := by
  unfold push pushFault?
  by_cases horder : extent.stop < extent.start
  · simp only [horder, if_true]
    rfl
  simp only [horder, if_false]
  rw [Building.bind_of_ok (Building.get_apply b)]
  by_cases hsource : b.sourceSize < extent.stop
  · simp only [hsource, if_true]
    rfl
  simp only [hsource, if_false]
  cases parent with
  | none =>
    by_cases hroot : b.nodes.size = 0
    · simp only [hroot, ne_eq, not_true_eq_false, if_true, if_false]
      rfl
    · simp only [hroot, ne_eq, not_false_eq_true, if_true, if_false]
      rfl
  | some p =>
    have hlookup := lookup_eq b p
    cases howner : b.node? p with
    | none =>
      simp only [heads_getElem?, howner] at hlookup ⊢
      rw [Building.bind_of_error hlookup]
      rfl
    | some owner =>
      simp only [heads_getElem?, howner, Option.map_some] at hlookup ⊢
      rw [Building.bind_of_ok hlookup]
      cases hin : owner.extent.contains extent with
      | false =>
        simp only [Node.head, hin, Bool.not_false, Bool.false_eq_true, if_true, if_false]
        rfl
      | true =>
        simp only [Node.head, hin, Bool.not_true, Bool.false_eq_true, if_true, if_false]
        rfl

theorem modifyLinks_eq (b : TreeBuilder) (id : NodeId) (change : Links → Links) :
    modifyLinks id change b =
      if id < b.nodes.size then .ok ⟨⟩ (b.setLinks id change) else .error (.unknownNode id) b := by
  have hlookup := lookup_eq b id
  unfold modifyLinks
  by_cases hid : id < b.nodes.size
  · have hnode : b.node? id = some b.nodes[id] := Array.getElem?_eq_getElem hid
    simp only [hnode] at hlookup
    rw [Building.bind_of_ok hlookup, if_pos hid]
    rfl
  · have hnode : b.node? id = none := Array.getElem?_eq_none (Nat.not_lt.mp hid)
    simp only [hnode] at hlookup
    rw [Building.bind_of_error hlookup, if_neg hid]

theorem pushFault?_eq_none_iff :
    b.pushFault? parent extent = none ↔
      extent.start ≤ extent.stop ∧ extent.stop ≤ b.sourceSize ∧
        (parent = none → b.nodes.size = 0) ∧
        ∀ p, parent = some p → ∃ owner, b.heads[p]? = some owner ∧
          owner.extent.contains extent := by
  unfold pushFault?
  by_cases horder : extent.stop < extent.start
  · simp [horder, Nat.not_le.mpr horder]
  by_cases hsource : b.sourceSize < extent.stop
  · simp [horder, hsource, Nat.not_le.mpr hsource]
  have hle : extent.start ≤ extent.stop ∧ extent.stop ≤ b.sourceSize := by omega
  cases parent with
  | none => simp [horder, hsource, hle]
  | some p => cases howner : b.heads[p]? <;> simp [horder, hsource, hle, howner]

@[simp] theorem source_added (b : TreeBuilder) (parent : Option NodeId) (kind : NodeKind)
    (extent : Extent) : (b.added parent kind extent).source = b.source := by
  cases parent <;> rfl

@[simp] theorem size_added (b : TreeBuilder) (parent : Option NodeId) (kind : NodeKind)
    (extent : Extent) : (b.added parent kind extent).nodes.size = b.nodes.size + 1 := by
  cases parent <;> simp [added, append, enter]

theorem lt_size_of_pushFault? (hok : b.pushFault? parent extent = none) (hp : parent = some p) :
    p < b.nodes.size := by
  obtain ⟨-, -, -, hparent⟩ := pushFault?_eq_none_iff.mp hok
  obtain ⟨owner, howner, -⟩ := hparent p hp
  exact lt_size_of_head howner

theorem node?_added (b : TreeBuilder) (parent : Option NodeId) (kind : NodeKind) (extent : Extent)
    (i : NodeId) :
    (b.added parent kind extent).node? i =
      if i = b.nodes.size then some ⟨kind, extent, parent, [], {}⟩
      else (b.node? i).map fun node =>
        if parent = some i then { node with children := node.children ++ [b.nodes.size] }
        else node := by
  cases parent with
  | none => simp [added, append, node?, Array.getElem?_push]
  | some p =>
    simp only [added, append, enter, node?, Option.elim_some, Array.getElem?_push,
      Array.size_modify, Array.getElem?_modify, Option.some.injEq]
    by_cases hp : p = i <;> simp [hp]

@[simp] theorem heads_added (b : TreeBuilder) (parent : Option NodeId) (kind : NodeKind)
    (extent : Extent) :
    (b.added parent kind extent).heads = b.heads ++ [⟨kind, extent, parent⟩] := by
  apply List.ext_getElem?
  intro i
  rw [heads_getElem?, node?_added, List.getElem?_append, length_heads]
  by_cases hi : i = b.nodes.size
  · simp [hi, Node.head]
  by_cases hlt : i < b.nodes.size
  · rw [if_neg hi, if_pos hlt, heads_getElem?, Option.map_map]
    congr 1
    funext node
    simp only [Function.comp, Node.head]
    split <;> rfl
  · have hnone : b.node? i = none := Array.getElem?_eq_none (Nat.not_lt.mp hlt)
    simp [hi, hlt, hnone]
    omega

theorem children_added (hparent : ∀ p : Nat, parent = some p → p < b.nodes.size) (kind : NodeKind)
    (extent : Extent) (i : Nat) :
    (b.added parent kind extent).children i =
      b.children i ++ if parent = some i then [b.nodes.size] else [] := by
  simp only [children, node?_added]
  by_cases hi : i = b.nodes.size
  · subst hi
    have hnone : b.node? b.nodes.size = none := Array.getElem?_eq_none (Nat.le_refl _)
    have hp : parent ≠ some b.nodes.size := fun hp => absurd (hparent _ hp) (Nat.lt_irrefl _)
    simp [hnone, hp]
  · cases hnode : b.node? i with
    | none =>
      have hle : b.nodes.size ≤ i := Array.getElem?_eq_none_iff.mp hnode
      have hp : parent ≠ some i := fun hp => absurd (hparent i hp) (by omega)
      simp [hi, hp]
    | some node => by_cases hp : parent = some i <;> simp [hi, hp]

theorem links_added (b : TreeBuilder) (parent : Option NodeId) (kind : NodeKind) (extent : Extent)
    (i : Nat) : (b.added parent kind extent).links i = b.links i := by
  simp only [links, node?_added]
  by_cases hi : i = b.nodes.size
  · subst hi
    have hnone : b.node? b.nodes.size = none := Array.getElem?_eq_none (Nat.le_refl _)
    simp [hnone]
  · rw [if_neg hi, Option.map_map]
    congr 2
    funext node
    simp only [Function.comp]
    split <;> rfl

theorem node?_setLinks (b : TreeBuilder) (id : NodeId) (change : Links → Links) (i : NodeId) :
    (b.setLinks id change).node? i = (b.node? i).map fun node =>
      if id = i then { node with links := change node.links } else node := by
  simp only [node?, setLinks, Array.getElem?_modify]
  split <;> simp

@[simp] theorem source_setLinks (b : TreeBuilder) (id : NodeId) (change : Links → Links) :
    (b.setLinks id change).source = b.source := rfl

@[simp] theorem size_setLinks (b : TreeBuilder) (id : NodeId) (change : Links → Links) :
    (b.setLinks id change).nodes.size = b.nodes.size := by simp [setLinks]

@[simp] theorem heads_setLinks (b : TreeBuilder) (id : NodeId) (change : Links → Links) :
    (b.setLinks id change).heads = b.heads := by
  apply List.ext_getElem?
  intro i
  rw [heads_getElem?, heads_getElem?, node?_setLinks, Option.map_map]
  congr 1
  funext node
  simp only [Function.comp, Node.head]
  split <;> rfl

@[simp] theorem children_setLinks (b : TreeBuilder) (id : NodeId) (change : Links → Links)
    (i : NodeId) : (b.setLinks id change).children i = b.children i := by
  simp only [children, node?_setLinks, Option.map_map]
  congr 2
  funext node
  simp only [Function.comp]
  split <;> rfl

theorem links_setLinks (hi : i < b.nodes.size) (id : NodeId) (change : Links → Links) :
    (b.setLinks id change).links i = if id = i then change (b.links i) else b.links i := by
  have hnode : b.node? i = some b.nodes[i] := Array.getElem?_eq_getElem hi
  simp only [links, node?_setLinks, hnode, Option.map_some, Option.getD_some]
  split <;> rfl

/-- The nodes form one tree, the root in front, and each lies inside the node above it. -/
structure WellFormed (b : TreeBuilder) : Prop where
  parent_eq_none_iff : ∀ {i : Nat} {head : Head}, b.heads[i]? = some head →
    (head.parent = none ↔ i = 0)
  parent_lt : ∀ {i p : Nat} {head : Head}, b.heads[i]? = some head → head.parent = some p → p < i
  children_increasing : ∀ i : Nat, (b.children i).Pairwise (· < ·)
  mem_children_iff : ∀ {i c : Nat}, c ∈ b.children i ↔
    ∃ head, b.heads[c]? = some head ∧ head.parent = some i
  ordered : ∀ {i : Nat} {head : Head}, b.heads[i]? = some head →
    head.extent.start ≤ head.extent.stop
  inSource : ∀ {i : Nat} {head : Head}, b.heads[i]? = some head →
    head.extent.stop ≤ b.sourceSize
  nested : ∀ {i p : Nat} {head owner : Head}, b.heads[i]? = some head → head.parent = some p →
    b.heads[p]? = some owner → owner.extent.contains head.extent = true

theorem wellFormed_start (source : String) : (start source).WellFormed := by
  constructor <;> simp [start, heads, children, node?]

theorem heads_added_cases {head : Head}
    (h : (b.added parent kind extent).heads[i]? = some head) :
    (i = b.nodes.size ∧ head = ⟨kind, extent, parent⟩) ∨ b.heads[i]? = some head := by
  rw [heads_added, List.getElem?_append, length_heads] at h
  split at h
  · exact Or.inr h
  · rw [List.getElem?_singleton] at h
    split at h
    · exact Or.inl ⟨by omega, (Option.some.inj h).symm⟩
    · cases h

theorem head_added_of_some {head : Head} (h : b.heads[i]? = some head) (parent : Option NodeId)
    (kind : NodeKind) (extent : Extent) :
    (b.added parent kind extent).heads[i]? = some head := by
  rw [heads_added, List.getElem?_append_left (by simpa using lt_size_of_head h), h]

theorem head_added_size (b : TreeBuilder) (parent : Option NodeId) (kind : NodeKind)
    (extent : Extent) :
    (b.added parent kind extent).heads[b.nodes.size]? = some ⟨kind, extent, parent⟩ := by
  simp [← length_heads]

namespace WellFormed

theorem child_lt_size (hb : b.WellFormed) {c : Nat} (hc : c ∈ b.children i) :
    i < c ∧ c < b.nodes.size := by
  obtain ⟨head, hhead, hparent⟩ := hb.mem_children_iff.mp hc
  exact ⟨hb.parent_lt hhead hparent, lt_size_of_head hhead⟩

theorem child_inside (hb : b.WellFormed) {c : Nat} (hc : c ∈ b.children i) :
    ∃ owner head, b.heads[i]? = some owner ∧ b.heads[c]? = some head ∧
      owner.extent.contains head.extent = true := by
  have hlt := hb.child_lt_size hc
  obtain ⟨head, hhead, hparent⟩ := hb.mem_children_iff.mp hc
  obtain ⟨owner, howner⟩ := exists_head_of_lt (b := b) (i := i) (by omega)
  exact ⟨owner, head, howner, hhead, hb.nested hhead hparent howner⟩

/-- What a node names as its parent lists it once, and no other node lists it. -/
theorem entered_once (hb : b.WellFormed) {head : Head} (h : b.heads[i]? = some head)
    (hi : 0 < i) :
    ∃ p : Nat, head.parent = some p ∧ p < i ∧ (b.children p).count i = 1 ∧
      ∀ q, q ≠ p → i ∉ b.children q := by
  have hsome : head.parent ≠ none := fun hnone => by
    have := (hb.parent_eq_none_iff h).mp hnone
    omega
  obtain ⟨p, hp⟩ := Option.ne_none_iff_exists'.mp hsome
  refine ⟨p, hp, hb.parent_lt h hp, ?_, ?_⟩
  · have hmem : i ∈ b.children p := hb.mem_children_iff.mpr ⟨head, h, hp⟩
    have hnodup : (b.children p).Nodup := (hb.children_increasing p).imp Nat.ne_of_lt
    rw [hnodup.count, if_pos hmem]
  · intro q hq hmem
    obtain ⟨again, hagain, hparent⟩ := hb.mem_children_iff.mp hmem
    rw [h] at hagain
    cases hagain
    exact hq (Option.some.inj (hparent.symm.trans hp))

theorem added_mem_children_iff (hb : b.WellFormed)
    (hlt : ∀ p : Nat, parent = some p → p < b.nodes.size) {c : Nat} :
    c ∈ (b.added parent kind extent).children i ↔
      ∃ head, (b.added parent kind extent).heads[c]? = some head ∧ head.parent = some i := by
  rw [children_added hlt, List.mem_append, hb.mem_children_iff]
  constructor
  · rintro (⟨head, hhead, hp⟩ | hc)
    · exact ⟨head, head_added_of_some hhead parent kind extent, hp⟩
    · split at hc
      · next hp =>
        rw [List.mem_singleton.mp hc]
        exact ⟨_, head_added_size b parent kind extent, hp⟩
      · simp at hc
  · rintro ⟨head, hhead, hp⟩
    obtain ⟨rfl, rfl⟩ | hold := heads_added_cases hhead
    · exact Or.inr (by rw [if_pos hp]; exact List.mem_singleton_self _)
    · exact Or.inl ⟨head, hold, hp⟩

theorem added (hb : b.WellFormed) (kind : NodeKind) (hok : b.pushFault? parent extent = none) :
    (b.added parent kind extent).WellFormed := by
  obtain ⟨horder, hsource, hroot, hparent⟩ := pushFault?_eq_none_iff.mp hok
  have hlt : ∀ p : Nat, parent = some p → p < b.nodes.size := fun p =>
    lt_size_of_pushFault? hok
  constructor
  case parent_eq_none_iff =>
    intro i head h
    obtain ⟨rfl, rfl⟩ | hold := heads_added_cases h
    · refine ⟨hroot, fun hzero => ?_⟩
      cases parent with
      | none => rfl
      | some p => exact absurd (hlt p rfl) (by omega)
    · exact hb.parent_eq_none_iff hold
  case parent_lt =>
    intro i p head h hp
    obtain ⟨rfl, rfl⟩ | hold := heads_added_cases h
    · exact hlt p hp
    · exact hb.parent_lt hold hp
  case children_increasing =>
    intro i
    rw [children_added hlt]
    refine List.pairwise_append.mpr ⟨hb.children_increasing i, ?_, ?_⟩
    · split <;> simp
    · intro c hc d hd
      have hdsize : d = b.nodes.size := by split at hd <;> simp_all
      exact hdsize ▸ (hb.child_lt_size hc).2
  case mem_children_iff => exact hb.added_mem_children_iff hlt
  case ordered =>
    intro i head h
    obtain ⟨rfl, rfl⟩ | hold := heads_added_cases h
    · exact horder
    · exact hb.ordered hold
  case inSource =>
    intro i head h
    rw [sourceSize, source_added]
    obtain ⟨rfl, rfl⟩ | hold := heads_added_cases h
    · exact hsource
    · exact hb.inSource hold
  case nested =>
    intro i p head owner h hp howner
    have hagain : ∀ {before : Head}, b.heads[p]? = some before → owner = before := by
      intro before hbefore
      have := head_added_of_some hbefore parent kind extent
      exact Option.some.inj (howner.symm.trans this)
    obtain ⟨rfl, rfl⟩ | hold := heads_added_cases h
    · obtain ⟨before, hbefore, hin⟩ := hparent p hp
      rw [hagain hbefore]
      exact hin
    · have hltp := hb.parent_lt hold hp
      have hlti := lt_size_of_head hold
      obtain ⟨before, hbefore⟩ := exists_head_of_lt (b := b) (i := p) (by omega)
      rw [hagain hbefore]
      exact hb.nested hold hp hbefore

/-- Links have no part in well-formedness. -/
theorem setLinks (hb : b.WellFormed) (id : NodeId) (change : Links → Links) :
    (b.setLinks id change).WellFormed := by
  constructor <;> simp only [heads_setLinks, children_setLinks, sourceSize, source_setLinks]
  case parent_eq_none_iff => exact hb.parent_eq_none_iff
  case parent_lt => exact hb.parent_lt
  case children_increasing => exact hb.children_increasing
  case mem_children_iff => exact hb.mem_children_iff
  case ordered => exact hb.ordered
  case inSource => exact hb.inSource
  case nested => exact hb.nested

end WellFormed

inductive Operation where
  | push (parent : Option NodeId) (kind : NodeKind) (extent : Extent)
  | editLinks (id : NodeId) (change : Links → Links)

/-- Performs an operation, and gives the position of the node if it pushes one. -/
def Operation.perform : Operation → Building (Option NodeId)
  | push parent kind extent => return some (← TreeBuilder.push parent kind extent)
  | editLinks id change => do
    TreeBuilder.modifyLinks id change
    return none

/-- Performs operations in order with the outcome of each. After a failure the next operation
starts from the builder that the failed one left. -/
def performAll (b : TreeBuilder) :
    List Operation → List (Except TreeError (Option NodeId)) × TreeBuilder
  | [] => ([], b)
  | operation :: rest =>
    match operation.perform b with
    | .ok given next => (.ok given :: (performAll next rest).1, (performAll next rest).2)
    | .error e next => (.error e :: (performAll next rest).1, (performAll next rest).2)

def pushedIds (outcomes : List (Except TreeError (Option NodeId))) : List NodeId :=
  outcomes.filterMap fun
    | .ok given => given
    | .error _ => none

/-- An operation fails and changes nothing, adds one node that passed the checks, or replaces the
links of one node. -/
theorem Operation.perform_cases (operation : Operation) (b : TreeBuilder) :
    (∃ e, operation.perform b = .error e b) ∨
      (∃ parent kind extent, b.pushFault? parent extent = none ∧
        operation.perform b = .ok (some b.nodes.size) (b.added parent kind extent)) ∨
      ∃ id change, operation.perform b = .ok none (b.setLinks id change) := by
  cases operation with
  | push parent kind extent =>
    have hpush := push_eq b parent kind extent
    cases hfault : b.pushFault? parent extent with
    | some e =>
      simp only [hfault] at hpush
      exact Or.inl ⟨e, Building.bind_of_error hpush _⟩
    | none =>
      simp only [hfault] at hpush
      exact Or.inr (Or.inl ⟨parent, kind, extent, hfault, Building.bind_of_ok hpush _⟩)
  | editLinks id change =>
    have hedit := modifyLinks_eq b id change
    split at hedit
    · exact Or.inr (Or.inr ⟨id, change, Building.bind_of_ok hedit _⟩)
    · exact Or.inl ⟨_, Building.bind_of_error hedit _⟩

/-- Operations keep a builder well formed and give the next free positions to new nodes. -/
theorem performAll_spec (hb : b.WellFormed) (operations : List Operation) :
    (performAll b operations).2.WellFormed ∧
      (performAll b operations).2.source = b.source ∧
      List.range b.nodes.size ++ pushedIds (performAll b operations).1 =
        List.range (performAll b operations).2.nodes.size := by
  induction operations generalizing b with
  | nil => exact ⟨hb, rfl, by simp [performAll, pushedIds]⟩
  | cons operation rest ih =>
    obtain ⟨e, h⟩ | ⟨parent, kind, extent, hok, h⟩ | ⟨id, change, h⟩ :=
      operation.perform_cases b
    · simpa [performAll, h, pushedIds] using ih hb
    · have hnext := ih (hb.added kind hok)
      simp only [performAll, h]
      refine ⟨hnext.1, hnext.2.1.trans (source_added ..), ?_⟩
      rw [← hnext.2.2, size_added, List.range_succ, List.append_assoc]
      rfl
    · have hnext := ih (hb.setLinks id change)
      simpa [performAll, h, pushedIds] using hnext

/-- After any operations the builder holds one tree whose parents, children and extents agree,
and an operation that fails leaves it as it is. -/
theorem performAll_forms_tree (source : String) (operations : List Operation) :
    let outcomes := (performAll (start source) operations).1
    let b := (performAll (start source) operations).2
    b.source = source ∧ pushedIds outcomes = List.range b.nodes.size ∧ b.WellFormed ∧
      (∀ (i : Nat) (head : Head), 0 < i → b.heads[i]? = some head →
        ∃ p : Nat, head.parent = some p ∧ p < i ∧ (b.children p).count i = 1 ∧
          ∀ q, q ≠ p → i ∉ b.children q) ∧
      (∀ parent kind extent e c, push parent kind extent b = .error e c →
        c = b ∧ b.pushFault? parent extent = some e) ∧
      ∀ id change e c, modifyLinks id change b = .error e c → c = b ∧ e = .unknownNode id := by
  intro outcomes b
  obtain ⟨hwell, hsource, hrange⟩ := performAll_spec (wellFormed_start source) operations
  have hstart : (start source).nodes.size = 0 := rfl
  rw [hstart, List.range_zero, List.nil_append] at hrange
  refine ⟨hsource, hrange, hwell, ?_, ?_, ?_⟩
  · intro i head hi h
    exact hwell.entered_once h hi
  · intro parent kind extent e c h
    rw [push_eq] at h
    split at h
    · next hfault =>
      cases h
      exact ⟨rfl, hfault⟩
    · cases h
  · intro id change e c h
    rw [modifyLinks_eq] at h
    split at h
    · cases h
    · cases h
      exact ⟨rfl, rfl⟩

end TreeBuilder

end BlockShading
