import BlockShading.ParseTree.Links
import BlockShading.Proofs.Tree.Finish

/-!
# Where the links of a lowered node lead

Every link that is chosen for a node leads to one of its lowered children, to a child of one, or
to a child of that, and so to a node inside it.
-/

namespace BlockShading

namespace TreeBuilder

variable {b : TreeBuilder} {ids : List NodeId} {i : Nat}

/-- A position among the given ones or somewhere below one of them. -/
inductive Under (b : TreeBuilder) (ids : List NodeId) : NodeId → Prop
  | member {i : NodeId} (h : i ∈ ids) : Under b ids i
  | child {i c : NodeId} (above : Under b ids i) (h : c ∈ b.children i) : Under b ids c

/-- What is under children of a node lies inside the node. -/
theorem Under.holds (hb : b.WellFormed) {owner : Nat} {head : Head}
    (howner : b.heads[owner]? = some head) (hids : ∀ c ∈ ids, c ∈ b.children owner)
    (h : Under b ids i) : b.Holds head.extent i := by
  induction h with
  | member hmem =>
    obtain ⟨again, found, hagain, hfound, hin⟩ := hb.child_inside (hids _ hmem)
    rw [howner] at hagain
    cases hagain
    exact ⟨found, hfound, hin⟩
  | child _ hc ih =>
    obtain ⟨middle, hmiddle, hin⟩ := ih
    obtain ⟨again, found, hagain, hfound, hinner⟩ := hb.child_inside hc
    rw [hmiddle] at hagain
    cases hagain
    exact ⟨found, hfound, Extent.contains_trans hin hinner⟩

end TreeBuilder

namespace ParseTree

open TreeBuilder Lowered

variable {b : TreeBuilder} {children : List Lowered} {t : NodeId}

def positions (children : List Lowered) : List NodeId := children.map (·.id)

theorem mem_positions {child : Lowered} (h : child ∈ children) : child.id ∈ positions children :=
  List.mem_map_of_mem h

theorem find?_mem_positions {p : Lowered → Bool} (h : (children.find? p).map (·.id) = some t) :
    t ∈ positions children := by
  obtain ⟨child, hchild, rfl⟩ := Option.map_eq_some_iff.mp h
  exact mem_positions (List.mem_of_find?_eq_some hchild)

theorem filter_mem_positions {p : Lowered → Bool} (h : t ∈ (children.filter p).map (·.id)) :
    t ∈ positions children := by
  obtain ⟨child, hchild, rfl⟩ := List.mem_map.mp h
  exact mem_positions (List.mem_filter.mp hchild).1

theorem lastToken?_mem_positions {text : String} (h : lastToken? b children text = some t) :
    t ∈ positions children := by
  have := find?_mem_positions h
  simpa [positions] using this

theorem classFields_under {body : NodeId} (hbody : Under b (positions children) body)
    (h : t ∈ classFields b body) : Under b (positions children) t := by
  obtain ⟨child, hchild, ht⟩ := List.mem_flatMap.mp h
  have hunder : Under b (positions children) child := .child hbody hchild
  split at ht
  · exact List.mem_singleton.mp ht ▸ hunder
  · exact .child hunder (List.mem_filter.mp ht).1
  · cases ht

theorem conditionParts_under {condition : Lowered} (hcondition : condition ∈ children)
    {part : NodeId × Row} (h : part ∈ conditionParts b condition) :
    Under b (positions children) part.1 :=
  .child (.member (mem_positions hcondition)) (List.of_mem_zip (List.mem_filter.mp h).1).1

theorem find?_parts_under {condition : Lowered} (hcondition : condition ∈ children)
    {parts : List (NodeId × Row)} (hparts : ∀ part ∈ parts, part ∈ conditionParts b condition)
    {p : NodeId × Row → Bool} (h : (parts.find? p).map (·.1) = some t) :
    Under b (positions children) t := by
  obtain ⟨part, hpart, rfl⟩ := Option.map_eq_some_iff.mp h
  exact conditionParts_under hcondition (hparts part (List.mem_of_find?_eq_some hpart))

theorem conditionLinks_under {condition : Lowered} (hcondition : condition ∈ children)
    (h : t ∈ (conditionLinks b condition).targets) : Under b (positions children) t := by
  unfold conditionLinks at h
  split at h
  · rcases Links.mem_targets_iff.mp h with ⟨role, h⟩ | ⟨role, h⟩
    · cases role <;> simp only [Links.get, reduceCtorEq] at h
      case condition => exact find?_parts_under hcondition (fun _ hp => hp) h
      case leftParen => exact find?_parts_under hcondition (fun _ hp => hp) h
      case rightParen =>
        exact find?_parts_under hcondition (fun _ hp => List.mem_reverse.mp hp) h
    · cases role <;> cases h
  · rcases Links.mem_targets_iff.mp h with ⟨role, h⟩ | ⟨role, h⟩
    · cases role <;> simp only [Links.get, reduceCtorEq] at h
      case condition => exact Option.some.inj h ▸ .member (mem_positions hcondition)
    · cases role <;> cases h

theorem classBody_mem_positions {body : NodeId}
    (h : (inField? children "body").or (ofRule? children "class_body") = some body) :
    body ∈ positions children := by
  rcases Option.or_eq_some_iff.mp h with hfield | ⟨-, hrule⟩
  · exact find?_mem_positions hfield
  · exact find?_mem_positions hrule

theorem classLinks_under (h : t ∈ (classLinks b children).targets) :
    Under b (positions children) t := by
  unfold classLinks at h
  cases hbody : (inField? children "body").or (ofRule? children "class_body") with
  | none =>
    rcases Links.mem_targets_iff.mp (hbody ▸ h) with ⟨role, h⟩ | ⟨role, h⟩
    · cases role <;> simp only [Links.get, reduceCtorEq] at h
      case name => exact .member (find?_mem_positions h)
    · cases role <;> cases h
  | some body =>
    have hunder : Under b (positions children) body := .member (classBody_mem_positions hbody)
    rcases Links.mem_targets_iff.mp (hbody ▸ h) with ⟨role, h⟩ | ⟨role, h⟩
    · cases role <;> simp only [Links.get, reduceCtorEq] at h
      case name => exact .member (find?_mem_positions h)
      case leftBrace => exact .child hunder (List.mem_of_find?_eq_some h)
      case rightBrace =>
        exact .child hunder (List.mem_reverse.mp (List.mem_of_find?_eq_some h))
    · cases role <;> simp only [Links.getList, List.not_mem_nil] at h
      case fields => exact classFields_under hunder h

theorem conditionalLinks_under (h : t ∈ (conditionalLinks b children).targets) :
    Under b (positions children) t := by
  rcases Links.mem_targets_of_set .body h with hbody | hcondition
  · rcases Option.or_eq_some_iff.mp hbody with hfield | ⟨-, hfield⟩
    · exact .member (find?_mem_positions hfield)
    · exact .member (find?_mem_positions hfield)
  · cases hfind : children.find? fun c => c.row.field == some "condition" with
    | none =>
      rw [hfind] at hcondition
      exact absurd hcondition Links.not_mem_targets_empty
    | some condition =>
      rw [hfind] at hcondition
      exact conditionLinks_under (List.mem_of_find?_eq_some hfind) hcondition

/-- Every link chosen for a node leads to one of its lowered children or below one. -/
theorem linksFor_under {kind : NodeKind} (h : t ∈ (linksFor b kind children).targets) :
    Under b (positions children) t := by
  cases kind
  case classDecl => exact classLinks_under h
  case ifElse => exact conditionalLinks_under h
  case loop form =>
    cases form
    case whileLoop => exact conditionalLinks_under h
    case doWhile => exact conditionalLinks_under h
    case forLoop =>
      rcases Links.mem_targets_iff.mp h with ⟨role, h⟩ | ⟨role, h⟩
      · cases role <;> simp only [linksFor, Links.get, reduceCtorEq] at h
        case rightParen => exact .member (lastToken?_mem_positions h)
        all_goals exact .member (find?_mem_positions h)
      · cases role <;> simp only [linksFor, Links.getList, List.not_mem_nil] at h
        all_goals exact .member (filter_mem_positions h)
  case methodDecl =>
    rcases Links.mem_targets_iff.mp h with ⟨role, h⟩ | ⟨role, h⟩
    · cases role <;> simp only [linksFor, Links.get, reduceCtorEq] at h
      all_goals exact .member (find?_mem_positions h)
    · cases role <;> cases h
  case codeBlock =>
    rcases Links.mem_targets_iff.mp h with ⟨role, h⟩ | ⟨role, h⟩
    · cases role <;> simp only [linksFor, Links.get, reduceCtorEq] at h
      case leftBrace => exact .member (find?_mem_positions h)
      case rightBrace => exact .member (lastToken?_mem_positions h)
    · cases role <;> simp only [linksFor, Links.getList, List.not_mem_nil] at h
      case statements => exact .member (filter_mem_positions h)
  case tryCatch =>
    rcases Links.mem_targets_iff.mp h with ⟨role, h⟩ | ⟨role, h⟩
    · cases role <;> simp only [linksFor, Links.get, reduceCtorEq] at h
      case tryBlock => exact .member (find?_mem_positions h)
    · cases role <;> simp only [linksFor, Links.getList, List.not_mem_nil] at h
      case catchSections => exact .member (filter_mem_positions h)
  case catchSection =>
    rcases Links.mem_targets_iff.mp h with ⟨role, h⟩ | ⟨role, h⟩
    · cases role <;> simp only [linksFor, Links.get, reduceCtorEq] at h
      case rightParen => exact .member (lastToken?_mem_positions h)
      all_goals exact .member (find?_mem_positions h)
    · cases role <;> cases h
  all_goals exact absurd h Links.not_mem_targets_empty

end ParseTree

end BlockShading
