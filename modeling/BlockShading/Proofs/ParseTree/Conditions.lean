import BlockShading.Proofs.ParseTree.Delimiters

/-!
# Conditions in parentheses

The condition of a choice or of a loop and its parentheses are chosen among the rows inside the
parentheses, but what is linked is found by position among nodes made earlier. Main statement: as
long as no row is left out in between, each link leads to the node of the row it was chosen for,
whatever comments, faulty rows or further parentheses stand next to it.
-/

namespace BlockShading.ParseTree

open TreeBuilder Lowered

variable {b : TreeBuilder} {tree : ParseTree} {spot condition part : Spot} {source : String}
  {first : NodeId} {above : List Place} {trees : List ParseTree}

/-- Where nothing is left out, the held rows are right below their holder. -/
theorem above_of_mem_heldBelow (h : ∀ tree ∈ trees, tree.row.kind ≠ splicedRule)
    (hmem : spot ∈ heldBelow first above trees) : spot.above = above := by
  induction trees using forest_induction generalizing first above with
  | nil => simp [heldBelow] at hmem
  | cons row children rest _ ihrest =>
    have hkind : row.kind ≠ splicedRule := h (node row children) List.mem_cons_self
    rw [heldBelow, heldFrom, if_neg hkind, List.singleton_append, List.mem_cons] at hmem
    rcases hmem with rfl | hmem
    · rfl
    · exact ihrest (fun tree ht => h tree (List.mem_cons_of_mem _ ht)) hmem

/-- No row inside parentheses is a block in the place of a statement. -/
theorem own_of_mem_held (hkind : condition.row.kind = "parenthesized_expression")
    (hfinally : hasChild condition.tree.children "finally_clause" = false)
    (hpart : part ∈ condition.held) : part.isWrapped = false ∧ part.own = part.first := by
  have habove := above_of_mem_heldBelow (ne_splicedRule_of_hasChild hfinally) hpart
  have hparent : part.parentKind = "parenthesized_expression" := by
    rw [Spot.parentKind, habove]
    exact hkind
  have hwrapped : part.isWrapped = false := by
    rw [Spot.isWrapped, isStatementBlock, hparent]
    simp [statementContexts]
  exact ⟨hwrapped, own_of_not_isWrapped hwrapped⟩

theorem not_isSpliced_of_hasCondition (h : hasCondition spot.kind = true) :
    spot.isSpliced = false := by
  rw [Bool.eq_false_iff]
  intro hspliced
  have hrule : kindOfRule? spot.row.kind = none := by
    rw [(isSpliced_iff.mp hspliced).2]
    rfl
  have hlisted : spot.kind ∉ [.returnType, .classDecl, .keyword, .other] := by
    intro hmem
    simp only [List.mem_cons, List.not_mem_nil, or_false] at hmem
    obtain hkind | hkind | hkind | hkind := hmem
    all_goals
      rw [hkind] at h
      cases h
  have hkind : kindOfRule? spot.row.kind = some spot.kind := kindOfRule?_of_classify rfl hlisted
  rw [hrule] at hkind
  cases hkind

/-- What is found among the parts that rows give is the node of the first row that passes. -/
theorem find?_parts {rows : List Spot} (hrows : ∀ part ∈ rows, part.own = part.first)
    (p : Row → Bool) :
    (((rows.filter fun part => !part.row.extra).map fun part => (part.first, part.row)).find?
      fun part => p part.2).map (·.1) =
      (rows.find? fun part => !part.row.extra && p part.row).map Spot.own := by
  rw [List.find?_map, List.find?_filter, Option.map_map]
  simp only [Function.comp_def, Bool.decide_and, Bool.decide_eq_true]
  exact Option.map_congr fun part hpart => (hrows part (List.mem_of_find?_eq_some hpart)).symm

/-- The links of a condition in parentheses, as choices among the rows inside. -/
theorem Built.conditionLinks_eq (h : tree.Built b) (hmem : condition ∈ tree.spots)
    (hown : condition.isSpliced = false) (hkind : condition.row.kind = "parenthesized_expression")
    (hfinally : hasChild condition.tree.children "finally_clause" = false) :
    conditionLinks b condition.lowered =
      { leftParen := (condition.held.find? fun part =>
          !part.row.extra && part.row.kind == "(").map Spot.own
        condition := (condition.held.find? fun part =>
          !part.row.extra && part.row.named).map Spot.own
        rightParen := (condition.held.reverse.find? fun part =>
          !part.row.extra && part.row.kind == ")").map Spot.own } := by
  have hrule : condition.lowered.row.kind = "parenthesized_expression" := hkind
  have hheld : ∀ part ∈ condition.held, part.own = part.first := fun part hpart =>
    (own_of_mem_held hkind hfinally hpart).2
  have hreversed : ∀ part ∈ condition.held.reverse, part.own = part.first := fun part hpart =>
    hheld part (List.mem_reverse.mp hpart)
  rw [conditionLinks, if_pos hrule, h.conditionParts_eq hmem hown hkind hfinally]
  simp only [← List.map_reverse, ← List.filter_reverse]
  rw [find?_parts hheld (·.kind == "("), find?_parts hheld (·.named),
    find?_parts hreversed (·.kind == ")")]

/-- A link is the one of a chosen row: there is none if no row was chosen, and otherwise it leads to
the node of the row, which has the kind and the range of the row. No node of a comment is linked. -/
structure LinksChosen (tree : ParseTree) (lowered : SyntaxTree) (link : Option NodeId)
    (choice : Option Spot) : Prop where
  link_eq : link = choice.map Spot.own
  image : ∀ part, choice = some part → ∃ node, lowered.node? part.own = some node ∧
    node.head = ⟨part.kind, ⟨part.row.start, part.row.stop⟩, part.holder?.map Spot.own⟩
  no_comment : ∀ comment ∈ tree.spots, comment.row.extra = true →
    ∀ k < comment.heads.length, link ≠ some (comment.first + k)

/-- What is chosen among the rows inside parentheses, comments left aside, is linked as it should. -/
theorem Built.linksChosen (h : tree.Built b) (hmem : condition ∈ tree.spots)
    (hown : condition.isSpliced = false) (hkind : condition.row.kind = "parenthesized_expression")
    (hfinally : hasChild condition.tree.children "finally_clause" = false) {choice : Option Spot}
    (hchoice : ∀ part, choice = some part → part ∈ condition.held ∧ part.row.extra = false) :
    LinksChosen tree ⟨b.source, b.nodes⟩ (choice.map Spot.own) choice := by
  have hplaced : ∀ part, choice = some part → part ∈ tree.spots ∧ part.own = part.first ∧
      part.heads[0]? = some ⟨part.kind, part.extent, part.holder?.map Spot.own⟩ := by
    intro part hpart
    have hheld := (hchoice part hpart).1
    obtain ⟨hwrapped, hfirst⟩ := own_of_mem_held hkind hfinally hheld
    obtain ⟨hunder, hspliced, -⟩ := mem_held hheld hown
    refine ⟨mem_spots_of_mem_spotsUnder hmem hunder, hfirst, ?_⟩
    rw [heads_of_not_isWrapped hspliced hwrapped]
    rfl
  refine ⟨rfl, fun part hpart => ?_, fun comment hcomment hextra k hk hlink => ?_⟩
  · obtain ⟨hrow, hfirst, hhead⟩ := hplaced part hpart
    obtain ⟨node, hnode, hnodehead, -⟩ := exists_node_of_head (h.head_at hrow hhead)
    rw [hfirst]
    exact ⟨node, hnode, hnodehead⟩
  · -- Different rows have different nodes, and the chosen row is no comment.
    obtain ⟨part, hpart, hplace⟩ := Option.map_eq_some_iff.mp hlink
    obtain ⟨hrow, hfirst, hhead⟩ := hplaced part hpart
    have hsame : comment = part :=
      (consecutive_spotsFrom 0 [] tree).spot_unique hcomment hrow hk
        (List.getElem?_eq_some_iff.mp hhead).1 rfl (hplace.symm.trans hfirst)
    rw [hsame, (hchoice part hpart).2] at hextra
    cases hextra

/-- Condition and parentheses of a row are those of its child in the field of the condition. -/
theorem Built.links_of_condition (h : tree.Built b) (hmem : spot ∈ tree.spots)
    (hkind : hasCondition spot.kind = true)
    (hcondition : spot.held.find? (fun child => child.row.field == some "condition") =
      some condition) {role : Role} (hmodifiers : Role.modifierList ≠ role)
    (hbody : Role.body ≠ role) :
    (b.links spot.own).get role = (conditionLinks b condition.lowered).get role := by
  have hfind : (spot.held.map Spot.lowered).find? (fun c => c.row.field == some "condition") =
      some condition.lowered := by
    rw [List.find?_map]
    exact congrArg (Option.map Spot.lowered) hcondition
  rw [(h.settled spot hmem (not_isSpliced_of_hasCondition hkind)).links, Spot.linksIn,
    Links.get_set, if_neg hmodifiers, linksFor_of_hasCondition hkind, conditionalLinks, hfind]
  exact (Links.get_set _ .body role _).trans (if_neg hbody)

/-- The condition of a choice or loop is the first named row inside its parentheses, and the
parentheses are the first opening and the last closing one. Comments are never chosen, and each link
leads to the node of its row. -/
theorem lower_condition_links {lowered : SyntaxTree} (h : tree.lower source = .ok lowered)
    (hmem : spot ∈ tree.spots) (hkind : hasCondition spot.kind = true)
    (hfinally : hasChild spot.tree.children "finally_clause" = false) {inner : ParseTree}
    (hinner : spot.tree.children.find? (fun child => child.row.field == some "condition") =
      some inner)
    (hrule : inner.row.kind = "parenthesized_expression")
    (hbelow : hasChild inner.children "finally_clause" = false) :
    ∃ owner condition, lowered.node? spot.own = some owner ∧ owner.kind = spot.kind ∧
      spot.held.find? (fun child => child.row.field == some "condition") = some condition ∧
      condition.tree = inner ∧ condition.held.map (·.tree) = inner.children ∧
      LinksChosen tree lowered owner.links.condition
        (condition.held.find? fun part => !part.row.extra && part.row.named) ∧
      LinksChosen tree lowered owner.links.leftParen
        (condition.held.find? fun part => !part.row.extra && part.row.kind == "(") ∧
      LinksChosen tree lowered owner.links.rightParen
        (condition.held.reverse.find? fun part => !part.row.extra && part.row.kind == ")") := by
  obtain ⟨b, hbuilt, rfl, rfl⟩ := exists_built h
  have hown := not_isSpliced_of_hasCondition hkind
  obtain ⟨condition, hcondition, rfl⟩ : ∃ condition,
      spot.held.find? (fun child => child.row.field == some "condition") = some condition ∧
        condition.tree = inner := by
    rw [← held_trees hfinally, List.find?_map] at hinner
    exact Option.map_eq_some_iff.mp hinner
  have hheld := List.mem_of_find?_eq_some hcondition
  obtain ⟨hunder, hspliced, -⟩ := mem_held hheld hown
  have hrow := mem_spots_of_mem_spotsUnder hmem hunder
  obtain ⟨_, hhead⟩ := hbuilt.head_own hmem hown
  obtain ⟨owner, howner, hownerhead, -, hownerlinks⟩ := exists_node_of_head hhead
  have hlink : ∀ role, Role.modifierList ≠ role → Role.body ≠ role → owner.links.get role =
      (conditionLinks b condition.lowered).get role := by
    intro role hmodifiers hbody
    rw [hownerlinks, hbuilt.links_of_condition hmem hkind hcondition hmodifiers hbody]
  simp only [hbuilt.conditionLinks_eq hrow hspliced hrule hbelow] at hlink
  have hchosen : ∀ rows : List Spot, rows ⊆ condition.held → ∀ p : Spot → Bool,
      LinksChosen tree ⟨b.source, b.nodes⟩
        ((rows.find? fun part => !part.row.extra && p part).map Spot.own)
        (rows.find? fun part => !part.row.extra && p part) := by
    intro rows hrows p
    refine hbuilt.linksChosen hrow hspliced hrule hbelow fun part hpart => ?_
    refine ⟨hrows (List.mem_of_find?_eq_some hpart), ?_⟩
    have hpasses := List.find?_some hpart
    rw [Bool.and_eq_true, Bool.not_eq_true'] at hpasses
    exact hpasses.1
  refine ⟨owner, condition, howner, congrArg Head.kind hownerhead, hcondition, rfl,
    held_trees hbelow, ?_, ?_, ?_⟩
  · rw [show owner.links.condition = _ from hlink .condition (by decide) (by decide)]
    exact hchosen condition.held (List.Subset.refl _) _
  · rw [show owner.links.leftParen = _ from hlink .leftParen (by decide) (by decide)]
    exact hchosen condition.held (List.Subset.refl _) _
  · rw [show owner.links.rightParen = _ from hlink .rightParen (by decide) (by decide)]
    exact hchosen condition.held.reverse (fun _ hpart => List.mem_reverse.mp hpart) _

def comment (start stop : Nat) : ParseTree :=
  node ⟨"block_comment", none, true, true, false, start, stop⟩ []

/-- An `if` whose condition has parentheses of its own and stands between two comments. -/
def commentedIf : ParseTree :=
  ofRule "if_statement" 0 20
    [token "if" 0 2,
      ofRuleIn "condition" "parenthesized_expression" 3 18
        [token "(" 3 4, comment 4 9,
          ofRule "parenthesized_expression" 9 12
            [token "(" 9 10, ofRule "identifier" 10 11 [], token ")" 11 12],
          comment 12 17, token ")" 17 18],
      ofRuleIn "consequence" "expression_statement" 18 20
        [ofRule "identifier" 18 19 [], token ";" 19 20]]

theorem lower_condition_links_commentedIf :
    ∃ lowered owner, commentedIf.lower "if (/*a*/(x)/*b*/)y;" = .ok lowered ∧
      lowered.node? 0 = some owner ∧ owner.kind = .ifElse ∧ owner.links.condition = some 5 ∧
      owner.links.leftParen = some 3 ∧ owner.links.rightParen = some 10 ∧
      ∃ node, lowered.node? 5 = some node ∧ node.extent = ⟨9, 12⟩ := by
  obtain ⟨lowered, h⟩ : ∃ lowered, commentedIf.lower "if (/*a*/(x)/*b*/)y;" = .ok lowered :=
    exists_lower_eq_ok_iff.mpr (by decide +kernel)
  let root : Spot := ⟨⟨0, commentedIf⟩, []⟩
  have hroot : root ∈ commentedIf.spots := by
    rw [spots, commentedIf, ofRule, spotsFrom]
    exact List.mem_cons_self
  obtain ⟨owner, condition, howner, hkind, hcondition, -, -, hlink, hleft, hright⟩ :=
    lower_condition_links h hroot (by decide +kernel) (by decide +kernel) rfl rfl
      (by decide +kernel)
  have hchosen : ((root.held.find? fun child => child.row.field == some "condition").map
      fun condition =>
        ((condition.held.find? fun part => !part.row.extra && part.row.named).map
            fun part => (part.own, part.row.start, part.row.stop),
          (condition.held.find? fun part => !part.row.extra && part.row.kind == "(").map Spot.own,
          (condition.held.reverse.find? fun part =>
            !part.row.extra && part.row.kind == ")").map Spot.own)) =
      some (some (5, 9, 12), some 3, some 10) := by
    decide +kernel
  rw [hcondition] at hchosen
  obtain ⟨hpart, hparens⟩ := Prod.mk.inj (Option.some.inj hchosen)
  obtain ⟨hopening, hclosing⟩ := Prod.mk.inj hparens
  obtain ⟨part, hfound, hplace⟩ := Option.map_eq_some_iff.mp hpart
  obtain ⟨hown, hrange⟩ := Prod.mk.inj hplace
  obtain ⟨hstart, hstop⟩ := Prod.mk.inj hrange
  obtain ⟨node, hnode, hhead⟩ := hlink.image part hfound
  refine ⟨lowered, owner, h, howner, hkind, ?_, hleft.link_eq.trans hopening,
    hright.link_eq.trans hclosing, node, hown ▸ hnode, ?_⟩
  · rw [hlink.link_eq, hfound, Option.map_some, hown]
  · have hextent := congrArg Head.extent hhead
    rw [hstart, hstop] at hextent
    exact hextent

end BlockShading.ParseTree
