import BlockShading.Proofs.Decoration.Boundaries
import BlockShading.Proofs.ParseTree.LinkShape

/-!
# Delimiters of lowered nodes

Braces, and the parentheses of a counting loop or of a `catch`, are found by the text they cover,
so a token that the source lacks is no delimiter. The parentheses of a condition are found by the
rule of their row. They are the right rows, but one of them may be missing in the source: such a
parenthesis is linked and shaded all the same.
-/

namespace BlockShading

def Role.delimiter? : Role → Option String
  | .leftParen => some "("
  | .rightParen => some ")"
  | .leftBrace => some "\x7b"
  | .rightBrace => some "\x7d"
  | _ => none

theorem Role.delimiter?_cases {role : Role} {text : String} (h : role.delimiter? = some text) :
    (role = .leftParen ∧ text = "(") ∨ (role = .rightParen ∧ text = ")") ∨
      (role = .leftBrace ∧ text = "\x7b") ∨ (role = .rightBrace ∧ text = "\x7d") := by
  cases role <;> simp_all [delimiter?]

namespace ParseTree

open TreeBuilder Lowered

variable {b : TreeBuilder} {children : List Lowered} {tree : ParseTree} {spot : Spot}
  {text source : String} {role : Role} {t : NodeId} {i : Nat}

theorem text_of_token? (h : token? b children text = some t) : b.text t = text := by
  obtain ⟨child, hchild, rfl⟩ := Option.map_eq_some_iff.mp h
  have hfound := List.find?_some hchild
  simp only [Bool.and_eq_true, beq_iff_eq] at hfound
  exact hfound.2

theorem text_of_lastToken? (h : lastToken? b children text = some t) : b.text t = text :=
  text_of_token? h

theorem classLinks_delimiter (hrole : role.delimiter? = some text)
    (h : (classLinks b children).get role = some t) : b.text t = text := by
  unfold classLinks at h
  cases hbody : (inField? children "body").or (ofRule? children "class_body") with
  | none =>
    simp only [hbody] at h
    obtain ⟨rfl, rfl⟩ | ⟨rfl, rfl⟩ | ⟨rfl, rfl⟩ | ⟨rfl, rfl⟩ := Role.delimiter?_cases hrole
    all_goals cases h
  | some body =>
    simp only [hbody] at h
    obtain ⟨rfl, rfl⟩ | ⟨rfl, rfl⟩ | ⟨rfl, rfl⟩ | ⟨rfl, rfl⟩ := Role.delimiter?_cases hrole
    · cases h
    · cases h
    · simpa using List.find?_some h
    · simpa using List.find?_some h

/-- A parenthesis of a condition is one of its parts and has the rule of a parenthesis. -/
theorem conditionLinks_delimiter {condition : Lowered} (hrole : role.delimiter? = some text)
    (h : (conditionLinks b condition).get role = some t) :
    condition.row.kind = "parenthesized_expression" ∧
      ∃ part ∈ conditionParts b condition, part.1 = t ∧ part.2.kind = text := by
  unfold conditionLinks at h
  split at h
  · next hkind =>
    refine ⟨hkind, ?_⟩
    obtain ⟨rfl, rfl⟩ | ⟨rfl, rfl⟩ | ⟨rfl, rfl⟩ | ⟨rfl, rfl⟩ := Role.delimiter?_cases hrole
    · obtain ⟨part, hpart, rfl⟩ := Option.map_eq_some_iff.mp h
      exact ⟨part, List.mem_of_find?_eq_some hpart, rfl, by simpa using List.find?_some hpart⟩
    · obtain ⟨part, hpart, rfl⟩ := Option.map_eq_some_iff.mp h
      exact ⟨part, List.mem_reverse.mp (List.mem_of_find?_eq_some hpart), rfl,
        by simpa using List.find?_some hpart⟩
    · cases h
    · cases h
  · obtain ⟨rfl, rfl⟩ | ⟨rfl, rfl⟩ | ⟨rfl, rfl⟩ | ⟨rfl, rfl⟩ := Role.delimiter?_cases hrole
    all_goals cases h

theorem conditionalLinks_delimiter (hrole : role.delimiter? = some text)
    (h : (conditionalLinks b children).get role = some t) :
    ∃ condition ∈ children, (conditionLinks b condition).get role = some t := by
  have hbody : Role.body ≠ role := by
    rintro rfl
    cases hrole
  have hget : (conditionalLinks b children).get role =
      (((children.find? fun c => c.row.field == some "condition").map
        (conditionLinks b)).getD {}).get role := by
    exact (Links.get_set _ .body role _).trans (if_neg hbody)
  rw [hget] at h
  cases hfind : children.find? fun c => c.row.field == some "condition" with
  | none =>
    rw [hfind] at h
    cases role <;> cases h
  | some condition =>
    rw [hfind] at h
    exact ⟨condition, List.mem_of_find?_eq_some hfind, h⟩

def hasCondition : NodeKind → Bool
  | .loop .whileLoop | .loop .doWhile | .ifElse => true
  | _ => false

theorem linksFor_of_hasCondition {kind : NodeKind} (h : hasCondition kind = true) :
    linksFor b kind children = conditionalLinks b children := by
  cases kind
  case ifElse => rfl
  case loop form => cases form <;> first | rfl | cases h
  all_goals cases h

/-- Every delimiter but the parentheses of a condition covers its text. -/
theorem linksFor_delimiter {kind : NodeKind} (hkind : hasCondition kind = false)
    (hrole : role.delimiter? = some text) (h : (linksFor b kind children).get role = some t) :
    b.text t = text := by
  cases kind
  case classDecl => exact classLinks_delimiter hrole h
  case ifElse => cases hkind
  case codeBlock =>
    obtain ⟨rfl, rfl⟩ | ⟨rfl, rfl⟩ | ⟨rfl, rfl⟩ | ⟨rfl, rfl⟩ := Role.delimiter?_cases hrole
    · cases h
    · cases h
    · exact text_of_token? h
    · exact text_of_lastToken? h
  case loop form =>
    cases form
    case forLoop =>
      obtain ⟨rfl, rfl⟩ | ⟨rfl, rfl⟩ | ⟨rfl, rfl⟩ | ⟨rfl, rfl⟩ := Role.delimiter?_cases hrole
      · exact text_of_token? h
      · exact text_of_lastToken? h
      · cases h
      · cases h
    all_goals cases hkind
  case catchSection =>
    obtain ⟨rfl, rfl⟩ | ⟨rfl, rfl⟩ | ⟨rfl, rfl⟩ | ⟨rfl, rfl⟩ := Role.delimiter?_cases hrole
    · exact text_of_token? h
    · exact text_of_lastToken? h
    · cases h
    · cases h
  all_goals
    obtain ⟨rfl, rfl⟩ | ⟨rfl, rfl⟩ | ⟨rfl, rfl⟩ | ⟨rfl, rfl⟩ := Role.delimiter?_cases hrole
    all_goals cases h

namespace Built

/-- The children of a condition in parentheses stand for the rows it holds. -/
theorem parenthesized (h : tree.Built b) (hmem : spot ∈ tree.spots)
    (hown : spot.isSpliced = false) (hkind : spot.row.kind = "parenthesized_expression") :
    spot.own = spot.first ∧ b.children spot.first = spot.held.map (·.first) := by
  have hwrapped : spot.isWrapped = false := by
    simp [Spot.isWrapped, isStatementBlock, hkind]
  have hmethod : spot.kind ≠ .methodDecl := by
    intro hmethod
    have hrule := rule_of_methodDecl (kindOfRule?_of_classify hmethod (by simp))
    simp [hkind] at hrule
  have hfirst := own_of_not_isWrapped hwrapped
  have hchildren := (h.settled spot hmem hown).children
  have hinserted : spot.inserted? = none := by simp [Spot.inserted?, hmethod]
  rw [hfirst, hinserted] at hchildren
  exact ⟨hfirst, hchildren⟩

/-- Unless a row is left out, each part of a condition goes with the row it stands for. -/
theorem conditionParts_eq (h : tree.Built b) (hmem : spot ∈ tree.spots)
    (hown : spot.isSpliced = false) (hkind : spot.row.kind = "parenthesized_expression")
    (hfinally : hasChild spot.tree.children "finally_clause" = false) :
    conditionParts b spot.lowered =
      (spot.held.filter fun part => !part.row.extra).map fun part => (part.first, part.row) := by
  have hchildren := (h.parenthesized hmem hown hkind).2
  have hrows : spot.tree.children.map ParseTree.row = spot.held.map Spot.row := by
    rw [← held_trees hfinally, List.map_map]
    rfl
  -- Children and rows are both read off the held rows, so that they agree place by place.
  simp only [conditionParts, Spot.lowered, hchildren, hrows, List.zip_map']
  rw [List.filter_map]
  rfl

theorem text_first (h : tree.Built b) (hmem : spot ∈ tree.spots) (hown : spot.isSpliced = false) :
    b.text spot.first = spot.extent.textIn b.source := by
  obtain ⟨parent, hhead⟩ := h.head_first hmem hown
  rw [TreeBuilder.text, extent?_eq, hhead]
  rfl

end Built

theorem textIn_of_empty {extent : Extent} (h : extent.start = extent.stop) (source : String) :
    extent.textIn source = "" := by
  unfold Extent.textIn Text.slice?
  rw [h, if_pos (Nat.le_refl _), Nat.sub_self]
  cases Text.dropBytes? source.toList extent.stop with
  | none => rfl
  | some rest => cases rest <;> rfl

/-- A linked node that does not read as the parenthesis it is linked for. It is a part of a
condition. If no `finally_clause` stands directly in the condition, the row is known that it stands
for: one with the rule of the parenthesis, and a missing token if it is no named row. Of a named row
with such a rule, and of a condition in which a row is left out, nothing more is said. -/
structure UnreadParen (tree : ParseTree) (lowered : SyntaxTree) (owner t : NodeId) (text : String)
    (mark : Node) (condition : Spot) : Prop where
  row : condition ∈ tree.spots
  kind : condition.row.kind = "parenthesized_expression"
  above : lowered.IsChild owner condition.own
  below : lowered.IsChild condition.own t
  missing : hasChild condition.tree.children "finally_clause" = false →
    ∃ part ∈ condition.held, part.first = t ∧ part.row.kind = text ∧ part.row.extra = false ∧
      (part.row.named = false → part.row.missing = true ∧ lowered.textOf mark = "")

namespace Built

/-- The delimiters of a row: what is linked covers the delimiter or is a part of a condition. -/
theorem delimiter_cases (h : tree.Built b) (hmem : spot ∈ tree.spots)
    (hown : spot.isSpliced = false) (hrole : role.delimiter? = some text)
    (ht : (b.links spot.own).get role = some t) :
    b.text t = text ∨ hasCondition spot.kind = true ∧
      ∃ condition ∈ spot.held, condition.row.kind = "parenthesized_expression" ∧
        ∃ part ∈ conditionParts b condition.lowered, part.1 = t ∧ part.2.kind = text := by
  have hother : Role.modifierList ≠ role := by
    rintro rfl
    cases hrole
  rw [(h.settled spot hmem hown).links, Spot.linksIn, Links.get_set, if_neg hother] at ht
  cases hkind : hasCondition spot.kind with
  | false => exact Or.inl (linksFor_delimiter hkind hrole ht)
  | true =>
    rw [linksFor_of_hasCondition hkind] at ht
    obtain ⟨child, hchild, hlinks⟩ := conditionalLinks_delimiter hrole ht
    obtain ⟨condition, hcondition, rfl⟩ := List.mem_map.mp hchild
    exact Or.inr ⟨rfl, condition, hcondition, conditionLinks_delimiter hrole hlinks⟩

/-- A part of a condition that does not read as a parenthesis is a missing token. -/
theorem missing_of_unread (h : tree.Built b) (hmem : spot ∈ tree.spots)
    (hown : spot.isSpliced = false)
    (htext : spot.row.named = false → spot.row.missing = false →
      spot.extent.textIn b.source = spot.row.kind)
    (hmissing : spot.row.missing = true → spot.row.start = spot.row.stop)
    (hunread : b.text spot.first ≠ spot.row.kind) (hnamed : spot.row.named = false) :
    spot.row.missing = true ∧ b.text spot.first = "" := by
  rw [h.text_first hmem hown] at hunread ⊢
  have hlacks : spot.row.missing = true := by
    by_contra hthere
    exact hunread (htext hnamed (Bool.eq_false_iff.mpr hthere))
  exact ⟨hlacks, textIn_of_empty (hmissing hlacks) b.source⟩

theorem unreadParen (h : tree.Built b)
    (htext : ∀ spot ∈ tree.spots, spot.row.named = false → spot.row.missing = false →
      spot.extent.textIn b.source = spot.row.kind)
    (hmissing : ∀ spot ∈ tree.spots, spot.row.missing = true → spot.row.start = spot.row.stop)
    (hmem : spot ∈ tree.spots) (hown : spot.isSpliced = false) {condition : Spot}
    (hcondition : condition ∈ spot.held) (hkind : condition.row.kind = "parenthesized_expression")
    {part : NodeId × Row} (hpart : part ∈ conditionParts b condition.lowered)
    (hunread : b.text part.1 ≠ part.2.kind) {mark : Node}
    (hmark : b.text part.1 = SyntaxTree.textOf ⟨b.source, b.nodes⟩ mark) :
    UnreadParen tree ⟨b.source, b.nodes⟩ spot.own part.1 part.2.kind mark condition := by
  obtain ⟨hunder, hunspliced, -⟩ := mem_held hcondition hown
  have hrow := mem_spots_of_mem_spotsUnder hmem hunder
  have hplace := (h.parenthesized hrow hunspliced hkind).1
  refine ⟨hrow, hkind, ?_, ?_, fun hfinally => ?_⟩
  · rw [isChild_iff, hplace, (h.settled spot hmem hown).children]
    exact List.mem_append_right _ (List.mem_map_of_mem hcondition)
  · rw [isChild_iff, hplace]
    exact (List.of_mem_zip (List.mem_filter.mp hpart).1).1
  · rw [h.conditionParts_eq hrow hunspliced hkind hfinally] at hpart
    obtain ⟨found, hfound, rfl⟩ := List.mem_map.mp hpart
    obtain ⟨hheld, hextra⟩ := List.mem_filter.mp hfound
    obtain ⟨hbelow, hfoundown, -⟩ := mem_held hheld hunspliced
    have hfoundrow := mem_spots_of_mem_spotsUnder hrow hbelow
    refine ⟨found, hheld, rfl, rfl, by simpa using hextra, ?_⟩
    rw [← hmark]
    exact h.missing_of_unread hfoundrow hfoundown (htext found hfoundrow)
      (hmissing found hfoundrow) hunread

end Built

/-- In a lowered tree every delimiter that is linked covers its text, unless it is a parenthesis of
a condition. That one may stand for a token that the source lacks, and does so wherever the
condition has no `finally_clause` as a direct part and no named row with the rule of a parenthesis:
a grammar for the language gives neither. -/
theorem lower_delimiters {lowered : SyntaxTree} (h : tree.lower source = .ok lowered)
    (htext : ∀ spot ∈ tree.spots, spot.row.named = false → spot.row.missing = false →
      spot.extent.textIn source = spot.row.kind)
    (hmissing : ∀ spot ∈ tree.spots, spot.row.missing = true → spot.row.start = spot.row.stop)
    {owner : Node} (howner : lowered.node? i = some owner) (hrole : role.delimiter? = some text)
    (ht : owner.links.get role = some t) :
    ∃ mark, lowered.node? t = some mark ∧
      (lowered.textOf mark = text ∨
        hasCondition owner.kind = true ∧
          ∃ condition, UnreadParen tree lowered i t text mark condition) := by
  obtain ⟨b, hbuilt, rfl, rfl⟩ := exists_built h
  obtain ⟨hhead, -, hlinks⟩ := head_of_node (b := b) howner
  rw [← hlinks] at ht
  have htarget := hbuilt.target_lt_size hhead (Links.mem_targets_iff.mpr (Or.inl ⟨role, ht⟩))
  obtain ⟨_, hmarkhead⟩ := exists_head_of_lt htarget
  obtain ⟨mark, hmark, -⟩ := exists_node_of_head hmarkhead
  have hread : b.text t = SyntaxTree.textOf ⟨b.source, b.nodes⟩ mark := by
    rw [TreeBuilder.text, extent?, hmark]
    rfl
  refine ⟨mark, hmark, ?_⟩
  rw [← hread]
  by_cases hcovers : b.text t = text
  · exact Or.inl hcovers
  obtain ⟨spot, hmem, hown, rfl, hkind⟩ | ⟨block, -, hblock⟩ | hnone := hbuilt.links_cases hhead
  · obtain hsame | ⟨hconditional, condition, hcondition, hrule, part, hpart, rfl, rfl⟩ :=
      hbuilt.delimiter_cases hmem hown hrole ht
    · exact absurd hsame hcovers
    · have howned : owner.kind = spot.kind := hkind
      exact Or.inr ⟨howned ▸ hconditional, condition,
        hbuilt.unreadParen htext hmissing hmem hown hcondition hrule hpart hcovers hread⟩
  -- Neither a statement that is a block nor an empty list of modifiers has delimiters.
  · rw [hblock] at ht
    cases role <;> cases hrole <;> cases ht
  · rw [hnone] at ht
    cases role <;> cases hrole <;> cases ht

def token (text : String) (start stop : Nat) : ParseTree :=
  node ⟨text, none, false, false, false, start, stop⟩ []

/-- The token that a parser inserts where the source lacks it. -/
def missingToken (text : String) (place : Nat) : ParseTree :=
  node ⟨text, none, false, false, true, place, place⟩ []

/-- A class with a method in which the condition of an `if` is not closed. -/
def unclosedIf : ParseTree :=
  ofRule "program" 0 56
    [ofRule "class_declaration" 0 55
      [token "class" 0 5, ofRuleIn "name" "identifier" 6 7 [],
        ofRuleIn "body" "class_body" 8 55
          [token "\x7b" 8 9,
            ofRule "method_declaration" 14 53
              [ofRuleIn "type" "void_type" 14 18 [], ofRuleIn "name" "identifier" 19 20 [],
                ofRuleIn "parameters" "formal_parameters" 20 22 [token "(" 20 21, token ")" 21 22],
                ofRuleIn "body" "block" 23 53
                  [token "\x7b" 23 24,
                    ofRule "if_statement" 33 47
                      [token "if" 33 35,
                        ofRuleIn "condition" "parenthesized_expression" 36 38
                          [token "(" 36 37, ofRule "identifier" 37 38 [], missingToken ")" 38],
                        ofRuleIn "consequence" "block" 39 47
                          [token "\x7b" 39 40,
                            ofRule "expression_statement" 41 45
                              [ofRule "method_invocation" 41 44
                                [ofRuleIn "name" "identifier" 41 42 [],
                                  ofRuleIn "arguments" "argument_list" 42 44
                                    [token "(" 42 43, token ")" 43 44]],
                                token ";" 44 45],
                            token "\x7d" 46 47]],
                    token "\x7d" 52 53]],
            token "\x7d" 54 55]]]

def unclosedText : String :=
  "class A \x7b\n    void f() \x7b\n        if (x \x7b a(); \x7d\n    \x7d\n\x7d\n"

theorem unclosedIf_tokens :
    (∀ spot ∈ unclosedIf.spots, spot.row.named = false → spot.row.missing = false →
      spot.extent.textIn unclosedText = spot.row.kind) ∧
      ∀ spot ∈ unclosedIf.spots, spot.row.missing = true → spot.row.start = spot.row.stop := by
  constructor <;> decide +kernel

theorem lower_unclosedIf : ∃ lowered owner mark,
    unclosedIf.lower unclosedText = .ok lowered ∧ lowered.node? 15 = some owner ∧
      owner.links.get .rightParen = some 20 ∧ lowered.node? 20 = some mark ∧
      lowered.textOf mark = "" ∧ mark.extent = ⟨38, 38⟩ ∧
      Handle.spans ⟨15, owner⟩ lowered (Handle.ownText lowered true) =
        .ok ([⟨33, 36⟩, ⟨39, 40⟩, ⟨46, 47⟩, ⟨25, 33⟩, ⟨37, 38⟩, ⟨36, 37⟩, ⟨38, 38⟩].map
          (⟨·, .condition⟩)) := by
  have hfacts : ((unclosedIf.lower unclosedText).toOption.map fun lowered =>
      ((lowered.node? 20).map fun mark => (lowered.textOf mark, mark.extent),
        (lowered.node? 15).map fun owner => (owner.links.get .rightParen,
          (Handle.spans ⟨15, owner⟩ lowered (Handle.ownText lowered true)).toOption))) =
      some (some ("", ⟨38, 38⟩), some (some 20, some ([⟨33, 36⟩, ⟨39, 40⟩, ⟨46, 47⟩, ⟨25, 33⟩,
        ⟨37, 38⟩, ⟨36, 37⟩, ⟨38, 38⟩].map (⟨·, .condition⟩)))) := by
    decide +kernel
  cases hrun : unclosedIf.lower unclosedText with
  | error e =>
    rw [hrun] at hfacts
    cases hfacts
  | ok lowered =>
    rw [hrun] at hfacts
    obtain ⟨hmark, howner⟩ := Prod.mk.inj (Option.some.inj hfacts)
    obtain ⟨mark, hmark, hempty⟩ := Option.map_eq_some_iff.mp hmark
    obtain ⟨owner, howner, hlinks⟩ := Option.map_eq_some_iff.mp howner
    obtain ⟨hparen, hspans⟩ := Prod.mk.inj hlinks
    obtain ⟨htext, hextent⟩ := Prod.mk.inj hempty
    refine ⟨lowered, owner, mark, rfl, howner, hparen, hmark, htext, hextent, ?_⟩
    cases hdrawn : Handle.spans ⟨15, owner⟩ lowered (Handle.ownText lowered true) with
    | error e =>
      rw [hdrawn] at hspans
      cases hspans
    | ok spans =>
      rw [hdrawn] at hspans
      rw [Option.some.inj hspans]

theorem lower_delimiters_unclosedIf : ∃ lowered mark condition,
    unclosedIf.lower unclosedText = .ok lowered ∧ lowered.node? 20 = some mark ∧
      UnreadParen unclosedIf lowered 15 20 ")" mark condition := by
  obtain ⟨lowered, owner, mark, hlower, howner, hparen, hmark, hempty, -, -⟩ := lower_unclosedIf
  obtain ⟨again, hagain, hread⟩ :=
    lower_delimiters hlower unclosedIf_tokens.1 unclosedIf_tokens.2 howner rfl hparen
  cases hmark.symm.trans hagain
  rcases hread with hcovers | ⟨-, condition, hcondition⟩
  · rw [hempty] at hcovers
    exact absurd hcovers (by decide)
  · exact ⟨lowered, mark, condition, hlower, hmark, hcondition⟩

/-- The parenthesis that the source lacks is linked, though it does not read as one, and shaded. -/
theorem unclosedIf_shades_missing_paren :
    (∀ spot ∈ unclosedIf.spots, spot.row.named = false → spot.row.missing = false →
      spot.extent.textIn unclosedText = spot.row.kind) ∧
      (∀ spot ∈ unclosedIf.spots, spot.row.missing = true → spot.row.start = spot.row.stop) ∧
      ∃ lowered owner mark spans, unclosedIf.lower unclosedText = .ok lowered ∧
        lowered.node? 15 = some owner ∧ owner.links.get .rightParen = some 20 ∧
        lowered.node? 20 = some mark ∧ lowered.textOf mark ≠ ")" ∧
        Handle.spans ⟨15, owner⟩ lowered (Handle.ownText lowered true) = .ok spans ∧
        ⟨mark.extent, .condition⟩ ∈ spans := by
  obtain ⟨lowered, owner, mark, hlower, howner, hparen, hmark, hempty, hextent, hspans⟩ :=
    lower_unclosedIf
  refine ⟨unclosedIf_tokens.1, unclosedIf_tokens.2, lowered, owner, mark, _, hlower, howner, hparen,
    hmark, ?_, hspans, ?_⟩
  · rw [hempty]
    decide
  · rw [hextent]
    decide

end ParseTree

end BlockShading
