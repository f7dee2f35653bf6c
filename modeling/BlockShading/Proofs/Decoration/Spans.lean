import BlockShading.Proofs.Decoration.Rules

/-!
# What comes of the targets of a node

The targets of a node are placed one after the other, and the first that cannot be placed fails the
node. In a finished tree a target as it is always can: it is the extent of a node that a chain of
children and links leads to. Indentation always can too, in whatever text it is measured. Main
statement: a node fails exactly if the character after one of its padded targets is outside it, and
otherwise has the spans of all targets in order.
-/

namespace BlockShading

/-- Checks that give a value or a fault, made one after the other: all values or the first fault. -/
theorem mapM_eq_of_first_fault {α β ε : Type} {check : α → Except ε β} (value : α → β)
    (fault? : α → Option ε) {xs : List α}
    (hcheck : ∀ x ∈ xs, check x = (fault? x).elim (.ok (value x)) .error) :
    xs.mapM check = (xs.findSome? fault?).elim (.ok (xs.map value)) .error := by
  induction xs with
  | nil => rfl
  | cons x xs ih =>
    have hx := hcheck x List.mem_cons_self
    have hxs := ih fun y hy => hcheck y (List.mem_cons_of_mem x hy)
    rw [List.mapM_cons, hx, hxs, List.findSome?_cons]
    cases fault? x with
    | some e => rfl
    | none => cases xs.findSome? fault? <;> rfl

namespace Target

/-- Whether a target is the extent of a node that can be reached from a position. -/
def Reached (tree : SyntaxTree) (i : NodeId) : Target → Prop
  | asIs extent | padded extent =>
    ∃ j reached, Relation.ReflTransGen tree.Leads i j ∧ tree.node? j = some reached ∧
      reached.extent = extent
  | guides _ => True

def Inside (outer : Extent) : Target → Prop
  | asIs extent | padded extent => outer.contains extent = true
  | guides _ => True

def extents (around : Surroundings) : Target → List Extent
  | asIs extent => [extent]
  | padded extent => [Handle.paddedExtent around.lines extent]
  | guides body => if around.guides then around.lines.measure body else []

theorem Reached.of_leads {tree : SyntaxTree} {i j : NodeId} {t : Target} (hlead : tree.Leads i j)
    (h : t.Reached tree j) : t.Reached tree i := by
  cases t with
  | guides body => trivial
  | asIs extent | padded extent =>
    obtain ⟨k, reached, hchain, hnode, hextent⟩ := h
    exact ⟨k, reached, hchain.head hlead, hnode, hextent⟩

theorem Reached.inside {tree : SyntaxTree} {i : NodeId} {node : Node} {t : Target}
    (htree : tree.Finished) (hnode : tree.node? i = some node) (h : t.Reached tree i) :
    t.Inside node.extent := by
  cases t with
  | guides body => trivial
  | asIs extent | padded extent =>
    obtain ⟨j, reached, hchain, hj, rfl⟩ := h
    obtain ⟨again, hagain, hin⟩ := htree.inside_of_chain hnode hchain
    rw [hj] at hagain
    cases hagain
    exact hin

end Target

theorem SyntaxTree.mem_nodesAt_iff {tree : SyntaxTree} {ids : List NodeId} {node : Node} :
    node ∈ tree.nodesAt ids ↔ ∃ j ∈ ids, tree.node? j = some node := by
  simp [nodesAt]

/-- What holds of a target at the node it is made from, and is handed on along accessors, holds of
every target of a rule. -/
theorem Rule.targets_induction {tree : SyntaxTree} (holds : NodeId → Target → Prop)
    (whole : ∀ {i node}, tree.node? i = some node → holds i (.asIs node.extent))
    (withNext : ∀ {i node}, tree.node? i = some node → holds i (.padded node.extent))
    (indentation : ∀ {i node first last}, tree.node? i = some node →
      first ∈ tree.nodesAt node.links.statements → last ∈ tree.nodesAt node.links.statements →
      holds i (.guides ⟨first.extent.start, last.extent.stop⟩))
    (leads : ∀ {i j t}, tree.Leads i j → holds j t → holds i t) (rule : Rule) {i : NodeId}
    {node : Node} (hnode : tree.node? i = some node) :
    ∀ t ∈ rule.targets tree node, holds i t := by
  induction rule generalizing i node with
  | nothing => simp [targets]
  | whole =>
    intro t ht
    rw [List.mem_singleton.mp ht]
    exact whole hnode
  | withNext =>
    intro t ht
    rw [List.mem_singleton.mp ht]
    exact withNext hnode
  | indentation =>
    intro t ht
    rw [targets] at ht
    split at ht
    · cases ht
    · next first rest hstatements =>
      rw [List.mem_singleton.mp ht]
      have hlast : rest.getLast?.getD first ∈ first :: rest :=
        List.mem_of_getLast? List.getLast?_cons
      rw [← hstatements] at hlast
      exact indentation hnode (by simp [hstatements]) hlast
  | both first second ihfirst ihsecond =>
    intro t ht
    rcases List.mem_append.mp ht with ht | ht
    · exact ihfirst hnode t ht
    · exact ihsecond hnode t ht
  | each accessor rule ih =>
    intro t ht
    obtain ⟨next, hnext, ht⟩ := List.mem_flatMap.mp ht
    obtain ⟨j, hj, hjnode⟩ := SyntaxTree.mem_nodesAt_iff.mp hnext
    exact leads ⟨node, accessor, hnode, hj⟩ (ih hjnode t ht)
  | only test rule ih =>
    intro t ht
    rw [targets_only] at ht
    split at ht
    · exact ih hnode t ht
    · cases ht

/-- Whatever a rule describes is reached by children and links. -/
theorem Rule.targets_reached {tree : SyntaxTree} (rule : Rule) {i : NodeId} {node : Node}
    (hnode : tree.node? i = some node) : ∀ t ∈ rule.targets tree node, t.Reached tree i := by
  refine targets_induction (fun i t => t.Reached tree i) ?_ ?_ ?_ ?_ rule hnode
  · intro i node hnode
    exact ⟨i, node, .refl, hnode, rfl⟩
  · intro i node hnode
    exact ⟨i, node, .refl, hnode, rfl⟩
  · intros
    trivial
  · intro i j t hlead hreached
    exact hreached.of_leads hlead

namespace Handle

variable {handle : Handle} {around : Surroundings}

/-- Why a target cannot be placed, if it cannot: the character after it is outside the node. -/
def overrun? (handle : Handle) (around : Surroundings) : Target → Option SpanError
  | .padded extent =>
    if handle.node.extent.stop < (paddedExtent around.lines extent).stop then
      some (.outsideExtent handle.id handle.node.kind (paddedExtent around.lines extent)
        handle.node.extent)
    else none
  | .asIs _ | .guides _ => none

theorem inside_of_contains {produced : Extent}
    (h : handle.node.extent.contains produced = true) : handle.inside produced = .ok produced := by
  rw [inside, if_pos h]

/-- Measured indentation ends inside the text it is measured in. -/
theorem insideText_measure (handle : Handle) (lines : LineIndex) (body : Extent) :
    (lines.measure body).mapM (handle.insideText lines) = .ok (lines.measure body) := by
  have hok : ∀ e ∈ lines.measure body,
      handle.insideText lines e = (none : Option SpanError).elim (.ok e) .error := by
    intro e he
    obtain ⟨line, -, rfl⟩ := List.mem_map.mp he
    rw [insideText, if_pos (lines.indentOf_stop_le line)]
    rfl
  have hnone : (lines.measure body).findSome? (fun _ => (none : Option SpanError)) = none :=
    List.findSome?_eq_none_iff.mpr fun _ _ => rfl
  rw [mapM_eq_of_first_fault (fun e => e) (fun _ => none) hok, hnone, List.map_id']
  rfl

theorem place_eq {t : Target} (hin : t.Inside handle.node.extent) :
    handle.place around t = (handle.overrun? around t).elim (.ok (t.extents around)) .error := by
  cases t with
  | asIs extent =>
    rw [place, inside_of_contains hin]
    rfl
  | padded extent =>
    have hstart := (Extent.contains_iff.mp hin).1
    rw [place, overrun?]
    by_cases hover : handle.node.extent.stop < (paddedExtent around.lines extent).stop
    · have hout : ¬ handle.node.extent.contains (paddedExtent around.lines extent) = true := by
        rw [Extent.contains_iff]
        omega
      rw [inside, if_neg hout, if_pos hover]
      rfl
    · have hcontains : handle.node.extent.contains (paddedExtent around.lines extent) = true :=
        Extent.contains_iff.mpr ⟨hstart, Nat.not_lt.mp hover⟩
      rw [inside_of_contains hcontains, if_neg hover]
      rfl
  | guides body =>
    rw [place, insideText_measure, Target.extents, overrun?]
    cases around.guides <;> rfl

theorem overrun?_eq_some_iff {t : Target} {error : SpanError} :
    handle.overrun? around t = some error ↔
      ∃ e, t = .padded e ∧ handle.node.extent.stop < (paddedExtent around.lines e).stop ∧
        error = .outsideExtent handle.id handle.node.kind (paddedExtent around.lines e)
          handle.node.extent := by
  cases t with
  | asIs extent | guides body => simp [overrun?]
  | padded extent =>
    by_cases hover : handle.node.extent.stop < (paddedExtent around.lines extent).stop <;>
      simp [overrun?, hover, eq_comm]

theorem overrun?_eq_none_iff {t : Target} :
    handle.overrun? around t = none ↔
      ∀ e, t = .padded e → (paddedExtent around.lines e).stop ≤ handle.node.extent.stop := by
  cases t with
  | asIs extent | guides body => simp [overrun?]
  | padded extent => simp [overrun?]

variable {tree : SyntaxTree}

theorem reached_of_mem_ofNode {t : Target} (hnode : tree.node? handle.id = some handle.node)
    (ht : t ∈ Target.ofNode tree handle.node) : t.Reached tree handle.id := by
  rw [← Rule.targets_ofKind] at ht
  exact Rule.targets_reached _ hnode t ht

theorem inside_of_mem_ofNode {t : Target} (htree : tree.Finished)
    (hnode : tree.node? handle.id = some handle.node)
    (ht : t ∈ Target.ofNode tree handle.node) : t.Inside handle.node.extent :=
  (reached_of_mem_ofNode hnode ht).inside htree hnode

/-- The spans of a node are those of all its targets, unless one of them overruns the node. -/
theorem spans_eq (htree : tree.Finished) (hnode : tree.node? handle.id = some handle.node)
    {category : Category} (hcategory : handle.node.kind.category? = some category)
    (around : Surroundings) :
    handle.spans tree around =
      ((Target.ofNode tree handle.node).findSome? (handle.overrun? around)).elim
        (.ok (((Target.ofNode tree handle.node).flatMap (Target.extents around)).map (⟨·, category⟩)))
        .error := by
  have hplace := mapM_eq_of_first_fault (Target.extents around) (handle.overrun? around)
    fun t ht => place_eq (inside_of_mem_ofNode htree hnode ht)
  rw [spans, hcategory]
  simp only [hplace]
  cases (Target.ofNode tree handle.node).findSome? (handle.overrun? around) <;>
    simp [Except.map, List.flatMap_def]

theorem spans_eq_error_iff (htree : tree.Finished)
    (hnode : tree.node? handle.id = some handle.node)
    (hshaded : handle.node.kind.isShaded = true) {error : SpanError} :
    handle.spans tree around = .error error ↔
      (Target.ofNode tree handle.node).findSome? (handle.overrun? around) = some error := by
  obtain ⟨category, hcategory⟩ := Option.isSome_iff_exists.mp hshaded
  rw [spans_eq htree hnode hcategory]
  cases (Target.ofNode tree handle.node).findSome? (handle.overrun? around) <;> simp

theorem spans_eq_ok_iff (htree : tree.Finished) (hnode : tree.node? handle.id = some handle.node)
    {category : Category} (hcategory : handle.node.kind.category? = some category)
    {spans : List Span} :
    handle.spans tree around = .ok spans ↔
      (∀ t ∈ Target.ofNode tree handle.node, handle.overrun? around t = none) ∧
        spans = ((Target.ofNode tree handle.node).flatMap (Target.extents around)).map
          (⟨·, category⟩) := by
  rw [spans_eq htree hnode hcategory, ← List.findSome?_eq_none_iff]
  cases (Target.ofNode tree handle.node).findSome? (handle.overrun? around) <;> simp [eq_comm]

theorem exists_error_iff (htree : tree.Finished)
    (hnode : tree.node? handle.id = some handle.node)
    (hshaded : handle.node.kind.isShaded = true) :
    (∃ error, handle.spans tree around = .error error) ↔
      ∃ e, .padded e ∈ Target.ofNode tree handle.node ∧
        handle.node.extent.stop < (paddedExtent around.lines e).stop := by
  simp only [spans_eq_error_iff htree hnode hshaded, ← Option.isSome_iff_exists,
    List.findSome?_isSome_iff]
  constructor
  · rintro ⟨t, ht, hover⟩
    obtain ⟨error, hover⟩ := Option.isSome_iff_exists.mp hover
    obtain ⟨e, rfl, hlt, -⟩ := overrun?_eq_some_iff.mp hover
    exact ⟨e, ht, hlt⟩
  · rintro ⟨e, he, hlt⟩
    exact ⟨.padded e, he, by simp [overrun?, hlt]⟩

/-- No target of a list overruns the node exactly if the padded ones among them do not. -/
theorem overrun?_eq_none_on_iff {targets : List Target} :
    (∀ t ∈ targets, handle.overrun? around t = none) ↔
      ∀ e, .padded e ∈ targets →
        (paddedExtent around.lines e).stop ≤ handle.node.extent.stop := by
  simp only [overrun?_eq_none_iff]
  constructor
  · intro h e he
    exact h _ he e rfl
  · rintro h t ht e rfl
    exact h e ht

/-- In a finished tree a node fails exactly if the character after a padded target is outside it.
The error is that of the first such target; without one, every target gives its spans in order. -/
theorem spans_outcome (htree : tree.Finished) (hnode : tree.node? handle.id = some handle.node)
    {category : Category} (hcategory : handle.node.kind.category? = some category)
    (around : Surroundings) :
    let targets := (Rule.ofKind handle.node.kind).targets tree handle.node
    let paddedEnd := fun e : Extent => e.stop + max 1 (around.lines.widthAt e.stop)
    let stop := handle.node.extent.stop
    ((∃ error, handle.spans tree around = .error error) ↔
      ∃ e, .padded e ∈ targets ∧ stop < paddedEnd e) ∧
      (∀ error, handle.spans tree around = .error error ↔
        ∃ before e after, targets = before ++ .padded e :: after ∧
          (∀ earlier, .padded earlier ∈ before → paddedEnd earlier ≤ stop) ∧
          stop < paddedEnd e ∧
          error = .outsideExtent handle.id handle.node.kind ⟨e.start, paddedEnd e⟩
            handle.node.extent) ∧
      ∀ spans, handle.spans tree around = .ok spans ↔
        (∀ e, .padded e ∈ targets → paddedEnd e ≤ stop) ∧
          spans = (targets.flatMap (Target.extents around)).map (⟨·, category⟩) := by
  intro targets paddedEnd stop
  have hshaded : handle.node.kind.isShaded = true := by simp [NodeKind.isShaded, hcategory]
  have htargets : Target.ofNode tree handle.node = targets := (Rule.targets_ofKind ..).symm
  refine ⟨?_, ?_, ?_⟩
  · rw [exists_error_iff htree hnode hshaded, htargets]
    rfl
  · intro error
    rw [spans_eq_error_iff htree hnode hshaded, htargets, List.findSome?_eq_some_iff]
    constructor
    · rintro ⟨before, t, after, hsplit, hover, hbefore⟩
      obtain ⟨e, rfl, hlt, rfl⟩ := overrun?_eq_some_iff.mp hover
      exact ⟨before, e, after, hsplit, overrun?_eq_none_on_iff.mp hbefore, hlt, rfl⟩
    · rintro ⟨before, e, after, hsplit, hbefore, hlt, rfl⟩
      exact ⟨before, .padded e, after, hsplit, overrun?_eq_some_iff.mpr ⟨e, rfl, hlt, rfl⟩,
        overrun?_eq_none_on_iff.mpr hbefore⟩
  · intro spans
    rw [spans_eq_ok_iff htree hnode hcategory, htargets, overrun?_eq_none_on_iff]
    rfl

def danglingElse : Handle where
  id := 0
  node :=
    ⟨.ifElse, ⟨0, 17⟩, none, [1, 2, 3, 4, 5, 10],
      { condition := some 3, leftParen := some 2, rightParen := some 4 }⟩

def danglingElseTree : SyntaxTree where
  source := "if(x)\x7b\n  y;\n\x7delse"
  nodes :=
    #[danglingElse.node, ⟨.keyword, ⟨0, 2⟩, some 0, [], {}⟩, ⟨.other, ⟨2, 3⟩, some 0, [], {}⟩,
      ⟨.identifier, ⟨3, 4⟩, some 0, [], {}⟩, ⟨.other, ⟨4, 5⟩, some 0, [], {}⟩,
      ⟨.blockStatement, ⟨5, 13⟩, some 0, [6], { codeBlock := some 6 }⟩,
      ⟨.codeBlock, ⟨5, 13⟩, some 5, [7, 8, 9],
        { leftBrace := some 7, rightBrace := some 9, statements := [8] }⟩,
      ⟨.other, ⟨5, 6⟩, some 6, [], {}⟩, ⟨.expressionStatement, ⟨9, 11⟩, some 6, [], {}⟩,
      ⟨.other, ⟨12, 13⟩, some 6, [], {}⟩, ⟨.keyword, ⟨13, 17⟩, some 0, [], {}⟩]

theorem danglingElseTree_finished : danglingElseTree.Finished :=
  ⟨danglingElseTree.source,
    [.push none .ifElse ⟨0, 17⟩, .push (some 0) .keyword ⟨0, 2⟩, .push (some 0) .other ⟨2, 3⟩,
      .push (some 0) .identifier ⟨3, 4⟩, .push (some 0) .other ⟨4, 5⟩,
      .push (some 0) .blockStatement ⟨5, 13⟩, .push (some 5) .codeBlock ⟨5, 13⟩,
      .push (some 6) .other ⟨5, 6⟩, .push (some 6) .expressionStatement ⟨9, 11⟩,
      .push (some 6) .other ⟨12, 13⟩, .push (some 0) .keyword ⟨13, 17⟩,
      .editLinks 0 fun links =>
        { links with condition := some 3, leftParen := some 2, rightParen := some 4 },
      .editLinks 5 fun links => { links with codeBlock := some 6 },
      .editLinks 6 fun links =>
        { links with leftBrace := some 7, rightBrace := some 9, statements := [8] }], rfl⟩

def closedIf : Handle where
  id := 0
  node :=
    ⟨.ifElse, ⟨0, 13⟩, none, [1, 2, 3, 4, 5],
      { condition := some 3, leftParen := some 2, rightParen := some 4 }⟩

def closedIfTree : SyntaxTree where
  source := "if(x)\x7b\n  y;\n\x7d"
  nodes := #[closedIf.node] ++ danglingElseTree.nodes.extract 1 10

theorem closedIfTree_finished : closedIfTree.Finished :=
  ⟨closedIfTree.source,
    [.push none .ifElse ⟨0, 13⟩, .push (some 0) .keyword ⟨0, 2⟩, .push (some 0) .other ⟨2, 3⟩,
      .push (some 0) .identifier ⟨3, 4⟩, .push (some 0) .other ⟨4, 5⟩,
      .push (some 0) .blockStatement ⟨5, 13⟩, .push (some 5) .codeBlock ⟨5, 13⟩,
      .push (some 6) .other ⟨5, 6⟩, .push (some 6) .expressionStatement ⟨9, 11⟩,
      .push (some 6) .other ⟨12, 13⟩,
      .editLinks 0 fun links =>
        { links with condition := some 3, leftParen := some 2, rightParen := some 4 },
      .editLinks 5 fun links => { links with codeBlock := some 6 },
      .editLinks 6 fun links =>
        { links with leftBrace := some 7, rightBrace := some 9, statements := [8] }], rfl⟩

/-- With a wide character behind it the branch fails for its `else`: the text need not be that of
the tree. Without the `else` it has its spans, the indentation of its statement among them. -/
theorem spans_outcome_danglingElse :
    danglingElseTree.Finished ∧ danglingElseTree.node? danglingElse.id = some danglingElse.node ∧
      (Rule.ofKind .ifElse).targets danglingElseTree danglingElse.node =
        [.padded ⟨0, 2⟩, .asIs ⟨5, 6⟩, .asIs ⟨12, 13⟩, .guides ⟨9, 11⟩, .padded ⟨13, 17⟩,
          .asIs ⟨3, 4⟩, .asIs ⟨2, 3⟩, .asIs ⟨4, 5⟩] ∧
      danglingElse.spans danglingElseTree ⟨LineIndex.ofString "if(x)\x7b\n  y;\n\x7delse→", true⟩ =
        .error (.outsideExtent 0 .ifElse ⟨13, 20⟩ ⟨0, 17⟩) ∧
      closedIfTree.Finished ∧ closedIfTree.node? closedIf.id = some closedIf.node ∧
      closedIf.spans closedIfTree ⟨LineIndex.ofString closedIfTree.source, true⟩ =
        .ok [⟨⟨0, 3⟩, .condition⟩, ⟨⟨5, 6⟩, .condition⟩, ⟨⟨12, 13⟩, .condition⟩,
          ⟨⟨7, 9⟩, .condition⟩, ⟨⟨3, 4⟩, .condition⟩, ⟨⟨2, 3⟩, .condition⟩,
          ⟨⟨4, 5⟩, .condition⟩] := by
  have hfailing : danglingElseTree.node? danglingElse.id = some danglingElse.node := rfl
  have hclosed : closedIfTree.node? closedIf.id = some closedIf.node := rfl
  have hfails := (spans_outcome danglingElseTree_finished hfailing rfl
    ⟨LineIndex.ofString "if(x)\x7b\n  y;\n\x7delse→", true⟩).2.1
  have hsucceeds := (spans_outcome closedIfTree_finished hclosed rfl
    ⟨LineIndex.ofString closedIfTree.source, true⟩).2.2
  refine ⟨danglingElseTree_finished, rfl, rfl, (hfails _).mpr ?_, closedIfTree_finished, rfl,
    (hsucceeds _).mpr ⟨?_, ?_⟩⟩
  · refine ⟨[.padded ⟨0, 2⟩, .asIs ⟨5, 6⟩, .asIs ⟨12, 13⟩, .guides ⟨9, 11⟩], ⟨13, 17⟩,
      [.asIs ⟨3, 4⟩, .asIs ⟨2, 3⟩, .asIs ⟨4, 5⟩], rfl, ?_, by decide, rfl⟩
    simp only [List.mem_cons, Target.padded.injEq, reduceCtorEq, List.not_mem_nil, or_false,
      forall_eq]
    decide
  · have htargets : (Rule.ofKind .ifElse).targets closedIfTree closedIf.node =
        [.padded ⟨0, 2⟩, .asIs ⟨5, 6⟩, .asIs ⟨12, 13⟩, .guides ⟨9, 11⟩, .asIs ⟨3, 4⟩,
          .asIs ⟨2, 3⟩, .asIs ⟨4, 5⟩] := rfl
    change ∀ e, .padded e ∈ (Rule.ofKind .ifElse).targets closedIfTree closedIf.node → _
    rw [htargets]
    simp only [List.mem_cons, Target.padded.injEq, reduceCtorEq, List.not_mem_nil, or_false,
      forall_eq]
    decide
  · rfl

end Handle

end BlockShading
