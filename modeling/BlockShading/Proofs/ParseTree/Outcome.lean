import BlockShading.Proofs.ParseTree.Lowering

/-!
# What lowering gives

Lowering a parse tree succeeds unless a row is out of place, and its error is that of the first
such row. A lowered tree is the parse tree with its three changes of shape, node for node.
-/

namespace BlockShading.ParseTree

open TreeBuilder Building

theorem fits_start (source : String) : Fits (start source) [] where
  root := fun _ => rfl
  holder := by
    intro holder h
    cases h

/-- Lowering from an empty builder: the first faulty row decides, and without one the builder can
be finished. -/
theorem lowerTree_yields (tree : ParseTree) (source : String) :
    Yields (lowerTree none "" tree) (start source)
      (tree.spots.findSome? (Spot.fault? source.utf8ByteSize)) fun _ b =>
        Grafted (start source) b none [0] (tree.spots.flatMap Spot.heads) ∧
          b.finish = .ok ⟨b.source, b.nodes⟩ := by
  have hlower := lowersTree tree (start source) [] (wellFormed_start source)
    (linksInside_start source) (fits_start source) rfl
  refine hlower.mono ?_
  rintro id b ⟨-, hgraft⟩
  have hsize : 0 < b.nodes.size := by
    cases hgraft.numbered with
    | cons below after => exact Nat.lt_of_lt_of_le below.le after.le
  exact ⟨hgraft, finish_eq_ok_iff.mpr ⟨hsize, hgraft.linksInside, rfl⟩⟩

theorem lower_of_fault {tree : ParseTree} {source : String} {e : TreeError}
    (h : tree.spots.findSome? (Spot.fault? source.utf8ByteSize) = some e) :
    tree.lower source = .error e := by
  have hyields := lowerTree_yields tree source
  rw [h] at hyields
  obtain ⟨b, hb⟩ := hyields
  rw [lower, hb]

theorem lower_of_no_fault {tree : ParseTree} {source : String}
    (h : tree.spots.findSome? (Spot.fault? source.utf8ByteSize) = none) :
    ∃ b, Grafted (start source) b none [0] (tree.spots.flatMap Spot.heads) ∧
      tree.lower source = .ok ⟨b.source, b.nodes⟩ := by
  have hyields := lowerTree_yields tree source
  rw [h] at hyields
  obtain ⟨id, b, hb, hgraft, hfinish⟩ := hyields
  refine ⟨b, hgraft, ?_⟩
  rw [lower, hb]
  exact hfinish

theorem lower_eq_error_iff {tree : ParseTree} {source : String} {e : TreeError} :
    tree.lower source = .error e ↔
      tree.spots.findSome? (Spot.fault? source.utf8ByteSize) = some e := by
  refine ⟨fun h => ?_, lower_of_fault⟩
  cases hfault : tree.spots.findSome? (Spot.fault? source.utf8ByteSize) with
  | some first =>
    rw [lower_of_fault hfault] at h
    cases h
    rfl
  | none =>
    obtain ⟨b, -, hlower⟩ := lower_of_no_fault hfault
    rw [hlower] at h
    cases h

theorem exists_lower_eq_ok_iff {tree : ParseTree} {source : String} :
    (∃ lowered, tree.lower source = .ok lowered) ↔
      tree.spots.findSome? (Spot.fault? source.utf8ByteSize) = none := by
  constructor
  · rintro ⟨lowered, h⟩
    refine Option.eq_none_iff_forall_ne_some.mpr fun e he => ?_
    rw [lower_of_fault he] at h
    cases h
  · intro h
    obtain ⟨b, -, hlower⟩ := lower_of_no_fault h
    exact ⟨_, hlower⟩

/-- A tree is lowered exactly if each of its rows, apart from the parts that are left out, covers
a range of the source inside the row that holds it. Otherwise the error is that of the first row
that does not. The builder is never refused at the end: all links lead inside their owners. -/
theorem lower_outcome (tree : ParseTree) (source : String) :
    ((∃ lowered, tree.lower source = .ok lowered) ↔
      ∀ spot ∈ tree.spots, spot.isSpliced = false → spot.Sound source.utf8ByteSize) ∧
      (∀ e, tree.lower source = .error e ↔
        ∃ before spot after, tree.spots = before ++ spot :: after ∧
          (∀ earlier ∈ before, earlier.isSpliced = false →
            earlier.Sound source.utf8ByteSize) ∧
          spot.fault? source.utf8ByteSize = some e) ∧
      (∀ e, tree.lower source = .error e →
        (∃ start stop, e = .invalidRange start stop) ∨
          (∃ extent size, e = .outOfSource extent size) ∨
          ∃ child extent parent outer, e = .childOutsideParent child extent parent outer) ∧
      ∀ id b, lowerTree none "" tree (start source) = .ok id b →
        b.WellFormed ∧ b.LinksInside ∧ b.finish = .ok ⟨b.source, b.nodes⟩ := by
  refine ⟨?_, ?_, ?_, ?_⟩
  · simp only [exists_lower_eq_ok_iff, List.findSome?_eq_none_iff, fault?_eq_none_iff]
  · intro e
    rw [lower_eq_error_iff, List.findSome?_eq_some_iff]
    constructor
    · rintro ⟨before, spot, after, hsplit, hfault, hbefore⟩
      exact ⟨before, spot, after, hsplit, fun earlier hmem =>
        fault?_eq_none_iff.mp (hbefore earlier hmem), hfault⟩
    · rintro ⟨before, spot, after, hsplit, hbefore, hfault⟩
      exact ⟨before, spot, after, hsplit, hfault, fun earlier hmem =>
        fault?_eq_none_iff.mpr (hbefore earlier hmem)⟩
  · intro e h
    obtain ⟨spot, -, hfault⟩ := List.exists_of_findSome?_eq_some (lower_eq_error_iff.mp h)
    obtain rfl | rfl | ⟨holder, -, rfl⟩ := fault?_cases hfault
    · exact Or.inl ⟨_, _, rfl⟩
    · exact Or.inr (Or.inl ⟨_, _, rfl⟩)
    · exact Or.inr (Or.inr ⟨_, _, _, _, rfl⟩)
  · intro id b hb
    obtain ⟨hgraft, hfinish⟩ := (lowerTree_yields tree source).of_ok hb
    exact ⟨hgraft.wellFormed, hgraft.linksInside, hfinish⟩

/-- A lowered tree has the nodes of the rows in the order of the rows, which is also the order in
which the tree is walked, and each node is under the node of the row that holds its own. -/
theorem lower_reshapes {tree : ParseTree} {source : String} {lowered : SyntaxTree}
    (h : tree.lower source = .ok lowered) :
    lowered.source = source ∧ lowered.preorder = List.range lowered.size ∧
      lowered.nodes.toList.map Node.head = tree.spots.flatMap Spot.heads ∧
      ∀ before spot after, tree.spots = before ++ spot :: after →
        spot.first = (before.flatMap Spot.heads).length := by
  obtain ⟨b, hgraft, hlower⟩ := lower_of_no_fault (exists_lower_eq_ok_iff.mp ⟨lowered, h⟩)
  cases h.symm.trans hlower
  refine ⟨hgraft.source, hgraft.numbered.preorder_eq_range, hgraft.heads, ?_⟩
  intro before spot after hsplit
  rw [consecutive_spotsFrom 0 [] tree before spot after hsplit, Nat.zero_add]

def ofRule (kind : String) (start stop : Nat) (children : List ParseTree) : ParseTree :=
  node ⟨kind, none, true, false, false, start, stop⟩ children

/-- A method without modifiers that holds a `try` and a block. Its `finally` part goes past the
end of the source, which is no fault. -/
def tryInMethod : ParseTree :=
  ofRule "method_declaration" 0 24
    [ofRule "block" 3 24
      [ofRule "try_statement" 4 18
        [ofRule "block" 7 9 [], ofRule "finally_clause" 9 40 [ofRule "block" 16 18 []]],
        ofRule "block" 19 21 []]]

theorem lower_reshapes_tryInMethod :
    ∃ lowered, tryInMethod.lower "f(){try{}finally{} {}  }" = .ok lowered ∧
      lowered.preorder = List.range lowered.size ∧
      lowered.nodes.toList.map Node.head =
        [⟨.methodDecl, ⟨0, 24⟩, none⟩, ⟨.modifierList, ⟨0, 0⟩, some 0⟩,
          ⟨.codeBlock, ⟨3, 24⟩, some 0⟩, ⟨.tryCatch, ⟨4, 18⟩, some 2⟩,
          ⟨.codeBlock, ⟨7, 9⟩, some 3⟩, ⟨.codeBlock, ⟨16, 18⟩, some 3⟩,
          ⟨.blockStatement, ⟨19, 21⟩, some 2⟩, ⟨.codeBlock, ⟨19, 21⟩, some 6⟩] := by
  obtain ⟨lowered, h⟩ : ∃ lowered, tryInMethod.lower "f(){try{}finally{} {}  }" = .ok lowered :=
    exists_lower_eq_ok_iff.mpr (by decide +kernel)
  obtain ⟨-, hwalk, hheads, -⟩ := lower_reshapes h
  exact ⟨lowered, h, hwalk, hheads.trans (by decide +kernel)⟩

end BlockShading.ParseTree
