import BlockShading.Decoration.Span
import BlockShading.Proofs.Text.Boundaries
import BlockShading.Proofs.Tree.Finish

/-!
# The rules of shading

What is shaded of a node is described by a rule: the node itself, with or without the next
character, the indentation of its statements, or rules for the nodes that an accessor leads to.
`Rule.ofKind` is the rule of each kind. Main statement: the targets of a node are those that the
rule of its kind describes, so that what holds of all targets can be proved along the rules.
-/

namespace BlockShading

/-- What is shaded, seen from a node. -/
inductive Rule where
  | nothing
  /-- The node as it is. -/
  | whole
  /-- The node and the character after it. -/
  | withNext
  /-- The indentation of the lines from the first statement of the node to its last. -/
  | indentation
  | both (first second : Rule)
  /-- A rule for each node that an accessor leads to. -/
  | each (accessor : Accessor) (rule : Rule)
  /-- A rule for nodes that pass a test. -/
  | only (test : SyntaxTree → Node → Bool) (rule : Rule)

namespace Rule

def targets (tree : SyntaxTree) : Rule → Node → List Target
  | nothing, _ => []
  | whole, node => [.asIs node.extent]
  | withNext, node => [.padded node.extent]
  | indentation, node =>
    match tree.nodesAt node.links.statements with
    | [] => []
    | first :: rest => [.guides ⟨first.extent.start, (rest.getLast?.getD first).extent.stop⟩]
  | both first second, node => first.targets tree node ++ second.targets tree node
  | each accessor rule, node =>
    (tree.nodesAt (accessor.positions node)).flatMap (rule.targets tree)
  | only test rule, node => if test tree node then rule.targets tree node else []

def inOrder (rules : List Rule) : Rule := rules.foldr both nothing

def exactly (role : Role) : Rule := each (.single role) whole

def padded (role : Role) : Rule := each (.single role) withNext

def hasKind (kind : NodeKind) : SyntaxTree → Node → Bool := fun _ node => node.kind == kind

def keywords : Rule := each .children (only (hasKind .keyword) withNext)

def braces : Rule := inOrder [exactly .leftBrace, exactly .rightBrace]

def parens : Rule := inOrder [exactly .leftParen, exactly .rightParen]

/-- Keywords and blocks among the children, with a rule for the code of each block. -/
def branches (code : Rule) : Rule :=
  each .children <| inOrder
    [only (hasKind .keyword) withNext, only (hasKind .blockStatement) (each (.single .codeBlock) code)]

/-- A modifier list, or the word `class`. -/
def opensClass : SyntaxTree → Node → Bool := fun tree node =>
  node.kind == .modifierList || tree.isKeyword node "class"

/-- A catch section: keywords, parameter, parentheses and braces. -/
def catchSection : Rule :=
  inOrder [keywords, padded .parameter, parens, each (.single .catchBlock) braces]

def ofKind : NodeKind → Rule
  | .classDecl => inOrder
      [each .children (only opensClass withNext), exactly .name, exactly .leftBrace,
        exactly .rightBrace, each (.list .fields) whole]
  | .methodDecl => inOrder
      [padded .modifierList, padded .returnType, exactly .name, exactly .parameterList,
        each (.single .body) braces]
  | .loop .forLoop => inOrder
      [branches braces, exactly .condition, each (.list .initialization) whole,
        each (.list .update) whole, parens]
  | .loop .whileLoop | .loop .doWhile => inOrder [branches braces, exactly .condition, parens]
  | .ifElse => inOrder [branches (inOrder [braces, indentation]), exactly .condition, parens]
  | .tryCatch => inOrder
      [keywords, each (.single .tryBlock) braces, each (.list .catchSections) catchSection]
  | .importDecl | .declarationStatement | .expressionStatement | .returnStatement
  | .breakStatement | .continueStatement => whole
  | .field | .catchSection | .blockStatement | .codeBlock | .keyword | .modifierList
  | .returnType | .identifier | .parameterList | .other => nothing

variable {tree : SyntaxTree} {node : Node}

@[simp] theorem targets_inOrder_nil : (inOrder []).targets tree node = [] := rfl

@[simp] theorem targets_inOrder_cons (rule : Rule) (rules : List Rule) :
    (inOrder (rule :: rules)).targets tree node =
      rule.targets tree node ++ (inOrder rules).targets tree node := rfl

theorem targets_only (test : SyntaxTree → Node → Bool) (rule : Rule) :
    (only test rule).targets tree node =
      if test tree node then rule.targets tree node else [] := rfl

theorem targets_each_single (role : Role) (rule : Rule) :
    (each (.single role) rule).targets tree node =
      (tree.linked? (node.links.get role)).toList.flatMap (rule.targets tree) := by
  have hpositions : tree.nodesAt (node.links.get role).toList =
      (tree.linked? (node.links.get role)).toList := by
    unfold SyntaxTree.nodesAt SyntaxTree.linked?
    cases node.links.get role with
    | none => rfl
    | some j => cases hj : tree.node? j <;> simp [hj]
  rw [targets, Accessor.positions, hpositions]

theorem targets_exactly (role : Role) :
    (exactly role).targets tree node = Target.exactly tree (node.links.get role) := by
  rw [exactly, targets_each_single, Target.exactly]
  cases tree.linked? (node.links.get role) <;> rfl

theorem targets_padded (role : Role) :
    (padded role).targets tree node = Target.withNext tree (node.links.get role) := by
  rw [padded, targets_each_single, Target.withNext]
  cases tree.linked? (node.links.get role) <;> rfl

theorem targets_each_list (role : ListRole) :
    (each (.list role) whole).targets tree node =
      Target.eachExactly tree (node.links.getList role) := by
  simp [targets, Accessor.positions, Target.eachExactly, List.map_eq_flatMap]

theorem targets_each_only (test : SyntaxTree → Node → Bool) :
    (each .children (only test withNext)).targets tree node =
      ((tree.nodesAt node.children).filter (test tree)).map fun child => .padded child.extent := by
  simp only [targets, Accessor.positions]
  induction tree.nodesAt node.children with
  | nil => rfl
  | cons child rest ih => cases htest : test tree child <;> simp [htest, ih]

theorem targets_keywords : keywords.targets tree node = Target.keywords tree node :=
  targets_each_only (hasKind .keyword)

theorem targets_braces (role : Role) :
    (each (.single role) braces).targets tree node =
      Target.braces tree (tree.linked? (node.links.get role)) := by
  rw [targets_each_single]
  cases tree.linked? (node.links.get role) with
  | none => rfl
  | some block => simp [braces, targets_exactly, Target.braces, Links.get]

theorem targets_parens : parens.targets tree node = Target.parens tree node := by
  simp [parens, targets_exactly, Target.parens, Links.get]

theorem targets_indentation (block : Node) :
    indentation.targets tree block = Target.blockGuides tree (some block) := by
  simp only [targets, Target.blockGuides]
  cases tree.nodesAt block.links.statements with
  | nil => rfl
  | cons first rest => simp [List.getLast?_cons]

theorem targets_guided (role : Role) :
    (each (.single role) (inOrder [braces, indentation])).targets tree node =
      Target.braces tree (tree.linked? (node.links.get role)) ++
        Target.blockGuides tree (tree.linked? (node.links.get role)) := by
  rw [targets_each_single]
  cases tree.linked? (node.links.get role) with
  | none => rfl
  | some block =>
    simp [braces, targets_exactly, targets_indentation, Target.braces, Links.get]

theorem targets_branches (code : Rule) (guided : Bool)
    (hcode : ∀ child, (each (.single .codeBlock) code).targets tree child =
      Target.braces tree (tree.linked? child.links.codeBlock) ++
        if guided then Target.blockGuides tree (tree.linked? child.links.codeBlock) else []) :
    (branches code).targets tree node = Target.branchParts tree node guided := by
  unfold branches Target.branchParts
  rw [targets, Accessor.positions]
  congr 1
  funext child
  rw [targets_inOrder_cons, targets_inOrder_cons, targets_inOrder_nil, List.append_nil,
    targets_only, targets_only, hcode]
  cases hkind : child.kind <;> simp [hasKind, hkind, targets]

theorem targets_catchSection (clause : Node) :
    catchSection.targets tree clause = Target.ofCatch tree clause := by
  simp [catchSection, Target.ofCatch, targets_keywords, targets_padded, targets_parens,
    targets_braces, Links.get]

/-- The targets of a node are those that the rule of its kind describes. -/
theorem targets_ofKind (tree : SyntaxTree) (node : Node) :
    (ofKind node.kind).targets tree node = Target.ofNode tree node := by
  have hloop : (branches braces).targets tree node = Target.branchParts tree node false :=
    targets_branches braces false fun child => by simp [targets_braces, Links.get]
  have hif : (branches (inOrder [braces, indentation])).targets tree node =
      Target.branchParts tree node true :=
    targets_branches _ true fun child => by simp [targets_guided, Links.get]
  unfold Target.ofNode
  cases hkind : node.kind with
  | classDecl =>
    simp [ofKind, Target.ofClass, targets_each_only, targets_exactly, targets_each_list, Links.get,
      Links.getList]
    rfl
  | methodDecl =>
    simp [ofKind, Target.ofMethod, targets_padded, targets_exactly, targets_braces, Links.get]
  | loop form =>
    cases form <;>
      simp [ofKind, Target.ofLoop, hloop, targets_exactly, targets_each_list, targets_parens,
        Links.get, Links.getList]
  | ifElse => simp [ofKind, Target.ofIf, hif, targets_exactly, targets_parens, Links.get]
  | tryCatch =>
    have hcatch : (each (.list .catchSections) catchSection).targets tree node =
        (tree.nodesAt node.links.catchSections).flatMap (Target.ofCatch tree) := by
      rw [targets, funext targets_catchSection]
      rfl
    simp [ofKind, Target.ofTry, targets_keywords, targets_braces, hcatch, Links.get]
  | _ => rfl

end Rule

end BlockShading
