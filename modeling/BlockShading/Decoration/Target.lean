import BlockShading.Tree.Basic

/-!
# What is shaded of a node

Each kind of node that is shaded has a rule that lists the targets of shading, in order. A target
is an extent to be shaded as it is, an extent to be shaded with the character that follows it, or
the lines of a block whose indentation is to be shaded. The rules look at the node, its children
and the nodes they are linked to, never at other shaded nodes below.
-/

namespace BlockShading

inductive Target where
  /-- An extent as it is. -/
  | asIs (extent : Extent)
  /-- An extent and the character after it. -/
  | padded (extent : Extent)
  /-- The indentation of the lines of an extent. -/
  | guides (body : Extent)
  deriving DecidableEq, Repr

namespace Target

variable (tree : SyntaxTree)

def exactly (link : Option NodeId) : List Target :=
  (tree.linked? link).toList.map fun node => asIs node.extent

def withNext (link : Option NodeId) : List Target :=
  (tree.linked? link).toList.map fun node => padded node.extent

def eachExactly (ids : List NodeId) : List Target :=
  (tree.nodesAt ids).map fun node => asIs node.extent

def keywords (node : Node) : List Target :=
  ((tree.nodesAt node.children).filter fun child => child.kind == .keyword).map
    fun child => padded child.extent

def braces (block : Option Node) : List Target :=
  match block with
  | none => []
  | some node => exactly tree node.links.leftBrace ++ exactly tree node.links.rightBrace

def parens (node : Node) : List Target :=
  exactly tree node.links.leftParen ++ exactly tree node.links.rightParen

/-- Shades the indentation of a block from its first to its last statement. -/
def blockGuides (block : Option Node) : List Target :=
  match block with
  | none => []
  | some node =>
    let statements := tree.nodesAt node.links.statements
    match statements.head?, statements.getLast? with
    | some first, some last => [guides ⟨first.extent.start, last.extent.stop⟩]
    | _, _ => []

def branchParts (node : Node) (guided : Bool) : List Target :=
  (tree.nodesAt node.children).flatMap fun child =>
    match child.kind with
    | .keyword => [padded child.extent]
    | .blockStatement =>
      let block := tree.linked? child.links.codeBlock
      braces tree block ++ if guided then blockGuides tree block else []
    | _ => []

/-- Targets of a class: modifiers, the word `class`, name, braces and fields. -/
def ofClass (node : Node) : List Target :=
  (((tree.nodesAt node.children).filter fun child =>
      child.kind == .modifierList || tree.isKeyword child "class").map
    fun child => padded child.extent) ++
  exactly tree node.links.name ++ exactly tree node.links.leftBrace ++
  exactly tree node.links.rightBrace ++ eachExactly tree node.links.fields

/-- Targets of a method: modifiers, return type, name, parameters and braces. -/
def ofMethod (node : Node) : List Target :=
  withNext tree node.links.modifierList ++ withNext tree node.links.returnType ++
  exactly tree node.links.name ++ exactly tree node.links.parameterList ++
  braces tree (tree.linked? node.links.body)

/-- Targets of a loop: keywords, braces, condition, the parts of a `for` header, parentheses. -/
def ofLoop (form : LoopKind) (node : Node) : List Target :=
  branchParts tree node false ++ exactly tree node.links.condition ++
  (if form = .forLoop then
    eachExactly tree node.links.initialization ++ eachExactly tree node.links.update
  else []) ++
  parens tree node

/-- Targets of a branch: keywords, braces, guides, condition and parentheses. -/
def ofIf (node : Node) : List Target :=
  branchParts tree node true ++ exactly tree node.links.condition ++ parens tree node

/-- Targets of one catch section: keywords, parameter, parentheses and braces. -/
def ofCatch (clause : Node) : List Target :=
  keywords tree clause ++ withNext tree clause.links.parameter ++ parens tree clause ++
  braces tree (tree.linked? clause.links.catchBlock)

def ofTry (node : Node) : List Target :=
  keywords tree node ++ braces tree (tree.linked? node.links.tryBlock) ++
  (tree.nodesAt node.links.catchSections).flatMap (ofCatch tree)

def ofNode (node : Node) : List Target :=
  match node.kind with
  | .classDecl => ofClass tree node
  | .methodDecl => ofMethod tree node
  | .loop form => ofLoop tree form node
  | .ifElse => ofIf tree node
  | .tryCatch => ofTry tree node
  | kind => if kind.isShaded then [asIs node.extent] else []

end Target

end BlockShading
