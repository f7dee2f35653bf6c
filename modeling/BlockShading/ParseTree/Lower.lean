import BlockShading.Log
import BlockShading.ParseTree.Links

/-!
# From parse trees to syntax trees

Each row of a parse tree becomes a node of the syntax tree with the same extent, with three
exceptions that give the tree the shape shading expects. A block in the place of a statement is
wrapped in a node for the statement. The parts of a `finally` clause go straight into their `try`.
A method without modifiers gets an empty list of them at its start.
-/

namespace BlockShading.ParseTree

def splicedRule : String := "finally_clause"

/-- Pushes an empty list of modifiers under a method whose rows have none. -/
def pushModifiers (id : NodeId) (kind : NodeKind) (extent : Extent) (children : List ParseTree) :
    Building (Option NodeId) :=
  if kind = .methodDecl ∧ !hasChild children "modifiers" then
    return some (← TreeBuilder.push (some id) .modifierList ⟨extent.start, extent.start⟩)
  else return none

/-- Lowers a row to a node of the given kind; `lowerBelow` lowers the trees below it. -/
def lowerAs (parent : Option NodeId) (kind : NodeKind) (extent : Extent)
    (children : List ParseTree) (lowerBelow : NodeId → Building (List Lowered)) :
    Building NodeId := do
  let id ← TreeBuilder.push parent kind extent
  let modifiers ← pushModifiers id kind extent children
  let lowered ← lowerBelow id
  let links := linksFor (← get) kind lowered
  TreeBuilder.modifyLinks id fun _ =>
    { links with modifierList := links.modifierList.or modifiers }
  return id

/-- Pushes the node for a statement, and under it the block that `lowerBlock` lowers. -/
def lowerWrapped (parent : Option NodeId) (extent : Extent)
    (lowerBlock : NodeId → Building NodeId) : Building NodeId := do
  let wrapper ← TreeBuilder.push parent .blockStatement extent
  let block ← lowerBlock wrapper
  TreeBuilder.modifyLinks wrapper fun links => { links with codeBlock := some block }
  return wrapper

mutual

/-- Lowers a tree under a parent, and gives the position of the node that stands for it. -/
def lowerTree (parent : Option NodeId) (parentKind : String) : ParseTree → Building NodeId
  | node row children => do
    let extent ← MonadExcept.ofExcept (Extent.ordered row.start row.stop)
    let kind := classify row children parentKind
    if isStatementBlock row parentKind then
      lowerWrapped parent extent fun wrapper =>
        lowerAs (some wrapper) kind extent children fun id => lowerTrees id row.kind children
    else lowerAs parent kind extent children fun id => lowerTrees id row.kind children

/-- Lowers trees under the node at `parent`, whose rule is `parentKind`, in order. -/
def lowerTrees (parent : NodeId) (parentKind : String) : List ParseTree → Building (List Lowered)
  | [] => return []
  | node row children :: rest =>
    if row.kind = splicedRule then do
      let parts ← lowerTrees parent row.kind children
      let others ← lowerTrees parent parentKind rest
      return parts ++ others
    else do
      let id ← lowerTree (some parent) parentKind (node row children)
      let others ← lowerTrees parent parentKind rest
      return ⟨id, node row children⟩ :: others

end

def lower (tree : ParseTree) (source : String) : Except TreeError SyntaxTree :=
  match lowerTree none "" tree (TreeBuilder.start source) with
  | .error e _ => .error e
  | .ok _ b => b.finish

def lowerLogged (tree : ParseTree) (source : String) : Logged (Except TreeError SyntaxTree) :=
  match tree.lower source with
  | .error e => Logged.quiet (.error e)
  | .ok lowered =>
    let size := Text.byteLength source.toList
    ⟨.ok lowered, [⟨.debug, .lowering, "Lowered Java tree",
      [("nodes", toString lowered.size), ("bytes", toString size),
        ("has_error", toString tree.hasError)]⟩]⟩

end BlockShading.ParseTree
