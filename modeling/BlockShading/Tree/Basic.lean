import BlockShading.Extent
import BlockShading.Text.Bytes
import BlockShading.Tree.Kind
import BlockShading.Tree.Links

/-!
# Syntax trees

A syntax tree is a source text and its nodes in one array; a node refers to others by position.
A `Handle` is a node together with its position. `SyntaxTree.preorder` walks the tree from the
root, each node before its children and the children in order.
-/

namespace BlockShading

structure Node where
  kind : NodeKind
  extent : Extent
  parent : Option NodeId
  children : List NodeId
  links : Links
  deriving DecidableEq, Repr, Inhabited

structure SyntaxTree where
  source : String
  nodes : Array Node
  deriving DecidableEq, Repr

structure Handle where
  id : NodeId
  node : Node
  deriving DecidableEq, Repr

inductive TreeError where
  | invalidRange (start stop : Nat)
  | outOfSource (extent : Extent) (size : Nat)
  | childOutsideParent (child : NodeId) (extent : Extent) (parent : NodeId) (parentExtent : Extent)
  | linkOutsideNode (owner target : NodeId)
  | unknownNode (id : NodeId)
  | multipleRoots
  | empty
  deriving DecidableEq, Repr

namespace TreeError

def message : TreeError → String
  | invalidRange start stop => s!"invalid range {start}..{stop} (start after end)"
  | outOfSource extent size => s!"range {extent.text} exceeds source length {size}"
  | childOutsideParent child extent parent parentExtent =>
    s!"node #{child} at {extent.text} lies outside its parent #{parent} at {parentExtent.text}"
  | linkOutsideNode owner target => s!"node #{owner} links to node #{target} which lies outside it"
  | unknownNode id => s!"unknown node id #{id}"
  | multipleRoots => "tree already has a root node"
  | empty => "tree has no nodes"

end TreeError

namespace Extent

def ordered (start stop : Nat) : Except TreeError Extent :=
  if stop < start then .error (.invalidRange start stop) else .ok ⟨start, stop⟩

/-- The text of a source in an extent; empty unless both ends are character boundaries. -/
def textIn (source : String) (e : Extent) : String :=
  match Text.slice? source.toList e.start e.stop with
  | some cs => String.ofList cs
  | none => ""

end Extent

namespace SyntaxTree

def size (tree : SyntaxTree) : Nat := tree.nodes.size

def node? (tree : SyntaxTree) (id : NodeId) : Option Node := tree.nodes[id]?

def handle? (tree : SyntaxTree) (id : NodeId) : Option Handle := (tree.node? id).map (⟨id, ·⟩)

def nodesAt (tree : SyntaxTree) (ids : List NodeId) : List Node := ids.filterMap tree.node?

def linked? (tree : SyntaxTree) (link : Option NodeId) : Option Node := link.bind tree.node?

def textOf (tree : SyntaxTree) (node : Node) : String := node.extent.textIn tree.source

def isKeyword (tree : SyntaxTree) (node : Node) (word : String) : Bool :=
  node.kind == .keyword && tree.textOf node == word

/-- Walks on from a stack of pending positions, at most `steps` nodes far. -/
def walk (tree : SyntaxTree) : Nat → List NodeId → List NodeId
  | 0, _ => []
  | _, [] => []
  | steps + 1, id :: pending =>
    match tree.node? id with
    | some node => id :: tree.walk steps (node.children ++ pending)
    | none => tree.walk steps pending

/-- The positions of all nodes below the root, each before its children. -/
def preorder (tree : SyntaxTree) : List NodeId := tree.walk tree.size [0]

end SyntaxTree

end BlockShading
