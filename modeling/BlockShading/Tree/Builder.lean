import BlockShading.Tree.Basic

/-!
# Building syntax trees

A tree is built node by node, parents before their children. Every node is checked when it is
pushed: its extent must be in order, inside the source and inside its parent. Links are free until
the end, when each must lead to a node inside its owner. A builder is changed in place, so a step
of building gives a builder also when it fails.
-/

namespace BlockShading

structure TreeBuilder where
  source : String
  nodes : Array Node
  deriving DecidableEq, Repr

namespace TreeBuilder

def start (source : String) : TreeBuilder := ⟨source, #[]⟩

def node? (b : TreeBuilder) (id : NodeId) : Option Node := b.nodes[id]?

def sourceSize (b : TreeBuilder) : Nat := b.source.utf8ByteSize

def enter (b : TreeBuilder) (parent id : NodeId) : TreeBuilder :=
  { b with
    nodes := b.nodes.modify parent fun owner => { owner with children := owner.children ++ [id] } }

def append (b : TreeBuilder) (node : Node) : TreeBuilder := { b with nodes := b.nodes.push node }

def setLinks (b : TreeBuilder) (id : NodeId) (change : Links → Links) : TreeBuilder :=
  { b with nodes := b.nodes.modify id fun node => { node with links := change node.links } }

end TreeBuilder

/-- A step of building that changes the builder in place and may fail. -/
abbrev Building := EStateM TreeError TreeBuilder

namespace Building

variable {α β : Type} {b c : TreeBuilder}

theorem get_apply (b : TreeBuilder) : (get : Building TreeBuilder) b = .ok b b := rfl

theorem bind_of_ok {x : Building α} {a : α} (h : x b = .ok a c) (f : α → Building β) :
    (x >>= f) b = f a c := by
  simp [bind, EStateM.bind, h]

theorem bind_of_error {x : Building α} {e : TreeError} (h : x b = .error e c)
    (f : α → Building β) : (x >>= f) b = .error e c := by
  simp [bind, EStateM.bind, h]

end Building

namespace TreeBuilder

/-- The node at a position, which must exist. -/
def lookup (id : NodeId) : Building Node := do
  match (← get).node? id with
  | some node => return node
  | none => throw (.unknownNode id)

/-- Appends a node under a parent, or as the root, and gives its position. -/
def push (parent : Option NodeId) (kind : NodeKind) (extent : Extent) : Building NodeId := do
  if extent.stop < extent.start then throw (.invalidRange extent.start extent.stop)
  let b ← get
  if b.sourceSize < extent.stop then throw (.outOfSource extent b.sourceSize)
  let id := b.nodes.size
  match parent with
  | none => if b.nodes.size ≠ 0 then throw .multipleRoots
  | some p =>
    let owner ← lookup p
    if !owner.extent.contains extent then throw (.childOutsideParent id extent p owner.extent)
    modify fun b => b.enter p id
  modify fun b => b.append ⟨kind, extent, parent, [], {}⟩
  return id

def modifyLinks (id : NodeId) (change : Links → Links) : Building Unit := do
  let _ ← lookup id
  modify fun b => b.setLinks id change

def kind? (b : TreeBuilder) (id : NodeId) : Option NodeKind := (b.node? id).map (·.kind)

def extent? (b : TreeBuilder) (id : NodeId) : Option Extent := (b.node? id).map (·.extent)

def children (b : TreeBuilder) (id : NodeId) : List NodeId :=
  ((b.node? id).map (·.children)).getD []

def text (b : TreeBuilder) (id : NodeId) : String :=
  match b.extent? id with
  | some extent => extent.textIn b.source
  | none => ""

def checkTarget (b : TreeBuilder) (owner : NodeId) (extent : Extent) (target : NodeId) :
    Except TreeError Unit :=
  match b.node? target with
  | none => .error (.unknownNode target)
  | some node =>
    if extent.contains node.extent then .ok () else .error (.linkOutsideNode owner target)

/-- Checks every target of every node, in the order of the nodes. -/
def checkLinks (b : TreeBuilder) : Except TreeError Unit :=
  (List.range b.nodes.size).forM fun owner =>
    match b.node? owner with
    | none => .ok ()
    | some node => node.links.targets.forM (b.checkTarget owner node.extent)

def finish (b : TreeBuilder) : Except TreeError SyntaxTree :=
  if b.nodes.size = 0 then .error .empty
  else
    match b.checkLinks with
    | .error e => .error e
    | .ok () => .ok ⟨b.source, b.nodes⟩

end TreeBuilder

end BlockShading
