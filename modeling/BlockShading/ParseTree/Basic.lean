/-!
# Parse trees

A parse tree is what a grammar makes of a source text: an ordered tree of rows, each with the
kind the grammar gives it, the bytes it covers and the field under which its parent holds it.
Nothing is assumed about the rows; ranges may be reversed or not nested. `ParseTree.ofRows?` reads
a tree from its rows in order, each row with its depth.
-/

namespace BlockShading

/-- What the grammar says about one node. -/
structure Row where
  /-- The name of the grammar rule, or the token itself. -/
  kind : String
  /-- The field under which the parent holds this node. -/
  field : Option String
  /-- Whether the node comes from a grammar rule rather than from a literal token. -/
  named : Bool
  /-- Whether the node may stand anywhere, as comments do. -/
  extra : Bool
  /-- Whether the node stands for a token that the source lacks. -/
  missing : Bool
  start : Nat
  stop : Nat
  deriving DecidableEq, Repr, Inhabited

/-- An ordered tree of rows. -/
inductive ParseTree where
  | node (row : Row) (children : List ParseTree)
  deriving Repr, Inhabited

namespace ParseTree

def row : ParseTree → Row
  | node row _ => row

def children : ParseTree → List ParseTree
  | node _ children => children

def hasChild (trees : List ParseTree) (kind : String) : Bool :=
  trees.any fun tree => tree.row.kind == kind

mutual

def hasError : ParseTree → Bool
  | node row children => row.kind == "ERROR" || row.missing || anyError children

def anyError : List ParseTree → Bool
  | [] => false
  | tree :: rest => hasError tree || anyError rest

end

/-- A tree that is being read: its depth, its row, and its finished children in reverse. -/
structure Pending where
  depth : Nat
  row : Row
  finished : List ParseTree

namespace Pending

def tree (p : Pending) : ParseTree := node p.row p.finished.reverse

def add (p : Pending) (child : ParseTree) : Pending := { p with finished := child :: p.finished }

end Pending

/-- Finishes the innermost open nodes that are at least `depth` deep. -/
def close (depth : Nat) : List Pending → List Pending
  | inner :: outer :: rest =>
    if depth ≤ inner.depth then close depth (outer.add inner.tree :: rest)
    else inner :: outer :: rest
  | opened => opened
termination_by opened => opened.length

/-- Reads rows in order into the open nodes, the innermost first. -/
def openRows : List (Nat × Row) → List Pending → List Pending
  | [], opened => opened
  | (depth, row) :: rest, opened => openRows rest (⟨depth, row, []⟩ :: close depth opened)

/-- The tree of rows given in order with their depths, the root first. -/
def ofRows? (rows : List (Nat × Row)) : Option ParseTree :=
  match close 1 (openRows rows []) with
  | [root] => some root.tree
  | _ => none

end ParseTree

end BlockShading
