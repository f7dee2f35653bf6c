import BlockShading.ParseTree.Classify
import BlockShading.Tree.Builder

/-!
# Links of a node from its lowered children

Once the children of a node are in the builder, the links of the node are chosen among them by
field, by rule, by kind or by the text they cover. Braces of a class and the parts of a condition
in parentheses are found one level further down.
-/

namespace BlockShading.ParseTree

structure Lowered where
  id : NodeId
  tree : ParseTree

namespace Lowered

def row (child : Lowered) : Row := child.tree.row

def inField? (children : List Lowered) (field : String) : Option NodeId :=
  (children.find? fun c => c.row.field == some field).map (·.id)

def allInField (children : List Lowered) (field : String) : List NodeId :=
  (children.filter fun c => c.row.field == some field).map (·.id)

def ofRule? (children : List Lowered) (rule : String) : Option NodeId :=
  (children.find? fun c => c.row.kind == rule).map (·.id)

def ofKind? (b : TreeBuilder) (children : List Lowered) (kind : NodeKind) : Option NodeId :=
  (children.find? fun c => b.kind? c.id == some kind).map (·.id)

def token? (b : TreeBuilder) (children : List Lowered) (text : String) : Option NodeId :=
  (children.find? fun c => !c.row.named && b.text c.id == text).map (·.id)

def lastToken? (b : TreeBuilder) (children : List Lowered) (text : String) : Option NodeId :=
  token? b children.reverse text

end Lowered

open Lowered

def openingBrace? (b : TreeBuilder) (body : NodeId) : Option NodeId :=
  (b.children body).find? fun c => b.text c == "\x7b"

def closingBrace? (b : TreeBuilder) (body : NodeId) : Option NodeId :=
  (b.children body).reverse.find? fun c => b.text c == "\x7d"

/-- The fields in a class body, and those one level down in a part of it that has no kind of its
own, such as the declarations after the constants of an enumeration. -/
def classFields (b : TreeBuilder) (body : NodeId) : List NodeId :=
  (b.children body).flatMap fun child =>
    match b.kind? child with
    | some .field => [child]
    | some .other => (b.children child).filter fun c => b.kind? c == some .field
    | _ => []

/-- The parts of a condition in parentheses: each child that is no comment, with its row. -/
def conditionParts (b : TreeBuilder) (condition : Lowered) : List (NodeId × Row) :=
  ((b.children condition.id).zip (condition.tree.children.map ParseTree.row)).filter
    fun part => !part.2.extra

def conditionLinks (b : TreeBuilder) (condition : Lowered) : Links :=
  if condition.row.kind = "parenthesized_expression" then
    let parts := conditionParts b condition
    { leftParen := (parts.find? fun p => p.2.kind == "(").map (·.1)
      condition := (parts.find? fun p => p.2.named).map (·.1)
      rightParen := (parts.reverse.find? fun p => p.2.kind == ")").map (·.1) }
  else { condition := some condition.id }

/-- The links of a choice, or of a loop that is not a counting one: the condition and the body. -/
def conditionalLinks (b : TreeBuilder) (children : List Lowered) : Links :=
  let condition := children.find? fun c => c.row.field == some "condition"
  let links := (condition.map (conditionLinks b)).getD {}
  { links with body := (inField? children "body").or (inField? children "consequence") }

def classLinks (b : TreeBuilder) (children : List Lowered) : Links :=
  let name := inField? children "name"
  match (inField? children "body").or (ofRule? children "class_body") with
  | some body =>
    { name := name
      leftBrace := openingBrace? b body
      rightBrace := closingBrace? b body
      fields := classFields b body }
  | none => { name := name }

def linksFor (b : TreeBuilder) (kind : NodeKind) (children : List Lowered) : Links :=
  match kind with
  | .classDecl => classLinks b children
  | .methodDecl =>
    { modifierList := ofKind? b children .modifierList
      returnType := ofKind? b children .returnType
      name := inField? children "name"
      parameterList := inField? children "parameters"
      body := inField? children "body" }
  | .codeBlock =>
    { leftBrace := token? b children "\x7b"
      rightBrace := lastToken? b children "\x7d"
      statements := (children.filter fun c => c.row.named && !c.row.extra).map (·.id) }
  | .loop .forLoop =>
    { initialization := allInField children "init"
      condition := inField? children "condition"
      update := allInField children "update"
      leftParen := token? b children "("
      rightParen := lastToken? b children ")"
      body := inField? children "body" }
  | .loop _ | .ifElse => conditionalLinks b children
  | .tryCatch =>
    { tryBlock := inField? children "body"
      catchSections := (children.filter fun c => c.row.kind == "catch_clause").map (·.id) }
  | .catchSection =>
    { parameter := ofRule? children "catch_formal_parameter"
      leftParen := token? b children "("
      rightParen := lastToken? b children ")"
      catchBlock := inField? children "body" }
  | _ => {}

end BlockShading.ParseTree
