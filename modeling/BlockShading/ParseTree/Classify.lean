import BlockShading.ParseTree.Basic
import BlockShading.Tree.Kind

/-!
# Node kinds of grammar rules

Which kind of syntax node a row of a parse tree becomes. The kind depends on the row, on whether
certain rows stand right below it, and on its place: the type of a method is its return type.
A token made of letters alone is a keyword.
-/

namespace BlockShading.ParseTree

/-- The rules under which a block is a statement rather than a body. -/
def statementContexts : List String :=
  ["block", "constructor_body", "while_statement", "do_statement", "for_statement",
    "enhanced_for_statement", "if_statement", "labeled_statement", "switch_block_statement_group"]

def isWord (text : String) : Bool := text ≠ "" && text.toList.all Char.isAlpha

def kindOfRule? : String → Option NodeKind
  | "import_declaration" => some .importDecl
  | "class_declaration" => some .classDecl
  | "interface_declaration" => some .classDecl
  | "enum_declaration" => some .classDecl
  | "record_declaration" => some .classDecl
  | "method_declaration" => some .methodDecl
  | "constructor_declaration" => some .methodDecl
  | "field_declaration" => some .field
  | "constant_declaration" => some .field
  | "enum_constant" => some .field
  | "while_statement" => some (.loop .whileLoop)
  | "do_statement" => some (.loop .doWhile)
  | "for_statement" => some (.loop .forLoop)
  | "if_statement" => some .ifElse
  | "try_statement" => some .tryCatch
  | "try_with_resources_statement" => some .tryCatch
  | "catch_clause" => some .catchSection
  | "block" => some .codeBlock
  | "constructor_body" => some .codeBlock
  | "modifiers" => some .modifierList
  | "formal_parameters" => some .parameterList
  | "identifier" => some .identifier
  | "local_variable_declaration" => some .declarationStatement
  | "expression_statement" => some .expressionStatement
  | "explicit_constructor_invocation" => some .expressionStatement
  | "return_statement" => some .returnStatement
  | "break_statement" => some .breakStatement
  | "continue_statement" => some .continueStatement
  | _ => none

/-- The kind of a row with the given trees below it, under a parent of the given rule. -/
def classify (row : Row) (children : List ParseTree) (parentKind : String) : NodeKind :=
  if row.field = some "type" ∧ parentKind = "method_declaration" then .returnType
  else if row.kind = "object_creation_expression" ∧ hasChild children "class_body" then .classDecl
  else
    match kindOfRule? row.kind with
    | some kind => kind
    | none => if !row.named && isWord row.kind then .keyword else .other

/-- Whether a row becomes a block in the place of a statement. -/
def isStatementBlock (row : Row) (parentKind : String) : Bool :=
  row.kind == "block" && statementContexts.contains parentKind

end BlockShading.ParseTree
