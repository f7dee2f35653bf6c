import BlockShading.Category

/-!
# Kinds of syntax nodes

The closed set of node kinds that shading distinguishes, with the category of those kinds that are
shaded themselves.
-/

namespace BlockShading

inductive LoopKind where
  | whileLoop
  | doWhile
  | forLoop
  deriving DecidableEq, Repr, Inhabited

inductive NodeKind where
  | importDecl
  | classDecl
  | methodDecl
  | field
  | loop (form : LoopKind)
  | ifElse
  | tryCatch
  | catchSection
  /-- A code block in the place of a statement. -/
  | blockStatement
  | codeBlock
  | keyword
  | modifierList
  | returnType
  | identifier
  | parameterList
  | declarationStatement
  | expressionStatement
  | returnStatement
  | breakStatement
  | continueStatement
  | other
  deriving DecidableEq, Repr, Inhabited

namespace LoopKind

def name : LoopKind → String
  | whileLoop => "While"
  | doWhile => "DoWhile"
  | forLoop => "For"

end LoopKind

namespace NodeKind

def all : List NodeKind :=
  [importDecl, classDecl, methodDecl, field, loop .whileLoop, loop .doWhile, loop .forLoop, ifElse,
    tryCatch, catchSection, blockStatement, codeBlock, keyword, modifierList, returnType,
    identifier, parameterList, declarationStatement, expressionStatement, returnStatement,
    breakStatement, continueStatement, other]

def name : NodeKind → String
  | importDecl => "Import"
  | classDecl => "ClassDecl"
  | methodDecl => "MethodDecl"
  | field => "Field"
  | loop form => s!"ConditionalLoop({form.name})"
  | ifElse => "If"
  | tryCatch => "Try"
  | catchSection => "CatchSection"
  | blockStatement => "BlockStatement"
  | codeBlock => "CodeBlock"
  | keyword => "Keyword"
  | modifierList => "ModifierList"
  | returnType => "ReturnTypeElement"
  | identifier => "Identifier"
  | parameterList => "ParameterList"
  | declarationStatement => "DeclarationStatement"
  | expressionStatement => "ExpressionStatement"
  | returnStatement => "ReturnStatement"
  | breakStatement => "BreakStatement"
  | continueStatement => "ContinueStatement"
  | other => "Other"

def ofName? (text : String) : Option NodeKind := all.find? fun kind => kind.name == text

/-- The category in which nodes of a kind are shaded; `none` if they are not. -/
def category? : NodeKind → Option Category
  | importDecl => some .importDecl
  | classDecl => some .classDecl
  | methodDecl => some .method
  | loop _ => some .condition
  | ifElse => some .condition
  | tryCatch => some .condition
  | declarationStatement => some .statement
  | expressionStatement => some .statement
  | returnStatement => some .statement
  | breakStatement => some .statement
  | continueStatement => some .statement
  | field => none
  | catchSection => none
  | blockStatement => none
  | codeBlock => none
  | keyword => none
  | modifierList => none
  | returnType => none
  | identifier => none
  | parameterList => none
  | other => none

def isShaded (kind : NodeKind) : Bool := kind.category?.isSome

end NodeKind

end BlockShading
