import BlockShading.Color

/-!
# Highlight categories

Every shaded range belongs to one of five categories. A `PerCategory` holds one value for each of
them, and `Category.baseColors` are the stock colors, each about one fifth opaque.
-/

namespace BlockShading

inductive Category where
  | importDecl
  | method
  | statement
  | classDecl
  | condition
  deriving DecidableEq, Repr, Inhabited

structure PerCategory (α : Type) where
  importDecl : α
  method : α
  statement : α
  classDecl : α
  condition : α
  deriving DecidableEq, Repr

namespace Category

/-- Every category, in the order in which they are processed. -/
def all : List Category := [importDecl, method, statement, classDecl, condition]

def name : Category → String
  | importDecl => "import"
  | method => "method"
  | statement => "statement"
  | classDecl => "class"
  | condition => "condition"

def ofName? (text : String) : Option Category := all.find? fun c => c.name == text

end Category

namespace PerCategory

variable {α β : Type}

def get (values : PerCategory α) : Category → α
  | .importDecl => values.importDecl
  | .method => values.method
  | .statement => values.statement
  | .classDecl => values.classDecl
  | .condition => values.condition

def set (values : PerCategory α) (category : Category) (value : α) : PerCategory α :=
  match category with
  | .importDecl => { values with importDecl := value }
  | .method => { values with method := value }
  | .statement => { values with statement := value }
  | .classDecl => { values with classDecl := value }
  | .condition => { values with condition := value }

def ofFn (f : Category → α) : PerCategory α where
  importDecl := f .importDecl
  method := f .method
  statement := f .statement
  classDecl := f .classDecl
  condition := f .condition

@[simp] theorem get_ofFn (f : Category → α) (c : Category) : (ofFn f).get c = f c := by
  cases c <;> rfl

@[simp] theorem get_set_self (values : PerCategory α) (c : Category) (value : α) :
    (values.set c value).get c = value := by
  cases c <;> rfl

theorem get_set_of_ne (values : PerCategory α) {c d : Category} (value : α) (h : d ≠ c) :
    (values.set c value).get d = values.get d := by
  cases c <;> cases d <;> first | rfl | exact absurd rfl h

end PerCategory

namespace Category

def baseColor : Category → Color
  | importDecl => ⟨0xF6, 0xF8, 0xF7, 0x33⟩
  | method => ⟨0xE5, 0x9B, 0x05, 0x33⟩
  | statement => ⟨0x6F, 0xD2, 0xE5, 0x33⟩
  | classDecl => ⟨0xA8, 0x61, 0xE0, 0x33⟩
  | condition => ⟨0xE0, 0x61, 0x85, 0x33⟩

def baseColors : PerCategory Color := PerCategory.ofFn baseColor

end Category

end BlockShading
