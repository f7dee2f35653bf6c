/-!
# Links between nodes

Besides its children a node may point to other nodes by the role they play for it: a name, a
condition, a brace. Fourteen roles have at most one such node and five have a list of them.
`Links.targets` is every node that a node points to.
-/

namespace BlockShading

abbrev NodeId := Nat

/-- A role played by at most one node. -/
inductive Role where
  | name
  | modifierList
  | returnType
  | parameterList
  | body
  | condition
  | leftParen
  | rightParen
  | leftBrace
  | rightBrace
  | parameter
  | tryBlock
  | catchBlock
  | codeBlock
  deriving DecidableEq, Repr

/-- A role played by any number of nodes. -/
inductive ListRole where
  | initialization
  | update
  | fields
  | statements
  | catchSections
  deriving DecidableEq, Repr

structure Links where
  name : Option NodeId := none
  modifierList : Option NodeId := none
  returnType : Option NodeId := none
  parameterList : Option NodeId := none
  body : Option NodeId := none
  condition : Option NodeId := none
  leftParen : Option NodeId := none
  rightParen : Option NodeId := none
  leftBrace : Option NodeId := none
  rightBrace : Option NodeId := none
  parameter : Option NodeId := none
  tryBlock : Option NodeId := none
  catchBlock : Option NodeId := none
  codeBlock : Option NodeId := none
  initialization : List NodeId := []
  update : List NodeId := []
  fields : List NodeId := []
  statements : List NodeId := []
  catchSections : List NodeId := []
  deriving DecidableEq, Repr, Inhabited

namespace Role

def all : List Role :=
  [name, modifierList, returnType, parameterList, body, condition, leftParen, rightParen,
    leftBrace, rightBrace, parameter, tryBlock, catchBlock, codeBlock]

def label : Role → String
  | name => "name"
  | modifierList => "modifier_list"
  | returnType => "return_type"
  | parameterList => "parameter_list"
  | body => "body"
  | condition => "condition"
  | leftParen => "lparen"
  | rightParen => "rparen"
  | leftBrace => "lbrace"
  | rightBrace => "rbrace"
  | parameter => "parameter"
  | tryBlock => "try_block"
  | catchBlock => "catch_block"
  | codeBlock => "code_block"

def ofLabel? (text : String) : Option Role := all.find? fun role => role.label == text

end Role

namespace ListRole

def all : List ListRole := [initialization, update, fields, statements, catchSections]

def label : ListRole → String
  | initialization => "initialization"
  | update => "update"
  | fields => "fields"
  | statements => "statements"
  | catchSections => "catch_sections"

def ofLabel? (text : String) : Option ListRole := all.find? fun role => role.label == text

end ListRole

namespace Links

def get (links : Links) : Role → Option NodeId
  | .name => links.name
  | .modifierList => links.modifierList
  | .returnType => links.returnType
  | .parameterList => links.parameterList
  | .body => links.body
  | .condition => links.condition
  | .leftParen => links.leftParen
  | .rightParen => links.rightParen
  | .leftBrace => links.leftBrace
  | .rightBrace => links.rightBrace
  | .parameter => links.parameter
  | .tryBlock => links.tryBlock
  | .catchBlock => links.catchBlock
  | .codeBlock => links.codeBlock

def getList (links : Links) : ListRole → List NodeId
  | .initialization => links.initialization
  | .update => links.update
  | .fields => links.fields
  | .statements => links.statements
  | .catchSections => links.catchSections

def set (links : Links) (role : Role) (target : Option NodeId) : Links :=
  match role with
  | .name => { links with name := target }
  | .modifierList => { links with modifierList := target }
  | .returnType => { links with returnType := target }
  | .parameterList => { links with parameterList := target }
  | .body => { links with body := target }
  | .condition => { links with condition := target }
  | .leftParen => { links with leftParen := target }
  | .rightParen => { links with rightParen := target }
  | .leftBrace => { links with leftBrace := target }
  | .rightBrace => { links with rightBrace := target }
  | .parameter => { links with parameter := target }
  | .tryBlock => { links with tryBlock := target }
  | .catchBlock => { links with catchBlock := target }
  | .codeBlock => { links with codeBlock := target }

def setList (links : Links) (role : ListRole) (targets : List NodeId) : Links :=
  match role with
  | .initialization => { links with initialization := targets }
  | .update => { links with update := targets }
  | .fields => { links with fields := targets }
  | .statements => { links with statements := targets }
  | .catchSections => { links with catchSections := targets }

def targets (links : Links) : List NodeId :=
  Role.all.filterMap links.get ++ ListRole.all.flatMap links.getList

/-- A node is a target exactly if it plays some role. -/
theorem mem_targets_iff {links : Links} {id : NodeId} :
    id ∈ links.targets ↔ (∃ role, links.get role = some id) ∨ ∃ role, id ∈ links.getList role := by
  have hall : ∀ role : Role, role ∈ Role.all := by intro role; cases role <;> decide
  have hlist : ∀ role : ListRole, role ∈ ListRole.all := by intro role; cases role <;> decide
  simp [targets, List.mem_filterMap, List.mem_flatMap, hall, hlist]

theorem get_set (links : Links) (role other : Role) (target : Option NodeId) :
    (links.set role target).get other = if role = other then target else links.get other := by
  cases role <;> cases other <;> rfl

theorem getList_set (links : Links) (role : Role) (target : Option NodeId) (other : ListRole) :
    (links.set role target).getList other = links.getList other := by
  cases role <;> rfl

/-- A target after one role is filled anew is the new node or was a target before. -/
theorem mem_targets_of_set (role : Role) {links : Links} {target : Option NodeId} {id : NodeId}
    (h : id ∈ (links.set role target).targets) : target = some id ∨ id ∈ links.targets := by
  rcases mem_targets_iff.mp h with ⟨other, hother⟩ | ⟨other, hother⟩
  · rw [get_set] at hother
    split at hother
    · exact Or.inl hother
    · exact Or.inr (mem_targets_iff.mpr (Or.inl ⟨other, hother⟩))
  · rw [getList_set] at hother
    exact Or.inr (mem_targets_iff.mpr (Or.inr ⟨other, hother⟩))

theorem not_mem_targets_empty {id : NodeId} : id ∉ ({} : Links).targets := by
  simp [targets, Role.all, ListRole.all, get, getList]

end Links

end BlockShading
