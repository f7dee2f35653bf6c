/-!
# Heights of a pattern

The parts of a pattern are nested, and only so deep. The height of a part is the number of levels
it is made of: single characters have height zero, and whatever encloses, repeats or combines parts
is one level higher than they are.
-/

namespace BlockShading.Log.Pattern

/-- Parts side by side: their number, and the height of the highest. -/
structure Parts where
  count : Nat
  height : Nat
  deriving DecidableEq, Repr

namespace Parts

def none : Parts := ⟨0, 0⟩

def add (parts : Parts) (height : Nat) : Parts := ⟨parts.count + 1, max parts.height height⟩

def raise (parts : Parts) (height : Nat) : Parts := ⟨parts.count, max parts.height height⟩

/-- The height of the parts together. Two or more are combined, and a single one stands for
itself. -/
def total (parts : Parts) : Nat := if parts.count ≤ 1 then parts.height else parts.height + 1

end Parts

/-- The height of alternatives or operands, where `before` is the height of those before the last,
if there are any. -/
def joined (before : Option Nat) (last : Nat) : Nat :=
  match before with
  | none => last
  | some height => max height last + 1

def maxHeight : Nat := 250

end BlockShading.Log.Pattern
