/-!
# Extents

An extent is a half-open range of byte offsets in a source text. Its two ends are kept as they
were given, so an extent may be reversed. Offsets are 64-bit words: the operations whose names end
in `?` have no result when one would leave that range.
-/

namespace BlockShading

/-- The byte offsets from `start` up to, but not including, `stop`. -/
structure Extent where
  start : Nat
  stop : Nat
  deriving DecidableEq, Repr, Inhabited

namespace Extent

def maxOffset : Nat := 18446744073709551615

/-- The given offset, if a 64-bit word holds it. -/
def offset? (n : Nat) : Option Nat := if n ≤ maxOffset then some n else none

def ofLength? (start length : Nat) : Option Extent :=
  (offset? (start + length)).map fun stop => ⟨start, stop⟩

def length? (e : Extent) : Option Nat :=
  if e.start ≤ e.stop then some (e.stop - e.start) else none

def isEmpty (e : Extent) : Bool := e.start == e.stop

def pad (e : Extent) (extra : Nat) : Extent := ⟨e.start, e.stop + extra⟩

/-- `pad` within the range of offsets. -/
def pad? (e : Extent) (extra : Nat) : Option Extent :=
  (offset? (e.stop + extra)).map fun stop => ⟨e.start, stop⟩

def contains (e inner : Extent) : Bool := e.start ≤ inner.start && inner.stop ≤ e.stop

def overlaps (e other : Extent) : Bool := e.start < other.stop && other.start < e.stop

/-- Earlier starts come first; of equal starts, earlier ends. -/
def precedes (e other : Extent) : Bool :=
  e.start < other.start || (e.start == other.start && e.stop ≤ other.stop)

def text (e : Extent) : String := s!"{e.start}..{e.stop}"

theorem contains_iff {e inner : Extent} :
    e.contains inner = true ↔ e.start ≤ inner.start ∧ inner.stop ≤ e.stop := by
  simp [contains]

theorem contains_refl (e : Extent) : e.contains e = true := by simp [contains]

theorem contains_trans {a b c : Extent} (hab : a.contains b = true) (hbc : b.contains c = true) :
    a.contains c = true := by
  rw [contains_iff] at *
  omega

end Extent

end BlockShading
