import BlockShading.Decoration.Target
import BlockShading.Text.Indent

/-!
# Shaded spans

The targets of a node become spans, each an extent with a category. A span must lie inside the
node, except that indentation need only lie inside the text. One span that does not fails the
whole node.
-/

namespace BlockShading

structure Span where
  extent : Extent
  category : Category
  deriving DecidableEq, Repr

inductive SpanError where
  | outsideExtent (id : NodeId) (kind : NodeKind) (produced extent : Extent)
  | outsideText (id : NodeId) (kind : NodeKind) (produced : Extent) (size : Nat)
  deriving DecidableEq, Repr

namespace SpanError

def message : SpanError → String
  | outsideExtent id kind produced extent =>
    s!"{kind.name} node #{id} produced range {produced.text} outside its extent {extent.text}"
  | outsideText id kind produced size =>
    s!"{kind.name} node #{id} produced indent range {produced.text} " ++
      s!"past the end of the buffer ({size} bytes)"

end SpanError

/-- What shading looks at besides the tree: the text, and whether indentation is shaded. -/
structure Surroundings where
  lines : LineIndex
  guides : Bool

namespace Handle

def inside (handle : Handle) (produced : Extent) : Except SpanError Extent :=
  if handle.node.extent.contains produced then .ok produced
  else .error (.outsideExtent handle.id handle.node.kind produced handle.node.extent)

def insideText (handle : Handle) (lines : LineIndex) (produced : Extent) :
    Except SpanError Extent :=
  if produced.stop ≤ lines.size then .ok produced
  else .error (.outsideText handle.id handle.node.kind produced lines.size)

/-- An extent with the character after it, or one byte more where there is none. -/
def paddedExtent (lines : LineIndex) (extent : Extent) : Extent :=
  extent.pad (max 1 (lines.widthAt extent.stop))

def place (handle : Handle) (around : Surroundings) : Target → Except SpanError (List Extent)
  | .asIs extent => (handle.inside extent).map ([·])
  | .padded extent => (handle.inside (paddedExtent around.lines extent)).map ([·])
  | .guides body =>
    if around.guides then (around.lines.measure body).mapM (handle.insideText around.lines)
    else .ok []

/-- The spans of a node in the order of its targets, or the first thing that is wrong. -/
def spans (handle : Handle) (tree : SyntaxTree) (around : Surroundings) :
    Except SpanError (List Span) :=
  match handle.node.kind.category? with
  | none => .ok []
  | some category =>
    ((Target.ofNode tree handle.node).mapM (handle.place around)).map fun extents =>
      extents.flatten.map (⟨·, category⟩)

end Handle

end BlockShading
