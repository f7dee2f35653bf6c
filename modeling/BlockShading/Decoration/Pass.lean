import BlockShading.Decoration.Span
import BlockShading.Log
import BlockShading.Palette

/-!
# Passes

A pass visits nodes in the given order, gives the spans of each the colors of a palette, and adds
them to what was drawn before. A node that cannot be shaded adds nothing; it is reported, and the
pass goes on.
-/

namespace BlockShading

structure Style where
  boxed : Bool
  bold : Bool
  deriving DecidableEq, Repr

structure Decoration where
  extent : Extent
  color : Rgb
  category : Category
  style : Style
  deriving DecidableEq, Repr

def Style.default : Style := ⟨true, false⟩

namespace Pass

structure Report where
  /-- Nodes seen. -/
  visited : Nat
  /-- Nodes of a kind that is shaded. -/
  matched : Nat
  /-- Decorations added. -/
  emitted : Nat
  /-- Why nodes were skipped, in the order of the visit. -/
  violations : List SpanError
  deriving DecidableEq, Repr

structure State where
  decorations : Array Decoration
  report : Report
  events : Array Log.Event
  deriving Repr

structure Setting where
  tree : SyntaxTree
  palette : Palette
  around : Surroundings

def Report.empty : Report := ⟨0, 0, 0, []⟩

def Report.isClean (report : Report) : Bool := report.violations.isEmpty

/-- The state before the first node, with what was drawn before. -/
def State.start (decorations : Array Decoration) : State := ⟨decorations, .empty, #[]⟩

def Setting.decorate (setting : Setting) (span : Span) : Decoration :=
  ⟨span.extent, setting.palette.render span.category, span.category, .default⟩

def State.pass (state : State) : State :=
  { state with report := { state.report with visited := state.report.visited + 1 } }

def State.skip (state : State) (error : SpanError) : State where
  decorations := state.decorations
  report :=
    { state.report with
      visited := state.report.visited + 1
      matched := state.report.matched + 1
      violations := state.report.violations ++ [error] }
  events := state.events.push <| Log.note .warn .pass ("Skipping node: " ++ error.message)

def State.emit (state : State) (node : Node) (decorations : List Decoration) : State where
  decorations := state.decorations ++ decorations
  report :=
    { state.report with
      visited := state.report.visited + 1
      matched := state.report.matched + 1
      emitted := state.report.emitted + decorations.length }
  events := state.events.push <| Log.note .trace .pass
    s!"{node.kind.name} {node.extent.text} -> {decorations.length} decorations"

def visit (setting : Setting) (state : State) (handle : Handle) : State :=
  if handle.node.kind.isShaded then
    match handle.spans setting.tree setting.around with
    | .error error => state.skip error
    | .ok spans => state.emit handle.node (spans.map setting.decorate)
  else state.pass

def run (setting : Setting) (drawn : Array Decoration) (handles : List Handle) : State :=
  handles.foldl (visit setting) (State.start drawn)

/-- Visits every node of the tree, each before its children, and tells the totals. -/
def annotate (setting : Setting) : State :=
  let state := run setting #[] (setting.tree.preorder.filterMap setting.tree.handle?)
  let report := state.report
  let totals := s!"({report.matched} matched, {report.emitted} decorations, " ++
    s!"{report.violations.length} skipped)"
  { state with
    events := state.events.push <|
      Log.note .debug .pass (s!"Annotated {report.visited} nodes " ++ totals) }

end Pass

end BlockShading
