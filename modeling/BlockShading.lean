import BlockShading.Blend
import BlockShading.Category
import BlockShading.Color
import BlockShading.Command.Arguments
import BlockShading.Command.Output
import BlockShading.Command.Plan
import BlockShading.Command.Run
import BlockShading.Decoration.Pass
import BlockShading.Decoration.Span
import BlockShading.Decoration.Target
import BlockShading.Extent
import BlockShading.FileTree
import BlockShading.Language
import BlockShading.Log
import BlockShading.Log.Directive
import BlockShading.Log.Filter
import BlockShading.Log.Pattern
import BlockShading.Log.Pattern.Atom
import BlockShading.Log.Pattern.CharClass
import BlockShading.Log.Pattern.Flags
import BlockShading.Log.Pattern.Group
import BlockShading.Log.Pattern.Parts
import BlockShading.Main
import BlockShading.Palette
import BlockShading.ParseTree.Basic
import BlockShading.ParseTree.Classify
import BlockShading.ParseTree.Links
import BlockShading.ParseTree.Lower
import BlockShading.ParseTree.Rows
import BlockShading.Path
import BlockShading.Proofs.Color.Hex
import BlockShading.Proofs.Command.Files
import BlockShading.Proofs.Command.TextOutput
import BlockShading.Proofs.Decoration.Annotation
import BlockShading.Proofs.Decoration.Boundaries
import BlockShading.Proofs.Decoration.GuidedLines
import BlockShading.Proofs.Decoration.Guides
import BlockShading.Proofs.Decoration.Recoloring
import BlockShading.Proofs.Decoration.Rules
import BlockShading.Proofs.Decoration.Runs
import BlockShading.Proofs.Decoration.Spans
import BlockShading.Proofs.Files.Directories
import BlockShading.Proofs.ParseTree.Delimiters
import BlockShading.Proofs.ParseTree.Held
import BlockShading.Proofs.ParseTree.LinkShape
import BlockShading.Proofs.ParseTree.LinkTargets
import BlockShading.Proofs.ParseTree.Linking
import BlockShading.Proofs.ParseTree.Lowering
import BlockShading.Proofs.ParseTree.Outcome
import BlockShading.Proofs.ParseTree.Spots
import BlockShading.Proofs.ParseTree.Steps
import BlockShading.Proofs.Text.Boundaries
import BlockShading.Proofs.Text.Indentation
import BlockShading.Proofs.Text.Lines
import BlockShading.Proofs.Text.Positions
import BlockShading.Proofs.Theme.Catalog
import BlockShading.Proofs.Theme.Sessions
import BlockShading.Proofs.Tree.Building
import BlockShading.Proofs.Tree.Finish
import BlockShading.Proofs.Tree.Grafting
import BlockShading.Proofs.Tree.Walk
import BlockShading.Rounding
import BlockShading.Settings.Basic
import BlockShading.Settings.Location
import BlockShading.Text.Alphanumeric
import BlockShading.Text.Bytes
import BlockShading.Text.Digits
import BlockShading.Text.Indent
import BlockShading.Text.Lines
import BlockShading.Text.Words
import BlockShading.Theme.Basic
import BlockShading.Theme.Catalog
import BlockShading.Theme.Session
import BlockShading.Tree.Basic
import BlockShading.Tree.Builder
import BlockShading.Tree.Kind
import BlockShading.Tree.Links
import BlockShading.Yaml.Cursor
import BlockShading.Yaml.Node
import BlockShading.Yaml.Scalar
import BlockShading.Yaml.Token
import BlockShading.Yaml.Value
import BlockShading.Yaml.Writer
import BlockShading.Proofs.Color.Reading
import BlockShading.Proofs.Theme.Reading
import BlockShading.Proofs.Files.PathOrder
import BlockShading.Proofs.ParseTree.Conditions
import BlockShading.Proofs.Command.Expansion
import BlockShading.Proofs.Rounding
import BlockShading.Proofs.Color.Blending
import BlockShading.Proofs.Theme.Listing
import BlockShading.Proofs.Yaml.Kept
import BlockShading.Proofs.Yaml.Scalars
import BlockShading.Proofs.Yaml.Lines
import BlockShading.Proofs.Yaml.Blocks
import BlockShading.Proofs.Yaml.Entries
import BlockShading.Proofs.Theme.Titles
