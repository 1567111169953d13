import TypeScribe.ClassIndex.Basic
import TypeScribe.ClassIndex.Declared
import TypeScribe.ClassIndex.Descriptor
import TypeScribe.ClassIndex.Format
import TypeScribe.ClassIndex.Jdk
import TypeScribe.Config
import TypeScribe.Construct
import TypeScribe.Convert
import TypeScribe.Decimal.Range
import TypeScribe.Json.Basic
import TypeScribe.Json.Number
import TypeScribe.Json.Printer
import TypeScribe.Json.Reader
import TypeScribe.Json.Record
import TypeScribe.Layout.ModuleQueue
import TypeScribe.Layout.Piece
import TypeScribe.Layout.Sheet
import TypeScribe.Layout.Typeset
import TypeScribe.Naming
import TypeScribe.Proofs.Binding.Closures
import TypeScribe.Proofs.Binding.Instances
import TypeScribe.Proofs.Binding.Reading
import TypeScribe.Proofs.Binding.Stacks
import TypeScribe.Proofs.Binding.Steps
import TypeScribe.Proofs.Binding.Stretches
import TypeScribe.Proofs.Binding.Ways
import TypeScribe.Proofs.ClassIndex.Agreement
import TypeScribe.Proofs.ClassIndex.BinaryNames
import TypeScribe.Proofs.ClassIndex.DeclaredTypes
import TypeScribe.Proofs.ClassIndex.History
import TypeScribe.Proofs.ClassIndex.Insertion
import TypeScribe.Proofs.ClassIndex.Layers
import TypeScribe.Proofs.ClassIndex.Order
import TypeScribe.Proofs.ClassIndex.Resolved
import TypeScribe.Proofs.ClassIndex.TextForm
import TypeScribe.Proofs.ClassIndex.UnitIndex
import TypeScribe.Proofs.Comments.Annotations
import TypeScribe.Proofs.Comments.Erase
import TypeScribe.Proofs.Comments.Silence
import TypeScribe.Proofs.Expressions.Formulas
import TypeScribe.Proofs.Expressions.Reader
import TypeScribe.Proofs.Json.Pattern
import TypeScribe.Proofs.Json.Reread
import TypeScribe.Proofs.Layout.Blocks
import TypeScribe.Proofs.Layout.FailureMode
import TypeScribe.Proofs.Layout.Lines
import TypeScribe.Proofs.Layout.Margins
import TypeScribe.Proofs.Layout.Modules
import TypeScribe.Proofs.Layout.Nesting
import TypeScribe.Proofs.Layout.Parts
import TypeScribe.Proofs.Layout.QueueHistory
import TypeScribe.Proofs.Layout.Texts
import TypeScribe.Proofs.Layout.Typeset
import TypeScribe.Proofs.Layout.Writer
import TypeScribe.Proofs.Moves.Draining
import TypeScribe.Proofs.Moves.Entries
import TypeScribe.Proofs.Moves.Layout
import TypeScribe.Proofs.Moves.Level
import TypeScribe.Proofs.Moves.Once
import TypeScribe.Proofs.Moves.Placement
import TypeScribe.Proofs.Moves.Reference
import TypeScribe.Proofs.Moves.Site
import TypeScribe.Proofs.Moves.Waves
import TypeScribe.Proofs.Resolution.Endings
import TypeScribe.Proofs.Resolution.Lexical
import TypeScribe.Proofs.Resolution.Queries
import TypeScribe.Proofs.Resolution.Soundness
import TypeScribe.Proofs.Resolution.TypeVariables
import TypeScribe.Proofs.Resolution.Unrelated
import TypeScribe.Proofs.Script.Children
import TypeScribe.Proofs.Script.Compose
import TypeScribe.Proofs.Script.Dimensions
import TypeScribe.Proofs.Script.Every
import TypeScribe.Proofs.Script.Flaws
import TypeScribe.Proofs.Script.Identifiers
import TypeScribe.Proofs.Script.Plain
import TypeScribe.Proofs.Script.Relocation
import TypeScribe.Proofs.Script.Revision
import TypeScribe.Proofs.Script.Routes
import TypeScribe.Proofs.Script.Spelling
import TypeScribe.Proofs.Script.TypeNames
import TypeScribe.Proofs.Statements.Bodies
import TypeScribe.Proofs.Statements.Content
import TypeScribe.Proofs.Statements.Openings
import TypeScribe.Proofs.Statements.Outcomes
import TypeScribe.Proofs.Statements.Reader
import TypeScribe.Proofs.Statements.Whole
import TypeScribe.Proofs.Statements.Written
import TypeScribe.Proofs.Text.Brackets
import TypeScribe.Proofs.Text.Segments
import TypeScribe.Proofs.Tree.Any
import TypeScribe.Proofs.Tree.DottedNames
import TypeScribe.Proofs.Tree.Reading
import TypeScribe.Proofs.Tree.RoundTrip
import TypeScribe.Proofs.Tree.Written
import TypeScribe.Resolution
import TypeScribe.Samples
import TypeScribe.Script.Context
import TypeScribe.Script.Declarations
import TypeScribe.Script.Expressions
import TypeScribe.Script.Node
import TypeScribe.Script.Shape
import TypeScribe.Script.Statements
import TypeScribe.Script.Types
import TypeScribe.Script.Unit
import TypeScribe.Text.Blank
import TypeScribe.Text.Segment
import TypeScribe.Toml.Basic
import TypeScribe.Toml.Document
import TypeScribe.Toml.Reader
import TypeScribe.Toml.Scalar
import TypeScribe.Tree.Build
import TypeScribe.Tree.ClassType
import TypeScribe.Tree.CompilationUnit
import TypeScribe.Tree.Declaration
import TypeScribe.Tree.Decode
import TypeScribe.Tree.Encode
import TypeScribe.Tree.Keyword
import TypeScribe.Tree.Modifier
import TypeScribe.Tree.Node
import TypeScribe.Tree.Operator
import TypeScribe.Tree.Outline
import TypeScribe.Tree.Schema
