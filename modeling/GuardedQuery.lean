import GuardedQuery.CommandLine.Arguments
import GuardedQuery.CommandLine.Files
import GuardedQuery.CommandLine.Input
import GuardedQuery.CommandLine.Parameter
import GuardedQuery.CommandLine.Run
import GuardedQuery.CommandLine.Settings
import GuardedQuery.Diagnostics.Drawing
import GuardedQuery.Diagnostics.Excerpt
import GuardedQuery.Diagnostics.Render
import GuardedQuery.Diagnostics.Report
import GuardedQuery.Diagnostics.Row
import GuardedQuery.Diagnostics.SourceLine
import GuardedQuery.Diagnostics.Styled
import GuardedQuery.Diagnostics.Window
import GuardedQuery.Document
import GuardedQuery.Executable.Basic
import GuardedQuery.Executable.Read
import GuardedQuery.Executable.Visit
import GuardedQuery.Fault
import GuardedQuery.Limits
import GuardedQuery.Main
import GuardedQuery.Proofs.CommandLine.Layering
import GuardedQuery.Proofs.Descent.Agreement
import GuardedQuery.Proofs.Diagnostics.Excerpts
import GuardedQuery.Proofs.Executable.Composing
import GuardedQuery.Proofs.Executable.FieldNodes
import GuardedQuery.Proofs.Executable.Forms
import GuardedQuery.Proofs.Executable.Nodes
import GuardedQuery.Proofs.Executable.OperationNodes
import GuardedQuery.Proofs.Executable.Places
import GuardedQuery.Proofs.Executable.Reading
import GuardedQuery.Proofs.Executable.Spans
import GuardedQuery.Proofs.Executable.Uses
import GuardedQuery.Proofs.Executable.Visiting
import GuardedQuery.Proofs.Executable.Walking
import GuardedQuery.Proofs.Executable.Writing
import GuardedQuery.Proofs.Executable.Written
import GuardedQuery.Proofs.Grammar.Basic
import GuardedQuery.Proofs.Grammar.Derivation
import GuardedQuery.Proofs.Grammar.Documents
import GuardedQuery.Proofs.Grammar.Productive
import GuardedQuery.Proofs.Parse.Ceilings
import GuardedQuery.Proofs.Parse.Comparison
import GuardedQuery.Proofs.Parse.Composition
import GuardedQuery.Proofs.Parse.Counting
import GuardedQuery.Proofs.Parse.Dumping
import GuardedQuery.Proofs.Parse.EventTree
import GuardedQuery.Proofs.Parse.FaultPlaces
import GuardedQuery.Proofs.Parse.FirstError
import GuardedQuery.Proofs.Parse.Listening
import GuardedQuery.Proofs.Parse.Lossless
import GuardedQuery.Proofs.Parse.Observation
import GuardedQuery.Proofs.Parse.Protocol
import GuardedQuery.Proofs.Parse.Respacing
import GuardedQuery.Proofs.Parse.RoundTrip
import GuardedQuery.Proofs.Parse.Segmentation
import GuardedQuery.Proofs.Parse.Traversal
import GuardedQuery.Proofs.Parse.Trivia
import GuardedQuery.Proofs.Parse.Work
import GuardedQuery.Proofs.Relocation.Basic
import GuardedQuery.Proofs.Relocation.Dumping
import GuardedQuery.Proofs.Relocation.Executable
import GuardedQuery.Proofs.Relocation.Reading
import GuardedQuery.Proofs.Relocation.Rules
import GuardedQuery.Proofs.Relocation.Validation
import GuardedQuery.Proofs.Run.Explanation
import GuardedQuery.Proofs.Run.Frugality
import GuardedQuery.Proofs.Run.Lexemes
import GuardedQuery.Proofs.Run.Productions
import GuardedQuery.Proofs.Run.Reaching
import GuardedQuery.Proofs.Run.Reading
import GuardedQuery.Proofs.Run.Spelling
import GuardedQuery.Proofs.Run.Taking
import GuardedQuery.Proofs.Run.Trace
import GuardedQuery.Proofs.Source.Adding
import GuardedQuery.Proofs.Source.Cursor
import GuardedQuery.Proofs.Source.Gating
import GuardedQuery.Proofs.Source.LineWords
import GuardedQuery.Proofs.Source.Locating
import GuardedQuery.Proofs.Source.Ordering
import GuardedQuery.Proofs.Source.Segments
import GuardedQuery.Proofs.Source.Slices
import GuardedQuery.Proofs.Text.Quoting
import GuardedQuery.Proofs.Token.Automaton
import GuardedQuery.Proofs.Token.Joining
import GuardedQuery.Proofs.Token.Prolonging
import GuardedQuery.Proofs.Token.Scanning
import GuardedQuery.Proofs.Token.Spacing
import GuardedQuery.Proofs.Token.Spans
import GuardedQuery.Proofs.Token.Strings
import GuardedQuery.Proofs.Token.Tiling
import GuardedQuery.Proofs.Tree.Assembly
import GuardedQuery.Proofs.Tree.Basic
import GuardedQuery.Proofs.Tree.Padding
import GuardedQuery.Proofs.Tree.Paths
import GuardedQuery.Proofs.Tree.Trimming
import GuardedQuery.Proofs.Validation.Capacity
import GuardedQuery.Proofs.Validation.Collecting
import GuardedQuery.Proofs.Validation.CycleSearch
import GuardedQuery.Proofs.Validation.Extents
import GuardedQuery.Proofs.Validation.FieldCeiling
import GuardedQuery.Proofs.Validation.Fragments
import GuardedQuery.Proofs.Validation.Independence
import GuardedQuery.Proofs.Validation.Operations
import GuardedQuery.Proofs.Validation.Placement
import GuardedQuery.Proofs.Validation.Scopes
import GuardedQuery.Proofs.Validation.Sorting
import GuardedQuery.Proofs.Validation.Spreads
import GuardedQuery.Proofs.Validation.Variables
import GuardedQuery.Source.Basic
import GuardedQuery.Source.Location
import GuardedQuery.Source.Reader
import GuardedQuery.Syntax.Dump
import GuardedQuery.Syntax.Event
import GuardedQuery.Syntax.Goal
import GuardedQuery.Syntax.Guard
import GuardedQuery.Syntax.Run
import GuardedQuery.Syntax.Tree
import GuardedQuery.Text.Blank
import GuardedQuery.Text.Bytes
import GuardedQuery.Text.CodeTable
import GuardedQuery.Text.Columns
import GuardedQuery.Text.Decimal
import GuardedQuery.Text.Json
import GuardedQuery.Text.Printable
import GuardedQuery.Text.Quoted
import GuardedQuery.Text.Visible
import GuardedQuery.Token.Automaton
import GuardedQuery.Token.Basic
import GuardedQuery.Token.Kind
import GuardedQuery.Token.KindSet
import GuardedQuery.Token.Lexer
import GuardedQuery.Token.Span
import GuardedQuery.Validation.ByName
import GuardedQuery.Validation.Finding
import GuardedQuery.Validation.FragmentUsage
import GuardedQuery.Validation.OperationNames
import GuardedQuery.Validation.Rule
import GuardedQuery.Validation.Validator
import GuardedQuery.Validation.VariableUsage
