import Rill.Arguments
import Rill.Child
import Rill.Command
import Rill.Error
import Rill.Eval
import Rill.Files.Place
import Rill.Files.Tree
import Rill.Json.Basic
import Rill.Json.Printer
import Rill.Json.Reader
import Rill.Line.Leaf
import Rill.Line.Parser
import Rill.Line.Stage
import Rill.Main
import Rill.Mode
import Rill.Number.Binary
import Rill.Number.Rounded
import Rill.Number.Shortest
import Rill.Number.Text
import Rill.Operand.Apply
import Rill.Operand.Shown
import Rill.Operator
import Rill.Operator.Apply
import Rill.Printer
import Rill.Program.Basic
import Rill.Program.Condition
import Rill.Program.Directive
import Rill.Program.Format
import Rill.Program.Numeral
import Rill.Program.Options
import Rill.Program.Quoting
import Rill.Program.Run
import Rill.Program.Utility
import Rill.Proofs.Alike
import Rill.Proofs.Arguments
import Rill.Proofs.Broadcast
import Rill.Proofs.Child
import Rill.Proofs.Child.Ending
import Rill.Proofs.Choice
import Rill.Proofs.Closure.Decision
import Rill.Proofs.Closure.Each
import Rill.Proofs.Closure.Elementwise
import Rill.Proofs.Closure.Interleaving
import Rill.Proofs.Closure.Nesting
import Rill.Proofs.Closure.Parameter
import Rill.Proofs.Closure.Recursion
import Rill.Proofs.Closure.Waiting
import Rill.Proofs.Closure.Work
import Rill.Proofs.Delivers
import Rill.Proofs.Ends
import Rill.Proofs.Errors.Structural
import Rill.Proofs.Forcing
import Rill.Proofs.Forcing.Once
import Rill.Proofs.Generations
import Rill.Proofs.Json.Decimals
import Rill.Proofs.Json.Numerals
import Rill.Proofs.Json.Reread
import Rill.Proofs.Json.RoundTrip
import Rill.Proofs.Line.Brackets
import Rill.Proofs.Line.Discipline
import Rill.Proofs.Line.Environment
import Rill.Proofs.Line.Expression
import Rill.Proofs.Line.Folding
import Rill.Proofs.Line.Groups
import Rill.Proofs.Line.Inside
import Rill.Proofs.Line.JsonText
import Rill.Proofs.Line.Pipelines
import Rill.Proofs.Line.Printing
import Rill.Proofs.Line.Record
import Rill.Proofs.Line.Redirect
import Rill.Proofs.Line.Turns
import Rill.Proofs.Line.Yard
import Rill.Proofs.Number.Finite
import Rill.Proofs.Number.Rounding
import Rill.Proofs.Number.Shortest
import Rill.Proofs.Parentheses
import Rill.Proofs.Path
import Rill.Proofs.Printer.Paging
import Rill.Proofs.Printer.Window
import Rill.Proofs.Record.Contents
import Rill.Proofs.Record.Expression
import Rill.Proofs.Record.Fields
import Rill.Proofs.Record.Grammar
import Rill.Proofs.Record.Spelling
import Rill.Proofs.Scalars
import Rill.Proofs.Sessions
import Rill.Proofs.Sorted
import Rill.Proofs.Step
import Rill.Proofs.Token.Blanks
import Rill.Proofs.Token.Shapes
import Rill.Proofs.Token.Spans
import Rill.Proofs.Variables
import Rill.Record
import Rill.Scope
import Rill.Script.Arithmetic
import Rill.Script.Builtin
import Rill.Script.Expansion
import Rill.Script.Lexeme
import Rill.Script.Machine
import Rill.Script.Pattern
import Rill.Script.Reader
import Rill.Script.Redirect
import Rill.Script.Run
import Rill.Script.Signal
import Rill.Script.Syntax
import Rill.Session
import Rill.Settings.Basic
import Rill.Settings.Toml
import Rill.Shell
import Rill.Slot
import Rill.Stream.Basic
import Rill.Text.Backspace
import Rill.Text.Base64
import Rill.Text.Blank
import Rill.Text.Cluster
import Rill.Text.ClusterClass
import Rill.Text.Octets
import Rill.Text.Printable
import Rill.Text.Quoted
import Rill.Text.Ranges
import Rill.Text.Utf8
import Rill.Timestamp
import Rill.Token
import Rill.Value.Basic
import Rill.Value.Path
import Rill.World
