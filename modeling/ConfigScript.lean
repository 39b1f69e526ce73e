import ConfigScript.Assoc
import ConfigScript.Builtin
import ConfigScript.CommandLine.Grammar
import ConfigScript.CommandLine.Help
import ConfigScript.CommandLine.Invocation
import ConfigScript.CommandLine.Matching
import ConfigScript.CommandLine.Run
import ConfigScript.CommandLine.Survey
import ConfigScript.Discovery
import ConfigScript.Edit.Change
import ConfigScript.Edit.File
import ConfigScript.Edit.Occurrence
import ConfigScript.Edit.Splice
import ConfigScript.Environment
import ConfigScript.Error
import ConfigScript.FileTree
import ConfigScript.Format.CharWidth
import ConfigScript.Format.Csv
import ConfigScript.Format.Data
import ConfigScript.Format.Dotenv
import ConfigScript.Format.Json
import ConfigScript.Format.Report
import ConfigScript.Format.Table
import ConfigScript.Format.Width
import ConfigScript.Format.WidthTable
import ConfigScript.Format.Yaml
import ConfigScript.IndexedBindings
import ConfigScript.Main
import ConfigScript.Number.Decimal
import ConfigScript.Number.Integer
import ConfigScript.Number.Real
import ConfigScript.Number.Rounding
import ConfigScript.Number.Shortest
import ConfigScript.Path
import ConfigScript.Proofs.Assoc
import ConfigScript.Proofs.Files.Follow
import ConfigScript.Proofs.Files.Held
import ConfigScript.Proofs.Files.Write
import ConfigScript.Proofs.Lexing.Gap
import ConfigScript.Proofs.Lexing.Prefix
import ConfigScript.Proofs.Lexing.Word
import ConfigScript.Proofs.Parsing.Yields
import ConfigScript.Proofs.Running.Eval
import ConfigScript.Proofs.Running.Step
import ConfigScript.Proofs.Store.File
import ConfigScript.Proofs.Store.Outcome
import ConfigScript.Proofs.Store.Refinement
import ConfigScript.Proofs.Written.Document
import ConfigScript.Proofs.Written.Edit
import ConfigScript.Proofs.Written.Marker
import ConfigScript.Proofs.Written.Read
import ConfigScript.Proofs.Written.Row
import ConfigScript.Proofs.Written.Run
import ConfigScript.Proofs.Written.Tail
import ConfigScript.Proofs.Written.Template
import ConfigScript.Reader
import ConfigScript.Run.Expression
import ConfigScript.Run.Statement
import ConfigScript.Salt.Entropy
import ConfigScript.Salt.Set
import ConfigScript.Scope
import ConfigScript.Script.Character
import ConfigScript.Script.Fault
import ConfigScript.Script.Lexer
import ConfigScript.Script.Lexer.Comment
import ConfigScript.Script.Lexer.Heredoc
import ConfigScript.Script.Lexer.Interpolated
import ConfigScript.Script.Lexer.Name
import ConfigScript.Script.Lexer.Number
import ConfigScript.Script.Lexer.Quoted
import ConfigScript.Script.Parser
import ConfigScript.Script.Parser.Cursor
import ConfigScript.Script.Parser.Expression
import ConfigScript.Script.Parser.Operator
import ConfigScript.Script.Parser.Statement
import ConfigScript.Script.Span
import ConfigScript.Script.Syntax
import ConfigScript.Script.Token
import ConfigScript.Store.Basic
import ConfigScript.Store.Create
import ConfigScript.Store.Machine
import ConfigScript.Store.Shuffle
import ConfigScript.Store.Suggestion
import ConfigScript.Template
import ConfigScript.Text.Blank
import ConfigScript.Text.Bytes
import ConfigScript.Text.Case
import ConfigScript.Text.CaseTable
import ConfigScript.Text.Digits
import ConfigScript.Text.Search
import ConfigScript.Value
import ConfigScript.Value.Arithmetic
import ConfigScript.Value.Comparison
import ConfigScript.Value.Element
import ConfigScript.Value.Numeric
import ConfigScript.Proofs.Patching.Cursor
import ConfigScript.Proofs.Patching.Expression
import ConfigScript.Proofs.Patching.Mirror
import ConfigScript.Proofs.Lexing.Ahead
import ConfigScript.Proofs.Lexing.Closed
import ConfigScript.Proofs.Lexing.Exchange
import ConfigScript.Proofs.Lexing.Row
import ConfigScript.Proofs.Parsing.Excerpt
import ConfigScript.Proofs.Parsing.Order
import ConfigScript.Proofs.Patching.Exact
import ConfigScript.Proofs.Patching.Kept
import ConfigScript.Proofs.Patching.Update
import ConfigScript.Proofs.Running.Alike
import ConfigScript.Proofs.Running.Invariant
import ConfigScript.Proofs.Running.Reach
import ConfigScript.Proofs.Files.Remove
import ConfigScript.Proofs.Store.Failure
import ConfigScript.Proofs.Files.Rewrite
import ConfigScript.Proofs.Parsing.Arranged
import ConfigScript.Proofs.Running.Stages
import ConfigScript.Proofs.Running.Setting
import ConfigScript.Proofs.Running.Keeping
import ConfigScript.Proofs.Running.Edited
import ConfigScript.Proofs.Running.Found
import ConfigScript.Proofs.Parsing.Brackets
import ConfigScript.Proofs.Parsing.Tiling
import ConfigScript.Proofs.Lexing.Last
import ConfigScript.Proofs.Parsing.Rules
import ConfigScript.Proofs.Parsing.Alone
import ConfigScript.Proofs.Patching.Faithful
import ConfigScript.Proofs.Store.Salted
import ConfigScript.Proofs.Lexing.Layout
import ConfigScript.Proofs.Store.Untouched
import ConfigScript.Proofs.Parsing.Faults
import ConfigScript.Proofs.Running.Record
import ConfigScript.Proofs.Running.Execution
import ConfigScript.Proofs.Running.Growth
import ConfigScript.Proofs.Running.Depth
import ConfigScript.Proofs.Parsing.Grouping
import ConfigScript.Proofs.Parsing.Chain
import ConfigScript.Proofs.Parsing.Skipped
import ConfigScript.Proofs.Files.Absolute
import ConfigScript.Proofs.Running.Loaded
import ConfigScript.Proofs.Running.Included
import ConfigScript.Proofs.Running.Compound
import ConfigScript.Proofs.Running.Alternative
import ConfigScript.Proofs.Lexing.Quoted
import ConfigScript.Proofs.Parsing.Origin
import ConfigScript.Proofs.Files.Change
import ConfigScript.Proofs.Patching.Twice
import ConfigScript.Proofs.Removing.Cut
import ConfigScript.Proofs.Parsing.Ended
import ConfigScript.Proofs.Removing.Owner
import ConfigScript.Proofs.Removing.Remove
import ConfigScript.Proofs.Text.Pieces
import ConfigScript.Proofs.Lexing.Nowdoc
import ConfigScript.Proofs.Lexing.Numeral
import ConfigScript.Proofs.Written.Answer
import ConfigScript.Proofs.Salt.Sampling
import ConfigScript.Proofs.Store.Renewal
import ConfigScript.Proofs.Running.Asking
import ConfigScript.Proofs.Value.Key
import ConfigScript.Proofs.Value.Canonical
import ConfigScript.Proofs.Running.Canonical
import ConfigScript.Proofs.Value.Path
import ConfigScript.Proofs.Store.Suggestion
import ConfigScript.Proofs.Number.Double
import ConfigScript.Proofs.Value.Arithmetic
import ConfigScript.Proofs.Value.Comparison
import ConfigScript.Proofs.Format.Csv
import ConfigScript.Proofs.Format.Dotenv
import ConfigScript.Proofs.Bindings.Index
import ConfigScript.Proofs.Store.Ambiguity
import ConfigScript.Proofs.Value.Prefix
import ConfigScript.Proofs.Appending.Script
