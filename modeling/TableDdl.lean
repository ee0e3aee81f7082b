import TableDdl.Text.Blank
import TableDdl.Text.Case
import TableDdl.Text.Numeral
import TableDdl.Text.Quoted
import TableDdl.Number.Layout
import TableDdl.Number.Reader
import TableDdl.Token.Lexer
import TableDdl.Token.Raw
import TableDdl.Json.Reader
import TableDdl.Json.Writer
import TableDdl.Settings.Codec
import TableDdl.Grammar.Group
import TableDdl.Grammar.Name
import TableDdl.Grammar.Scan
import TableDdl.Column.Codec
import TableDdl.Column.Grammar
import TableDdl.Index.Codec
import TableDdl.Index.Grammar
import TableDdl.Constraint.Codec
import TableDdl.Constraint.Grammar
import TableDdl.Rename.Codec
import TableDdl.TableOption.Codec
import TableDdl.TableOption.Grammar
import TableDdl.Statement.Codec
import TableDdl.Statement.Grammar
import TableDdl.CommandLine.Run
import TableDdl.Text.Lines
import TableDdl.Main
import TableDdl.Proofs.Script.Composition
import TableDdl.Proofs.Grammar.Reads
import TableDdl.Proofs.Grammar.Sequences
import TableDdl.Proofs.Lexer.Pieces
import TableDdl.Proofs.Lexer.Raw
import TableDdl.Proofs.Number.Doubles
import TableDdl.Proofs.RoundTrip.Clauses
import TableDdl.Proofs.RoundTrip.Columns
import TableDdl.Proofs.RoundTrip.Constraints
import TableDdl.Proofs.RoundTrip.Partitions
import TableDdl.Proofs.RoundTrip.Tables
import TableDdl.Proofs.Grammar.Parts
import TableDdl.Proofs.Grammar.Positions
import TableDdl.Proofs.Grammar.Progress
import TableDdl.Proofs.Grammar.Texts
import TableDdl.Proofs.Lockstep.Basic
import TableDdl.Proofs.Lockstep.Definitions
import TableDdl.Proofs.Lockstep.Parts
import TableDdl.Proofs.Lexer.Places
import TableDdl.Proofs.Script.Layout
import TableDdl.Proofs.RoundTrip.TableOptions
import TableDdl.Proofs.RoundTrip.Alterations
import TableDdl.Proofs.Grammar.Composition
import TableDdl.Proofs.Lexer.Marks
import TableDdl.Proofs.Extension.Resumption
import TableDdl.Proofs.Extension.References
import TableDdl.Proofs.Extension.Commas
import TableDdl.Proofs.Extension.Continuation
import TableDdl.Proofs.Extension.Alterations
import TableDdl.Proofs.Script.Strictness
import TableDdl.Proofs.Script.Refusals
import TableDdl.Proofs.Script.Succession
import TableDdl.Proofs.Script.EntryPoints
import TableDdl.Proofs.Json.Statements
import TableDdl.Proofs.Script.Prompt
import TableDdl.Proofs.Lexer.Locations
import TableDdl.Proofs.Lexer.Quoting
import TableDdl.Proofs.Grammar.Operators
import TableDdl.Proofs.Segments.Tables
import TableDdl.Proofs.RoundTrip.Continuations
import TableDdl.Proofs.Clauses.Texts
import TableDdl.Proofs.Shape.Partitions
import TableDdl.Proofs.Shape.Statements
import TableDdl.Proofs.Order.Attributes
import TableDdl.Proofs.Nesting.Groups
import TableDdl.Proofs.Placement.Hints
import TableDdl.Proofs.Number.Values
