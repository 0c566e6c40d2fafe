import Monkey.Diagnostic.Basic
import Monkey.Diagnostic.Report
import Monkey.Parser.Action
import Monkey.Parser.Basic
import Monkey.Parser.Congruence
import Monkey.Parser.Expression
import Monkey.Parser.Log
import Monkey.Parser.Parse
import Monkey.Parser.Precedence
import Monkey.Parser.Refinement
import Monkey.Parser.Rounds
import Monkey.Parser.Routines
import Monkey.Parser.State
import Monkey.Parser.Statement
import Monkey.Parser.Tables
import Monkey.Parser.Termination
import Monkey.Scanner.Basic
import Monkey.Scanner.Cursor
import Monkey.Scanner.Pattern
import Monkey.Text.Blank
import Monkey.Text.Bytes
import Monkey.Text.Decimal
import Monkey.Text.ExtendingMark
import Monkey.Text.Line
import Monkey.Text.Quoted
import Monkey.Text.Ranges
import Monkey.Text.Unprintable
import Monkey.Token.Basic
import Monkey.Token.Kind
import Monkey.Token.Source
import Monkey.Tree.Basic
import Monkey.Tree.Equality
import Monkey.Tree.Printer
import Monkey.Proofs.Frame
import Monkey.Proofs.Grammar
import Monkey.Proofs.Input
import Monkey.Proofs.Reading
import Monkey.Proofs.Soundness
import Monkey.Proofs.Completeness
import Monkey.Proofs.Chains
import Monkey.Proofs.RoundTrip
import Monkey.Proofs.Height
import Monkey.Proofs.FixedPoint
import Monkey.Proofs.Strictness
import Monkey.Proofs.Accounting
import Monkey.Proofs.Coupling
import Monkey.Proofs.Invariant
import Monkey.Proofs.Upcoming
import Monkey.Proofs.Mirror
import Monkey.Proofs.Locality
import Monkey.Proofs.Order
import Monkey.Proofs.Composition
import Monkey.Proofs.Layout
import Monkey.Proofs.Seams
import Monkey.Proofs.Truth
import Monkey.Proofs.Openings
import Monkey.Proofs.Recovery
import Monkey.Proofs.Renaming
import Monkey.Proofs.Calls
import Monkey.Proofs.Diary
import Monkey.Proofs.Nesting
import Monkey.Proofs.Progress
import Monkey.Proofs.Rounds
import Monkey.Proofs.LongestMatch
import Monkey.Proofs.WellFormed
import Monkey.Proofs.Integers
import Monkey.Proofs.EndOfInput
import Monkey.Proofs.UniqueReading
import Monkey.Proofs.Lines
import Monkey.Proofs.Boundaries
import Monkey.Proofs.Carets
