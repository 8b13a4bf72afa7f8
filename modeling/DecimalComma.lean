import DecimalComma.Main
import DecimalComma.Proofs.Grammar.Automaton
import DecimalComma.Proofs.Double.Encoding
import DecimalComma.Proofs.Double.Rounding
import DecimalComma.Proofs.Decimal.Value
import DecimalComma.Proofs.Token.Boundary
import DecimalComma.Proofs.Grammar.Reading
import DecimalComma.Proofs.Decimal.Shortest
import DecimalComma.Proofs.Decimal.Layout
import DecimalComma.Proofs.Expr.Literal
import DecimalComma.Proofs.Expr.Rereading
import DecimalComma.Proofs.Expr.Rendering
import DecimalComma.Proofs.Grammar.Viable
import DecimalComma.Proofs.Diagnostic.Culprit
import DecimalComma.Proofs.Decimal.Numeral
import DecimalComma.Proofs.Json.Scalar
import DecimalComma.Proofs.Json.Roundtrip
import DecimalComma.Proofs.Expr.Document
import DecimalComma.Proofs.Grammar.Relocation
import DecimalComma.Proofs.Grammar.Grouping
import DecimalComma.Proofs.Arithmetic
import DecimalComma.Proofs.Expr.Faults
import DecimalComma.Proofs.Command.Arguments
import DecimalComma.Proofs.Command.Independence
import DecimalComma.Proofs.Decimal.Canonical
import DecimalComma.Proofs.Double.Nearest
import DecimalComma.Proofs.Token.Value
import DecimalComma.Proofs.Token.Concatenation
import DecimalComma.Proofs.Grammar.Continuation
import DecimalComma.Proofs.Decimal.Typed
import DecimalComma.Proofs.Expr.Unambiguous
import DecimalComma.Proofs.Decimal.Agreement
import DecimalComma.Proofs.Expr.Propagation
import DecimalComma.Proofs.Command.Options
import DecimalComma.Proofs.Command.Order
import DecimalComma.Proofs.Command.Modes
import DecimalComma.Proofs.Command.LeadingDash
import DecimalComma.Proofs.Command.Listing
import DecimalComma.Proofs.Decimal.Significant
import DecimalComma.Proofs.Token.Progress
import DecimalComma.Proofs.Session
