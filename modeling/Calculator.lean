import Calculator.Main
import Calculator.Proofs.Expr.Acceptance
import Calculator.Proofs.Expr.Blame
import Calculator.Proofs.Expr.Locality
import Calculator.Proofs.Expr.Names
import Calculator.Proofs.Expr.Newlines
import Calculator.Proofs.Expr.RoundTrip
import Calculator.Proofs.Infix.Evaluable
import Calculator.Proofs.Infix.Reduction
import Calculator.Proofs.Session.Failures
import Calculator.Proofs.Token.Respacing
import Calculator.Proofs.Token.Tiling
import Calculator.Proofs.CommandLine.Sources
import Calculator.Proofs.Expr.Visits
import Calculator.Proofs.Binary64.Rounding
import Calculator.Proofs.Numeral.Exponent
import Calculator.Proofs.Infix.Order
import Calculator.Proofs.Infix.Groups
import Calculator.Proofs.Infix.Parentheses
import Calculator.Proofs.Infix.Balance
import Calculator.Proofs.Expr.Faults
import Calculator.Proofs.Expr.Calls
import Calculator.Proofs.Binary64.Gcd
import Calculator.Proofs.Numeral.Literals
import Calculator.Proofs.Binary64.Euclid
import Calculator.Proofs.Binary64.Signs
import Calculator.Proofs.Binary64.Bitwise
import Calculator.Proofs.Token.Signs
import Calculator.Proofs.Lines
import Calculator.Proofs.CommandLine.Interrupts
import Calculator.Proofs.Session.Highlights
