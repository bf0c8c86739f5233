import SmallJava.Main
import SmallJava.Session
import SmallJava.Proofs.Parser.Violation
import SmallJava.Proofs.Printed
import SmallJava.Proofs.Token.Agreement
import SmallJava.Proofs.Eval.Soundness
import SmallJava.Proofs.Console.Scanner
import SmallJava.Proofs.Console.Limit
import SmallJava.Proofs.Eval.Safety
import SmallJava.Proofs.Eval.Order
import SmallJava.Proofs.Token.Joined
import SmallJava.Proofs.Token.Positions
import SmallJava.Proofs.Console.Ahead
import SmallJava.Proofs.Reports
import SmallJava.Proofs.Parser.Alternatives
import SmallJava.Proofs.Parser.Cursor
import SmallJava.Proofs.Eval.Resolution
import SmallJava.Proofs.Parser.Lines
import SmallJava.Proofs.Parser.Redundancy
import SmallJava.Proofs.Double.TextForm
import SmallJava.Proofs.Double.Integer
import SmallJava.Proofs.Double.Grammar
import SmallJava.Proofs.Store.Lookup
import SmallJava.Proofs.Token.Comment
import SmallJava.Proofs.Eval.Members
import SmallJava.Proofs.Eval.Entry
import SmallJava.Proofs.Eval.Frame
import SmallJava.Proofs.Console.Lines
