import Cmm.Main
import Cmm.Node.Equality
import Cmm.Parser.Entry
import Cmm.Session.Action
import Cmm.Source
import Cmm.Token.Scanner
import Cmm.Trace
import Cmm.Proofs.Expr.Disambiguation
import Cmm.Proofs.Program.RoundTrip
import Cmm.Proofs.Program.Truncated
import Cmm.Proofs.Token.StringBody
import Cmm.Proofs.Token.Tiling
import Cmm.Proofs.Token.Spelling
import Cmm.Proofs.Token.Scanning
import Cmm.Proofs.Token.Separated
import Cmm.Proofs.Node.WellFormed
import Cmm.Proofs.Program.Image
import Cmm.Proofs.Expr.Checks
import Cmm.Proofs.Program.Checks
import Cmm.Proofs.Node.Height
import Cmm.Proofs.Program.Limits
import Cmm.Proofs.Node.Composite
import Cmm.Proofs.Program.Kinds
import Cmm.Proofs.Session.Concatenation
import Cmm.Proofs.Session.ReadBack
import Cmm.Proofs.Token.Clamping
import Cmm.Proofs.Session.Warnings
import Cmm.Proofs.Command
import Cmm.Proofs.Token.Order
import Cmm.Proofs.Token.Blanking
import Cmm.Proofs.Token.Driven
import Cmm.Proofs.Program.Driven
import Cmm.Proofs.Node.Placement
import Cmm.Proofs.Program.Placement
import Cmm.Proofs.Token.Quotation
import Cmm.Proofs.Node.Misplaced
import Cmm.Proofs.Program.Outline
import Cmm.Proofs.Program.Indentation
import Cmm.Proofs.Program.Lookahead
import Cmm.Proofs.Expr.Precedence
import Cmm.Proofs.Program.Calls
import Cmm.Proofs.Program.Progress
