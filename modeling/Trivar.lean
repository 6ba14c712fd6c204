import Trivar.Session
import Trivar.Closure
import Trivar.Exact
import Trivar.Expr.Measure
import Trivar.Proofs.PartialDerivative
import Trivar.Proofs.MixedPartials
import Trivar.Proofs.Building
import Trivar.Proofs.Memoisation
import Trivar.Proofs.Registers
import Trivar.Proofs.Construction
import Trivar.Proofs.BracketedRoundTrip
import Trivar.Proofs.FlatRoundTrip
import Trivar.Proofs.Descent
import Trivar.Proofs.Located
import Trivar.Proofs.RepeatedDerivative
import Trivar.Proofs.Vocabulary
import Trivar.Proofs.Expansion
import Trivar.Proofs.Overflow
import Trivar.Proofs.Unbracketed
import Trivar.Proofs.StackMachine
import Trivar.Proofs.Translation
import Trivar.Proofs.Counting
import Trivar.Proofs.Lossless
import Trivar.Proofs.Extrema
import Trivar.Proofs.ClosureFold
import Trivar.Proofs.ResultKind
import Trivar.Proofs.Validation
import Trivar.Proofs.Unambiguous
import Trivar.Proofs.FreeVariables
import Trivar.Proofs.Conversion
import Trivar.Proofs.Traversal
import Trivar.Proofs.Spacing
import Trivar.Proofs.Cursor
