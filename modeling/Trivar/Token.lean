import Trivar.Operator
import Trivar.Variable
import Trivar.Text.Quoted

/-!
Tokens of bracketed notation: brackets, operations, numbers and variables, each
with the place of its first character.
-/

namespace Trivar

inductive Lexeme
  | opening
  | closing
  | operator (o : Operator)
  | digits (text : String)
  | variable (v : Variable)
  deriving DecidableEq

namespace Lexeme

def text : Lexeme → String
  | .opening => "("
  | .closing => ")"
  | .operator o => o.symbol
  | .digits text => text
  | .variable v => v.name

/-- The name of the kind of a lexeme in traces. -/
def label : Lexeme → String
  | .opening => "LPAREN"
  | .closing => "RPAREN"
  | .operator _ => "OP"
  | .digits _ => "NUM"
  | .variable _ => "VAR"

end Lexeme

structure Token where
  lexeme : Lexeme
  position : Nat
  deriving DecidableEq

namespace Token

/-- The label of the mark that traces show after the last token. -/
def endLabel : String := "$end"

def traceEntry (label text : String) (position : Nat) : String :=
  "Token (" ++ Text.quoted label ++ ", " ++ Text.quoted text ++ ", " ++
    Decimal.integer position ++ ")"

/-- The tokens of a text of the given length, with the mark of its end. -/
def trace (tokens : List Token) (length : Nat) : String :=
  let entries := tokens.map fun t => traceEntry t.lexeme.label t.lexeme.text t.position
  "[" ++ ", ".intercalate (entries ++ [traceEntry endLabel "" length]) ++ "]"

end Token

end Trivar
