import Trivar.Variable
import Trivar.Text.Quoted

/-!
The faults of texts and trees. A parse error is a fault together with the place
in the text where it was found, counted in characters from zero; faults of a
text as a whole and of trees that were not read from a text have no place.
Places and counts are integers: those found in a text are never negative, but an
error stated by hand, to see its message, may have any.
-/

namespace Trivar

inductive Fault
  | emptyExpression
  | unexpectedCharacter (found : Option String)
  | invalidOperationToken (word : String)
  | invalidToken (expected found : String)
  | missingClosingBracket (found : String)
  | invalidOperation (found : String) (explanation : Option String)
  | arityMismatch (symbol : String) (expected actual : Int)
  | stackUnderflow (symbol : String) (expected actual : Int)
  | malformedFlatExpression (count : Int)
  | invalidNumber (text : String)
  | invalidVariableName (name : String)
  deriving DecidableEq

/-- An operation that does not exist. -/
def Fault.unknownOperation (symbol : String) : Fault :=
  .invalidOperation symbol (some ("unknown operation " ++ Text.quoted symbol))

structure ParseError where
  fault : Fault
  position : Option Int
  deriving DecidableEq

/-- The largest number of digits of an integer literal. -/
def maxLiteralDigits : Nat := 4000

namespace ParseError

def placeText : Option Int → String
  | some position => Decimal.integer position
  | none => "None"

/-- A count with its noun, in the plural unless the count is one. -/
def counted (count : Int) (noun : String) : String :=
  Decimal.integer count ++ " " ++ noun ++ (if count = 1 then "" else "s")

/-- The message names the place even when there is none; only the count of arguments leaves it
out. An empty explanation counts as missing. -/
def message (e : ParseError) : String :=
  let place := " at pos " ++ placeText e.position
  match e.fault with
  | .emptyExpression => "string must contain a non-empty arithmetic expression"
  | .unexpectedCharacter none => "unexpected character" ++ place
  | .unexpectedCharacter (some found) => "unexpected character " ++ Text.quoted found ++ place
  | .invalidOperationToken word => "invalid operation token " ++ Text.quoted word ++ place
  | .invalidToken expected found =>
    "invalid token" ++ place ++ ": expected " ++ expected ++ ", but found " ++ found
  | .missingClosingBracket found =>
    "there must be closing bracket (')'), but found " ++ found ++ place
  | .invalidOperation found explanation =>
    match explanation with
    | none | some "" => "invalid operation" ++ place ++ ": " ++ found
    | some explanation => explanation
  | .arityMismatch symbol expected actual =>
    "operation " ++ Text.quoted symbol ++ (if e.position.isSome then place else "") ++ " takes " ++
      counted expected "argument" ++ ", but " ++ Decimal.integer actual ++ " given"
  | .stackUnderflow symbol expected actual =>
    "operation " ++ Text.quoted symbol ++ place ++ " needs " ++ counted expected "operand" ++
      ", but only " ++ Decimal.integer actual ++ " on stack"
  | .malformedFlatExpression count =>
    "expression leaves " ++ Decimal.integer count ++ " values on stack instead of one"
  | .invalidNumber text =>
    "integer literal" ++ place ++ " is too long (" ++ Decimal.integer text.length ++
      " characters, at most " ++ Decimal.integer maxLiteralDigits ++ " digits)"
  | .invalidVariableName name =>
    Text.quoted name ++ " is not a valid variable name, expected one of " ++
      ", ".intercalate (Variable.all.map Variable.name)

end ParseError

end Trivar
