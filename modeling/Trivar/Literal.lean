import Trivar.ParseError
import Trivar.Text.Character

/-!
Integer literals: digits of any script with an optional sign, blanks around
them and single underscores between digits. The number of characters is
limited; minus signs at the front do not count.
-/

namespace Trivar.Literal

/-- Digits with the single underscores between them removed. -/
def joinedDigits? : List Char → Option (List Char)
  | [] => none
  | [c] => if Text.isDigit c then some [c] else none
  | c :: '_' :: cs => if Text.isDigit c then (joinedDigits? cs).map (c :: ·) else none
  | c :: cs => if Text.isDigit c then (joinedDigits? cs).map (c :: ·) else none

def withoutPadding (text : List Char) : List Char :=
  ((text.dropWhile Text.isPadding).reverse.dropWhile Text.isPadding).reverse

def signedInteger? : List Char → Option Int
  | '-' :: cs => (joinedDigits? cs).map fun digits => -(Text.digitsValue digits : Int)
  | '+' :: cs => (joinedDigits? cs).map fun digits => (Text.digitsValue digits : Int)
  | cs => (joinedDigits? cs).map fun digits => (Text.digitsValue digits : Int)

/-- The value of a literal. A text that is too long is a fault whatever it consists of. -/
def read (text : String) : Except Fault Int :=
  if maxLiteralDigits < (text.toList.dropWhile (· = '-')).length then
    .error (.invalidNumber text)
  else
    match signedInteger? (withoutPadding text.toList) with
    | some n => .ok n
    | none => .error (.invalidNumber text)

end Trivar.Literal
