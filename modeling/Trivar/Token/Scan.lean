import Trivar.Token
import Trivar.ParseError
import Trivar.Text.Character

/-!
Scanning bracketed notation. Brackets and the four signs are tokens of one
character, digits form the longest possible number, and letters the longest
possible word. A word takes the digits after it only when it names an operation
together with them; the letters alone name an operation or a variable. Only the
ordinary space may stand between tokens.
-/

namespace Trivar.Token

/-- ASCII letters. -/
def isLetter (c : Char) : Bool := c.isAlpha

/-- The lexeme of a word that starts with `letters` and goes on with `digits`, and the number of
characters that it has. -/
def wordLexeme (letters digits : List Char) : Except Fault (Lexeme × Nat) :=
  match Operator.ofWord? (String.ofList (letters ++ digits)) with
  | some o => .ok (.operator o, letters.length + digits.length)
  | none =>
    match Operator.ofWord? (String.ofList letters), Variable.ofName? (String.ofList letters) with
    | some o, _ => .ok (.operator o, letters.length)
    | none, some v => .ok (.variable v, letters.length)
    | none, none => .error (.invalidOperationToken (String.ofList letters))

/-- The lexeme that starts with the character `c` before `rest`, and the number of characters
that it has. -/
def firstLexeme (c : Char) (rest : List Char) : Except Fault (Lexeme × Nat) :=
  match c with
  | '(' => .ok (.opening, 1)
  | ')' => .ok (.closing, 1)
  | '+' => .ok (.operator .add, 1)
  | '-' => .ok (.operator .sub, 1)
  | '*' => .ok (.operator .mul, 1)
  | '/' => .ok (.operator .div, 1)
  | c =>
    if Text.isDigit c then
      let digits := c :: rest.takeWhile Text.isDigit
      .ok (.digits (String.ofList digits), digits.length)
    else if isLetter c then
      let letters := c :: rest.takeWhile isLetter
      wordLexeme letters ((rest.dropWhile isLetter).takeWhile Text.isDigit)
    else .error (.unexpectedCharacter (some (String.singleton c)))

/-- The tokens of a text whose first character has the given place. -/
def scanFrom (position : Nat) : List Char → Except ParseError (List Token)
  | [] => .ok []
  | c :: rest =>
    if c = ' ' then scanFrom (position + 1) rest
    else
      match firstLexeme c rest with
      | .error fault => .error ⟨fault, some position⟩
      | .ok (lexeme, length) =>
        (scanFrom (position + length) (rest.drop (length - 1))).map (⟨lexeme, position⟩ :: ·)
termination_by text => text.length

def scan (text : String) : Except ParseError (List Token) := scanFrom 0 text.toList

end Trivar.Token
