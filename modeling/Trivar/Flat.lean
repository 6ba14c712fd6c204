import Trivar.Expr
import Trivar.Literal
import Trivar.Text.Character

/-!
Reading flat notation, reversed Polish without brackets. Words are separated by
blanks. Each word is an operation, which takes its arguments off a stack, an
integer, or the name of an operand. What these mean is up to a vocabulary; the
vocabulary of expressions builds trees.
-/

namespace Trivar.Flat

structure Word where
  text : String
  position : Nat
  deriving DecidableEq

/-- The words of a text whose first character has the given place. -/
def wordsFrom (position : Nat) : List Char → List Word
  | [] => []
  | c :: rest =>
    if Text.isBlank c then wordsFrom (position + 1) rest
    else
      let tail := rest.takeWhile (!Text.isBlank ·)
      ⟨String.ofList (c :: tail), position⟩ ::
        wordsFrom (position + 1 + tail.length) (rest.drop tail.length)
termination_by text => text.length

def words (text : String) : List Word := wordsFrom 0 text.toList

structure Operation (α : Type) where
  arity : Nat
  apply : Tuple α arity → α

structure Vocabulary (α : Type) where
  operation? : String → Option (Operation α)
  literal : Int → α
  operand? : String → Option α

/-- Digits, with a minus sign before them or without. -/
def isInteger : List Char → Bool
  | '-' :: cs => !cs.isEmpty && cs.all Text.isDigit
  | cs => !cs.isEmpty && cs.all Text.isDigit

section

variable {α : Type} (vocabulary : Vocabulary α)

/-- Reads one word. The newest value is the first one on the stack. -/
def step (stack : List α) (word : Word) : Except ParseError (List α) :=
  match vocabulary.operation? word.text with
  | some operation =>
    match Tuple.ofList? operation.arity (stack.take operation.arity).reverse with
    | none =>
      .error ⟨.stackUnderflow word.text operation.arity stack.length, some word.position⟩
    | some args => .ok (operation.apply args :: stack.drop operation.arity)
  | none =>
    if isInteger word.text.toList then
      match Literal.read word.text with
      | .error fault => .error ⟨fault, some word.position⟩
      | .ok n => .ok (vocabulary.literal n :: stack)
    else
      match vocabulary.operand? word.text with
      | none => .error ⟨.invalidVariableName word.text, some word.position⟩
      | some value => .ok (value :: stack)

def parse (text : String) : Except ParseError α :=
  if text.toList.all Text.isBlank then .error ⟨.emptyExpression, none⟩
  else do
    match ← (words text).foldlM (step vocabulary) [] with
    | [value] => return value
    | stack => .error ⟨.malformedFlatExpression stack.length, none⟩

end

/-- Operations and variables as trees. -/
def expressions : Vocabulary Expr where
  operation? word := (Operator.ofSymbol? word).map fun o => ⟨o.arity, .apply o⟩
  literal n := .integer n
  operand? word := (Variable.ofName? word).map fun v => .atom (.variable v)

def parseExpr (text : String) : Except ParseError Expr := parse expressions text

end Trivar.Flat
