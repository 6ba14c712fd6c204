import Trivar.Tuple

/-!
The operations of expressions. Sums, differences, products, quotients and
negation are primitive. The sum of reciprocals and the harmonic mean are
composite: each stands for a combination of primitive operations, and comes
for two to five arguments.

`Operator.combine` says what an operation does in any structure that has the
primitive ones. In expressions it gives the expansion of a composite operation,
in exact numbers its value.
-/

namespace Trivar

/-- A composite operation with `extra` arguments more than two. -/
inductive Operator
  | add
  | sub
  | mul
  | div
  | negate
  | reciprocalSum (extra : Fin 4)
  | harmonicMean (extra : Fin 4)
  deriving DecidableEq

/-- The primitive operations and the natural numbers as constants. -/
class Arithmetic (α : Type) extends Add α, Sub α, Mul α, Div α, Neg α, NatCast α

namespace Operator

@[reducible] def arity : Operator → Nat
  | .add | .sub | .mul | .div => 2
  | .negate => 1
  | .reciprocalSum extra | .harmonicMean extra => extra + 2

def symbol : Operator → String
  | .add => "+"
  | .sub => "-"
  | .mul => "*"
  | .div => "/"
  | .negate => "negate"
  | .reciprocalSum extra => "sumrec" ++ countText extra
  | .harmonicMean extra => "hmean" ++ countText extra
where
  countText : Fin 4 → String
    | 0 => "2"
    | 1 => "3"
    | 2 => "4"
    | 3 => "5"

/-- All operations, in the order in which they are listed. -/
def all : List Operator :=
  [.add, .sub, .mul, .div, .negate,
    .reciprocalSum 0, .reciprocalSum 1, .reciprocalSum 2, .reciprocalSum 3,
    .harmonicMean 0, .harmonicMean 1, .harmonicMean 2, .harmonicMean 3]

def ofSymbol? (symbol : String) : Option Operator := all.find? (·.symbol = symbol)

def isComposite : Operator → Bool
  | .reciprocalSum _ | .harmonicMean _ => true
  | _ => false

/-- Operations that are written as a word, not as a sign. -/
def isWord : Operator → Bool
  | .add | .sub | .mul | .div => false
  | _ => true

/-- The operation that a word names. -/
def ofWord? (word : String) : Option Operator := (ofSymbol? word).filter isWord

theorem mem_all (o : Operator) : o ∈ all := by
  cases o with
  | reciprocalSum extra => revert extra; decide
  | harmonicMean extra => revert extra; decide
  | _ => decide

theorem forall_of_all {P : Operator → Prop} (h : ∀ o ∈ all, P o) (o : Operator) : P o :=
  h o (mem_all o)

theorem ofSymbol?_eq_some_iff {s : String} {o : Operator} :
    ofSymbol? s = some o ↔ o.symbol = s := by
  constructor
  · intro h
    simpa using List.find?_some h
  · rintro rfl
    cases o with
    | reciprocalSum extra => revert extra; decide
    | harmonicMean extra => revert extra; decide
    | _ => decide

theorem symbol_of_ofWord? {word : String} {o : Operator} (h : ofWord? word = some o) :
    o.symbol = word :=
  ofSymbol?_eq_some_iff.1 (Option.filter_eq_some_iff.1 h).1

theorem one_le_arity (o : Operator) : 1 ≤ o.arity := by
  cases o <;> simp [arity]

section

variable {α : Type} [Arithmetic α]

/-- `1 / a₁ + 1 / a₂ + …`, associated to the left. -/
def sumOfReciprocals {n : Nat} : Tuple α (n + 1) → α
  | .cons a as => as.toList.foldl (fun sum b => sum + ((1 : Nat) : α) / b) (((1 : Nat) : α) / a)

def combine : (o : Operator) → Tuple α o.arity → α
  | .add, .cons a (.cons b .nil) => a + b
  | .sub, .cons a (.cons b .nil) => a - b
  | .mul, .cons a (.cons b .nil) => a * b
  | .div, .cons a (.cons b .nil) => a / b
  | .negate, .cons a .nil => -a
  | .reciprocalSum _, args => sumOfReciprocals args
  | .harmonicMean extra, args => ((extra.val + 2 : Nat) : α) / sumOfReciprocals args

end

end Operator

end Trivar
