import Trivar.Flat
import Trivar.Operator.Numeric

/-!
Closures: functions from points to numbers, built directly from text and from
one another. There is no tree behind them. Besides arithmetic they know the
positions of extrema and the constants one and two, which are integers.

Closures may be nested to any depth: calling one calls those it is built from,
and a limit on how deep calls may go is no part of the model.
-/

namespace Trivar

abbrev Closure := Point → Except EvalError Number

namespace Closure

def constant (n : Number) : Closure := fun _ => .ok n

def coordinate (v : Variable) : Closure := fun p => .ok (p.at v)

/-- What is reported about a name that is not that of a variable. -/
def unknownName : String := "tuple.index(x): x not in tuple"

def ofName (name : String) : Except String Closure :=
  match Variable.ofName? name with
  | none => .error unknownName
  | some v => .ok (coordinate v)

def ofName? (name : String) : Option Closure := (ofName name).toOption

theorem ofName?_eq (name : String) : ofName? name = (Variable.ofName? name).map coordinate := by
  rw [ofName?, ofName]
  cases Variable.ofName? name <;> rfl

/-- A fold from the left. Every argument is combined as soon as it is evaluated. -/
def foldLeft (f : Number → Number → Except EvalError Number) : List Closure → Closure
  | [], _ => .error .noOperands
  | a :: as, p => do
    let start ← a p
    as.foldlM (fun value b => do f value (← b p)) start

def add : List Closure → Closure := foldLeft Number.add

def subtract : List Closure → Closure := foldLeft Number.sub

def multiply : List Closure → Closure := foldLeft Number.mul

def divide : List Closure → Closure := foldLeft Number.div

def negate (a : Closure) : Closure := fun p => do return (← a p).neg

/-- The position of the first extremum; a later number wins only when it is strictly better. -/
def extremum? (better : Number → Number → Bool) : List Number → Option Nat
  | [] => none
  | n :: ns =>
    let keepBetter := fun (best candidate : Number × Nat) =>
      if better candidate.1 best.1 then candidate else best
    some ((ns.zipIdx 1).foldl keepBetter (n, 0)).2

/-- Evaluates all arguments and returns the position of their extremum. -/
def argExtremum (better : Number → Number → Bool) (args : List Closure) : Closure := fun p => do
  let numbers ← args.mapM (· p)
  match extremum? better numbers with
  | none => .error .noOperands
  | some position => return .int position

def argMin : List Closure → Closure := argExtremum Number.lt

def argMax : List Closure → Closure := argExtremum fun a b => b.lt a

def one : Closure := constant (.int 1)

def two : Closure := constant (.int 2)

def operation? : String → Option (Flat.Operation Closure)
  | "+" => some ⟨2, fun args => add args.toList⟩
  | "-" => some ⟨2, fun args => subtract args.toList⟩
  | "*" => some ⟨2, fun args => multiply args.toList⟩
  | "/" => some ⟨2, fun args => divide args.toList⟩
  | "negate" => some ⟨1, fun (.cons a .nil) => negate a⟩
  | "argMin3" => some ⟨3, fun args => argMin args.toList⟩
  | "argMax3" => some ⟨3, fun args => argMax args.toList⟩
  | "argMin5" => some ⟨5, fun args => argMin args.toList⟩
  | "argMax5" => some ⟨5, fun args => argMax args.toList⟩
  | _ => none

def operand? : String → Option Closure
  | "one" => some one
  | "two" => some two
  | name => ofName? name

/-- Operations and operands as closures. Literals are doubles. -/
def vocabulary : Flat.Vocabulary Closure where
  operation? := operation?
  literal n := constant (.double (.ofInt n))
  operand? := operand?

def parse (text : String) : Except ParseError Closure := Flat.parse vocabulary text

end Closure

end Trivar
