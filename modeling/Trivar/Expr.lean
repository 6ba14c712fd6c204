import Trivar.Operator
import Trivar.Variable

/-!
Expressions: trees whose leaves are numbers and variables and whose inner nodes
are operations with exactly as many arguments as they take.

`Expr.fold` is structural recursion over a tree, and `Expr.induct` the matching
induction. Expressions have the primitive operations themselves, so a sum of
two expressions is written `a + b`.

`Expr.sameAs` compares trees up to the kind of their literals: the same
structure, operations and variables, and numbers that are equal by value. The
integer one equals the double one, and both zeros are equal.
-/

namespace Trivar

inductive Atom
  | number (n : Number)
  | variable (v : Variable)
  deriving DecidableEq

def Atom.sameAs : Atom → Atom → Bool
  | .number m, .number n => m.sameValue n
  | .variable v, .variable w => v = w
  | _, _ => false

inductive Expr
  | atom (a : Atom)
  | apply (o : Operator) (args : Tuple Expr o.arity)

namespace Expr

def integer (n : Int) : Expr := .atom (.number (.int n))

instance : Arithmetic Expr where
  add a b := .apply .add (.cons a (.cons b .nil))
  sub a b := .apply .sub (.cons a (.cons b .nil))
  mul a b := .apply .mul (.cons a (.cons b .nil))
  div a b := .apply .div (.cons a (.cons b .nil))
  neg a := .apply .negate (.cons a .nil)
  natCast n := integer n

/-- The operation on a list of arguments, if there are as many as it takes. -/
def ofArgs? (o : Operator) (args : List Expr) : Option Expr :=
  (Tuple.ofList? o.arity args).map (.apply o)

section

variable {α : Type} (leaf : Atom → α)
  (node : (o : Operator) → Tuple Expr o.arity → Tuple α o.arity → α)

mutual

/-- Replaces leaves and nodes from the bottom up. A node sees its own arguments and the
results for them. -/
def fold : Expr → α
  | .atom a => leaf a
  | .apply o args => node o args (foldEach args)

def foldEach {n : Nat} : Tuple Expr n → Tuple α n
  | .nil => .nil
  | .cons e es => .cons (fold e) (foldEach es)

end

theorem foldEach_eq_map {n : Nat} (args : Tuple Expr n) :
    foldEach leaf node args = args.map (fold leaf node) := by
  induction args with
  | nil => rfl
  | cons e es ih => simp [foldEach, Tuple.map, ih]

@[simp] theorem fold_atom (a : Atom) : fold leaf node (.atom a) = leaf a := rfl

@[simp] theorem fold_apply (o : Operator) (args : Tuple Expr o.arity) :
    fold leaf node (.apply o args) = node o args (args.map (fold leaf node)) := by
  rw [fold, foldEach_eq_map]

end

mutual

theorem induct {P : Expr → Prop} (atom : ∀ a, P (.atom a))
    (apply : ∀ o args, (∀ e ∈ args.toList, P e) → P (.apply o args)) : ∀ e, P e
  | .atom a => atom a
  | .apply o args => apply o args (inductEach atom apply args)
termination_by structural e => e

theorem inductEach {P : Expr → Prop} (atom : ∀ a, P (.atom a))
    (apply : ∀ o args, (∀ e ∈ args.toList, P e) → P (.apply o args)) {n : Nat} :
    ∀ args : Tuple Expr n, ∀ e ∈ args.toList, P e
  | .nil, _, h => nomatch h
  | .cons e es, _, h =>
    (List.mem_cons.1 h).elim (fun h => h ▸ induct atom apply e)
      (inductEach atom apply es _)
termination_by structural args => args

end

mutual

def sameAs : Expr → Expr → Bool
  | .atom a, .atom b => a.sameAs b
  | .apply o args, .apply p brgs => o = p && sameAsEach args brgs
  | _, _ => false

def sameAsEach {m n : Nat} : Tuple Expr m → Tuple Expr n → Bool
  | .nil, .nil => true
  | .cons a as, .cons b bs => sameAs a b && sameAsEach as bs
  | _, _ => false

end

end Expr

end Trivar
