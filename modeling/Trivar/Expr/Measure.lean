import Trivar.Expr.Text

/-!
What a tree consists of: the number of its nodes, its depth, its leaves and
operations in order, and the variables that occur in it, which are collected
with a stack of trees.
-/

namespace Trivar.Expr

def size : Expr → Nat := fold (fun _ => 1) fun _ _ sizes => 1 + sizes.sum

theorem size_apply (o : Operator) (args : Tuple Expr o.arity) :
    size (.apply o args) = 1 + (args.map size).sum := by
  rw [size, fold_apply]

/-- Leaves have depth zero. -/
def depth : Expr → Nat := fold (fun _ => 0) fun _ _ depths => 1 + depths.toList.foldl max 0

/-- The leaves from left to right. -/
def leaves : Expr → List Atom := fold ([·]) fun _ _ found => found.toList.flatten

/-- The operations in post-order. -/
def operators : Expr → List Operator := fold (fun _ => []) fun o _ found =>
  found.toList.flatten ++ [o]

def totalSize (stack : List Expr) : Nat := stack.foldr (fun e n => e.size + n) 0

theorem totalSize_cons (e : Expr) (stack : List Expr) :
    totalSize (e :: stack) = e.size + totalSize stack := rfl

theorem totalSize_reverse_append {n : Nat} (args : Tuple Expr n) (stack : List Expr) :
    totalSize (args.toList.reverse ++ stack) = (args.map size).sum + totalSize stack := by
  induction args generalizing stack with
  | nil => simp [Tuple.toList, Tuple.map, Tuple.sum]
  | cons e es ih =>
    rw [Tuple.toList, List.reverse_cons, List.append_assoc, ih, List.singleton_append,
      totalSize_cons, Tuple.map, Tuple.sum]
    omega

/-- The variables in the trees on a stack, added to those found before. The arguments of an
operation go onto the stack with the last one on top. -/
@[semireducible] def collectVariables : List Expr → List Variable → List Variable
  | [], found => found
  | .atom (.variable v) :: stack, found => collectVariables stack (found.insert v)
  | .atom (.number _) :: stack, found => collectVariables stack found
  | .apply _ args :: stack, found => collectVariables (args.toList.reverse ++ stack) found
termination_by stack => totalSize stack
decreasing_by
  · simp [totalSize_cons, size]
  · simp [totalSize_cons, size]
  · rw [totalSize_reverse_append, totalSize_cons, size_apply]
    omega

/-- The variables that occur, in the order of the coordinates. -/
def freeVariables (e : Expr) : List Variable :=
  Variable.all.filter (· ∈ collectVariables [e] [])

end Trivar.Expr
