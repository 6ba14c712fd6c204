import Trivar.Expr
import Trivar.Operator.Numeric

/-!
Walking a tree in post-order with two explicit stacks, one of tasks and one of
values. The visit of a leaf pushes its value; the visit of a node schedules its
arguments from left to right and then a task that takes their values off the
stack and pushes the value of the node.

The functions at leaves and nodes may have effects. Whatever they are, the loop
has the effects of structural recursion and leaves the value of the tree on top
of what was on the stack (`perform_visit`). In a walk they may fail, and the
first failure ends the walk, which is structural recursion, too
(`walk_eq_foldM`).

The value of an expression at a point comes from a walk. A literal is a double,
whatever its size; a variable is the coordinate of the point, integer or double.
-/

namespace Trivar

namespace Expr

inductive Task
  | visit (e : Expr)
  | combine (o : Operator) (args : Tuple Expr o.arity)

/-- The number of tasks that a visit leads to, itself included. -/
def visits : Expr → Nat := fold (fun _ => 1) fun _ _ counts => 2 + counts.sum

def Task.cost : Task → Nat
  | .visit e => e.visits
  | .combine _ _ => 1

def Task.totalCost (tasks : List Task) : Nat := tasks.foldr (fun t n => t.cost + n) 0

theorem totalCost_visit_append {n : Nat} (args : Tuple Expr n) (tasks : List Task) :
    Task.totalCost (args.toList.map Task.visit ++ tasks) =
      (args.map visits).sum + Task.totalCost tasks := by
  induction args with
  | nil => simp [Tuple.toList, Tuple.map, Tuple.sum]
  | cons e es ih =>
    simp only [Task.totalCost, Tuple.toList, Tuple.map, Tuple.sum, List.map_cons,
      List.cons_append, List.foldr_cons, Task.cost] at ih ⊢
    omega

section

variable {m : Type → Type} [Monad m] {α : Type}

/-- The `n` newest values and those below them. A cut counted from the end of the stack takes
everything if it is to take nothing. -/
def newest (n : Nat) (values : List α) : List α × List α :=
  if n = 0 then (values, []) else (values.take n, values.drop n)

theorem newest_arity (o : Operator) (values : List α) :
    newest o.arity values = (values.take o.arity, values.drop o.arity) :=
  if_neg (Nat.ne_of_gt o.one_le_arity)

variable (leaf : Atom → m α) (node : (o : Operator) → Tuple Expr o.arity → List α → m α)

/-- Carries out the tasks and returns the values on the stack, the newest one first. -/
@[specialize] def perform : List Task → List α → m (List α)
  | [], values => return values
  | .visit (.atom a) :: tasks, values => do
    let value ← leaf a
    perform tasks (value :: values)
  | .visit (.apply o args) :: tasks, values =>
    perform (args.toList.map .visit ++ .combine o args :: tasks) values
  | .combine o args :: tasks, values => do
    let (operands, rest) := newest o.arity values
    let value ← node o args operands.reverse
    perform tasks (value :: rest)
termination_by tasks => Task.totalCost tasks
decreasing_by
  · simp [Task.totalCost, Task.cost, visits]
  · rw [totalCost_visit_append]
    simp only [Task.totalCost, List.foldr_cons, Task.cost]
    rw [visits, fold_apply]
    omega
  · simp [Task.totalCost, Task.cost]

theorem perform_combine (o : Operator) (args : Tuple Expr o.arity) (tasks : List Task)
    (values : List α) :
    perform leaf node (.combine o args :: tasks) values =
      node o args (values.take o.arity).reverse >>= fun value =>
        perform leaf node tasks (value :: values.drop o.arity) := by
  rw [perform, newest_arity]

/-- Structural recursion, which carries out the effects in post-order. -/
def recurse : Expr → m α :=
  fold leaf fun o args results => do
    let values ← results.sequence
    node o args values.toList

theorem recurse_apply (o : Operator) (args : Tuple Expr o.arity) :
    recurse leaf node (.apply o args) =
      (args.map (recurse leaf node)).sequence >>= fun values => node o args values.toList :=
  fold_apply ..

theorem perform_visit_each [LawfulMonad m] {n : Nat} (args : Tuple Expr n)
    (h : ∀ e ∈ args.toList, ∀ tasks values, perform leaf node (.visit e :: tasks) values =
      recurse leaf node e >>= fun value => perform leaf node tasks (value :: values))
    (tasks : List Task) (values : List α) :
    perform leaf node (args.toList.map .visit ++ tasks) values =
      (args.map (recurse leaf node)).sequence >>= fun found =>
        perform leaf node tasks (found.toList.reverse ++ values) := by
  induction args generalizing values with
  | nil => simp [Tuple.toList, Tuple.map, Tuple.sequence]
  | cons e es ih =>
      rw [Tuple.toList, List.forall_mem_cons] at h
      rw [Tuple.toList, List.map_cons, List.cons_append, h.1, Tuple.map, Tuple.sequence]
      simp only [bind_assoc, pure_bind, ih h.2, Tuple.toList, List.reverse_cons,
        List.append_assoc, List.singleton_append]

/-- The visit of a tree leaves exactly its value on top of what was there. -/
theorem perform_visit [LawfulMonad m] (e : Expr) (tasks : List Task) (values : List α) :
    perform leaf node (.visit e :: tasks) values =
      recurse leaf node e >>= fun value => perform leaf node tasks (value :: values) := by
  induction e using induct generalizing tasks values with
  | atom a => rw [perform, recurse, fold_atom]
  | apply o args ih =>
      rw [perform, perform_visit_each leaf node args ih, recurse_apply, bind_assoc]
      refine bind_congr fun found => ?_
      -- The values found lie above those that wait for other operations, and are as many as the
      -- operation takes.
      have hlength : found.toList.reverse.length = o.arity := by simp
      rw [perform_combine, List.take_left' hlength, List.drop_left' hlength, List.reverse_reverse]

theorem perform_visit_alone [LawfulMonad m] (e : Expr) :
    perform leaf node [.visit e] [] = (fun value => [value]) <$> recurse leaf node e := by
  rw [perform_visit, map_eq_pure_bind]
  simp only [perform]

end

/-! ### Functions that may fail -/

section

variable {α ε : Type} (leaf : Atom → Except ε α)
  (node : (o : Operator) → Tuple Expr o.arity → List α → Except ε α)

def run : List Task → List α → Except ε (List α) := perform leaf node

/-- The first failure in post-order is the outcome. -/
def foldM : Expr → Except ε α := recurse leaf node

theorem foldM_apply (o : Operator) (args : Tuple Expr o.arity) :
    foldM leaf node (.apply o args) =
      (args.toList.map (foldM leaf node)).mapM id >>= node o args := by
  rw [← Tuple.toList_map, Tuple.mapM_id_toList, bind_map_left]
  exact recurse_apply leaf node o args

theorem run_visit (e : Expr) :
    run leaf node [.visit e] [] = (foldM leaf node e).map fun value => [value] :=
  perform_visit_alone leaf node e

theorem run_visit_eq_ok {e : Expr} {values : List α}
    (h : run leaf node [.visit e] [] = .ok values) : ∃ value, values = [value] := by
  rw [run_visit] at h
  cases hvalue : foldM leaf node e with
  | error err =>
    rw [hvalue] at h
    cases h
  | ok value =>
    rw [hvalue] at h
    cases h
    exact ⟨value, rfl⟩

/-- The value of a tree. -/
def walk (e : Expr) : Except ε α :=
  match h : run leaf node [.visit e] [] with
  | .error err => .error err
  | .ok values => .ok <| values.head <| by
      obtain ⟨value, rfl⟩ := run_visit_eq_ok leaf node h
      simp

theorem walk_eq_foldM (e : Expr) : walk leaf node e = foldM leaf node e := by
  have hrun := run_visit leaf node e
  unfold walk
  split
  · rename_i err h
    rw [hrun] at h
    cases hvalue : foldM leaf node e with
    | error e =>
      rw [hvalue] at h
      cases h
      rfl
    | ok value =>
      rw [hvalue] at h
      cases h
  · rename_i values h
    rw [hrun] at h
    cases hvalue : foldM leaf node e with
    | error e =>
      rw [hvalue] at h
      cases h
    | ok value =>
      rw [hvalue] at h
      cases h
      rfl

end

end Expr

/-! ### Values at a point -/

def Atom.value (p : Point) : Atom → Number
  | .number n => .double n.saturated
  | .variable v => p.at v

def Expr.evaluate (p : Point) : Expr → Except EvalError Number :=
  walk (fun a => .ok (a.value p)) fun o _ operands => o.apply operands

namespace Expr

@[simp] theorem evaluate_atom (p : Point) (a : Atom) : evaluate p (.atom a) = .ok (a.value p) := by
  rw [evaluate, walk_eq_foldM, foldM, recurse, fold_atom]

theorem evaluate_apply (p : Point) (o : Operator) (args : Tuple Expr o.arity) :
    evaluate p (.apply o args) =
      (args.toList.map (evaluate p)).mapM id >>= fun operands => o.apply operands := by
  have h : evaluate p = foldM (fun a => .ok (a.value p)) fun o _ operands => o.apply operands :=
    funext fun e => walk_eq_foldM _ _ e
  rw [h, foldM_apply]

end Expr

end Trivar
