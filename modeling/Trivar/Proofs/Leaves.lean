import Trivar.Expr.Measure
import Trivar.ParseError
import Trivar.Proofs.Arithmetic

/-!
The trees inside a tree, and properties of all its leaves. A derivative has no
leaves of its own but the integers up to five, so a property that these have
passes from a tree to its derivatives (`forall_leaves_derivative`).
-/

namespace Trivar

def Atom.isIntegral : Atom → Bool
  | .number (.double _) => false
  | _ => true

/-- The number of digits of a literal. A sign is no digit. -/
def Atom.digitCount : Atom → Nat
  | .number (.int n) => (Nat.toDigits 10 n.natAbs).length
  | _ => 0

def Atom.isNegative : Atom → Bool
  | .number (.int n) => n < 0
  | _ => false

namespace Expr

/-- All literals are integers. -/
def Integral (e : Expr) : Prop := ∀ a ∈ e.leaves, a.isIntegral = true

instance (e : Expr) : Decidable e.Integral :=
  inferInstanceAs (Decidable (∀ a ∈ e.leaves, a.isIntegral = true))

/-- No literal has too many digits. -/
def Short (e : Expr) : Prop := ∀ a ∈ e.leaves, a.digitCount ≤ maxLiteralDigits

instance (e : Expr) : Decidable e.Short :=
  inferInstanceAs (Decidable (∀ a ∈ e.leaves, a.digitCount ≤ maxLiteralDigits))

/-- No literal is negative. -/
def Unsigned (e : Expr) : Prop := ∀ a ∈ e.leaves, a.isNegative = false

instance (e : Expr) : Decidable e.Unsigned :=
  inferInstanceAs (Decidable (∀ a ∈ e.leaves, a.isNegative = false))

/-- The tree itself and all trees inside it, in post-order. -/
def subtrees : Expr → List Expr :=
  fold (fun a => [.atom a]) fun o args found => found.toList.flatten ++ [.apply o args]

theorem subtrees_apply (o : Operator) (args : Tuple Expr o.arity) :
    subtrees (.apply o args) = args.toList.flatMap subtrees ++ [.apply o args] := by
  rw [subtrees, fold_apply, Tuple.toList_map, List.flatMap_def]

theorem mem_subtrees_atom {s : Expr} {a : Atom} : s ∈ subtrees (.atom a) ↔ s = .atom a := by
  rw [subtrees, fold_atom, List.mem_singleton]

theorem mem_subtrees_apply {s : Expr} {o : Operator} {args : Tuple Expr o.arity} :
    s ∈ subtrees (.apply o args) ↔ s = .apply o args ∨ ∃ a ∈ args.toList, s ∈ a.subtrees := by
  rw [subtrees_apply, List.mem_append, List.mem_singleton, List.mem_flatMap, or_comm]

@[simp] theorem leaves_atom (a : Atom) : leaves (.atom a) = [a] := rfl

@[simp] theorem leaves_apply (o : Operator) (args : Tuple Expr o.arity) :
    leaves (.apply o args) = args.toList.flatMap leaves := by
  rw [leaves, fold_apply, Tuple.toList_map, List.flatMap_def]

theorem mem_operators_apply {p o : Operator} {args : Tuple Expr o.arity} :
    p ∈ operators (.apply o args) ↔ p = o ∨ ∃ e ∈ args.toList, p ∈ e.operators := by
  rw [operators, fold_apply, Tuple.toList_map, ← List.flatMap_def, List.mem_append,
    List.mem_singleton, List.mem_flatMap, or_comm]

/-- Only the leaves that occur matter. -/
theorem fold_congr {α : Type} {leaf leaf' : Atom → α}
    {node : (o : Operator) → Tuple Expr o.arity → Tuple α o.arity → α} {e : Expr}
    (h : ∀ a ∈ e.leaves, leaf a = leaf' a) : fold leaf node e = fold leaf' node e := by
  induction e using induct with
  | atom a => exact h a (by simp)
  | apply o args ih =>
      rw [fold_apply, fold_apply]
      refine congrArg _ (Tuple.map_congr fun e he => ih e he fun a ha => h a ?_)
      rw [leaves_apply]
      exact List.mem_flatMap.2 ⟨e, he, ha⟩

variable {P : Atom → Prop}

theorem forall_leaves_apply {o : Operator} {args : Tuple Expr o.arity} :
    (∀ a ∈ leaves (.apply o args), P a) ↔ ∀ e ∈ args.toList, ∀ a ∈ e.leaves, P a := by
  simp only [leaves_apply, List.mem_flatMap]
  grind

/-- What is on the stack is found in the end, with what was found before. -/
theorem mem_collectVariables {v : Variable} {stack : List Expr} {found : List Variable} :
    v ∈ collectVariables stack found ↔ v ∈ found ∨ .variable v ∈ stack.flatMap leaves := by
  induction stack, found using collectVariables.induct with
  | case1 found => simp [collectVariables]
  | case2 w stack found ih =>
      rw [collectVariables, ih, List.mem_insert_iff, List.flatMap_cons, List.mem_append,
        leaves_atom, List.mem_singleton, Atom.variable.injEq, or_assoc, or_left_comm]
  | case3 n stack found ih => simp [collectVariables, ih]
  | case4 o args stack found ih =>
      simp only [collectVariables, ih, List.flatMap_append, List.flatMap_cons, List.mem_append,
        leaves_apply, List.mem_flatMap, List.mem_reverse]

theorem mem_freeVariables {v : Variable} {e : Expr} :
    v ∈ e.freeVariables ↔ .variable v ∈ e.leaves := by
  rw [freeVariables, List.mem_filter, decide_eq_true_iff, mem_collectVariables,
    List.flatMap_singleton]
  simp [Variable.mem_all]

theorem mem_freeVariables_apply {v : Variable} {o : Operator} {args : Tuple Expr o.arity} :
    v ∈ freeVariables (.apply o args) ↔ ∃ e ∈ args.toList, v ∈ e.freeVariables := by
  simp only [mem_freeVariables, leaves_apply, List.mem_flatMap]

theorem closed_forall_leaves (hP : ∀ n : Nat, n ≤ 5 → P (.number (.int n))) :
    Arithmetic.Closed fun e : Expr => ∀ a ∈ e.leaves, P a :=
  closed_of_apply (fun _ _ _ hargs => forall_leaves_apply.2 hargs)
    fun n hn => List.forall_mem_singleton.2 (hP n hn)

theorem forall_leaves_derivative (hP : ∀ n : Nat, n ≤ 5 → P (.number (.int n))) (name : String)
    {e : Expr} (he : ∀ a ∈ e.leaves, P a) : ∀ a ∈ (derivative name e).leaves, P a := by
  have hconstant (n : Nat) (hn : n ≤ 5) : ∀ a ∈ leaves (n : Expr), P a :=
    List.forall_mem_singleton.2 (hP n hn)
  induction e using induct with
  | atom a =>
      rw [derivative_atom]
      match a with
      | .number n => exact hconstant 0 (by omega)
      | .variable v =>
          rw [Atom.derivative]
          split
          · exact hconstant 1 (by omega)
          · exact hconstant 0 (by omega)
  | apply o args ih =>
      rw [forall_leaves_apply] at he
      rw [derivative_apply_eq_slope]
      exact (closed_forall_leaves hP).slope_combine o fun e hmem =>
        ⟨he e hmem, ih e hmem (he e hmem)⟩

theorem Integral.derivative (name : String) {e : Expr} (he : e.Integral) :
    (e.derivative name).Integral :=
  forall_leaves_derivative (fun _ _ => rfl) name he

end Expr

end Trivar
