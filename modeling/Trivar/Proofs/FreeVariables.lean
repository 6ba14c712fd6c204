import Mathlib.Data.List.Basic
import Trivar.Expr.Walk
import Trivar.Proofs.Leaves

/-!
A tree depends on its free variables only. These are the variables at its
leaves (`mem_freeVariables`), and since nothing else reads the point, a value or
an error is the same at all points that agree on them. The expansion of a
composite operation brings in constants and repeats or drops no argument, so it
has the free variables of the operation.
-/

namespace Trivar.Expr

/-- Only the coordinates of free variables matter for a value, and for an error. -/
theorem evaluate_congr {p q : Point} {e : Expr} (h : ∀ v ∈ e.freeVariables, p.at v = q.at v) :
    e.evaluate p = e.evaluate q := by
  rw [evaluate, evaluate, walk_eq_foldM, walk_eq_foldM]
  refine fold_congr fun a ha => ?_
  cases a with
  | number n => rfl
  | «variable» v =>
      have hagree : p.at v = q.at v := h v (mem_freeVariables.2 ha)
      exact congrArg Except.ok hagree

variable {v : Variable}

theorem freeVariables_eq_of_mem_iff {a b : Expr}
    (h : ∀ v, v ∈ a.freeVariables ↔ v ∈ b.freeVariables) : a.freeVariables = b.freeVariables := by
  refine List.filter_congr fun v hv => ?_
  have hv := h v
  rw [freeVariables, freeVariables, List.mem_filter, List.mem_filter] at hv
  simpa [Variable.mem_all] using hv

/-! ### Expansions -/

theorem not_mem_freeVariables_natCast (n : Nat) : v ∉ freeVariables (n : Expr) := by
  rw [mem_freeVariables]
  exact mt List.mem_singleton.1 nofun

theorem mem_freeVariables_add {a b : Expr} :
    v ∈ (a + b).freeVariables ↔ v ∈ a.freeVariables ∨ v ∈ b.freeVariables :=
  mem_freeVariables_apply.trans Tuple.exists_mem_pair

theorem mem_freeVariables_div {a b : Expr} :
    v ∈ (a / b).freeVariables ↔ v ∈ a.freeVariables ∨ v ∈ b.freeVariables :=
  mem_freeVariables_apply.trans Tuple.exists_mem_pair

theorem mem_freeVariables_sumOfReciprocals {n : Nat} {args : Tuple Expr (n + 1)} :
    v ∈ (Operator.sumOfReciprocals args).freeVariables ↔
      ∃ e ∈ args.toList, v ∈ e.freeVariables := by
  have hone (e : Expr) : v ∈ (((1 : Nat) : Expr) / e).freeVariables ↔ v ∈ e.freeVariables := by
    rw [mem_freeVariables_div, or_iff_right (not_mem_freeVariables_natCast 1)]
  have hfold (es : List Expr) (sum : Expr) :
      v ∈ (es.foldl (fun sum e => sum + ((1 : Nat) : Expr) / e) sum).freeVariables ↔
        v ∈ sum.freeVariables ∨ ∃ e ∈ es, v ∈ e.freeVariables := by
    induction es generalizing sum with
    | nil => simp
    | cons e es ih =>
        rw [List.foldl_cons, ih, mem_freeVariables_add, hone, or_assoc]
        simp
  match args with
  | .cons a as =>
      rw [Operator.sumOfReciprocals, hfold, hone, Tuple.toList]
      simp

/-- Neither is an argument lost nor a variable brought in. -/
theorem mem_freeVariables_combine {o : Operator} {args : Tuple Expr o.arity} :
    v ∈ (o.combine args).freeVariables ↔ v ∈ (apply o args).freeVariables := by
  match o, args with
  | .add, .cons _ (.cons _ .nil) | .sub, .cons _ (.cons _ .nil) | .mul, .cons _ (.cons _ .nil)
  | .div, .cons _ (.cons _ .nil) | .negate, .cons _ .nil => rfl
  | .reciprocalSum _, args =>
      exact mem_freeVariables_sumOfReciprocals.trans mem_freeVariables_apply.symm
  | .harmonicMean _, args =>
      rw [Operator.combine, mem_freeVariables_div,
        or_iff_right (not_mem_freeVariables_natCast _), mem_freeVariables_sumOfReciprocals,
        mem_freeVariables_apply]

theorem freeVariables_expansion (e : Expr) : e.expansion.freeVariables = e.freeVariables := by
  cases e with
  | atom a => rfl
  | apply o args =>
      rw [expansion]
      split
      · exact freeVariables_eq_of_mem_iff fun _ => mem_freeVariables_combine
      · rfl

/-- The free variables of a tree are those at its leaves; at points that agree on them it has the
same value or the same error; and expanding it does not change them. -/
theorem determined_by_freeVariables (e : Expr) :
    (∀ name, name ∈ e.freeVariables.map Variable.name ↔
      ∃ v : Variable, .variable v ∈ e.leaves ∧ v.name = name) ∧
    (∀ p q : Point, (∀ v ∈ e.freeVariables, p.at v = q.at v) → e.evaluate p = e.evaluate q) ∧
    e.expansion.freeVariables = e.freeVariables := by
  refine ⟨fun name => ?_, fun p q h => evaluate_congr h, freeVariables_expansion e⟩
  rw [List.mem_map]
  exact exists_congr fun v => and_congr_left fun _ => mem_freeVariables

/-- The harmonic mean of `x` and `z` does not depend on `y`, not even where it fails. -/
theorem determined_by_freeVariables_overflow :
    let e : Expr := .apply (.harmonicMean 0)
      (.cons (.atom (.variable .x)) (.cons (.atom (.variable .z)) .nil))
    let p : Point := ⟨.int 3, .int 0, .int (Nat.pow 10 400 : Nat)⟩
    let q : Point := ⟨.int 3, .double .nan, .int (Nat.pow 10 400 : Nat)⟩
    e.freeVariables.map Variable.name = ["x", "z"] ∧
      (∀ v ∈ e.freeVariables, p.at v = q.at v) ∧ e.evaluate p = .error .integerTooLarge ∧
      e.evaluate q = .error .integerTooLarge := by
  intro e p q
  have hnames : e.freeVariables.map Variable.name = ["x", "z"] := by decide
  have hagree : ∀ v ∈ e.freeVariables, p.at v = q.at v := by
    change ∀ v ∈ [Variable.x, Variable.z], p.at v = q.at v
    rw [List.forall_mem_cons, List.forall_mem_singleton]
    exact ⟨rfl, rfl⟩
  have herror : e.evaluate p = .error .integerTooLarge := by decide +kernel
  have hsame := (determined_by_freeVariables e).2.1 p q hagree
  exact ⟨hnames, hagree, herror, hsame ▸ herror⟩

end Trivar.Expr
