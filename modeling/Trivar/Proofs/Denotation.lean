import Mathlib.Algebra.Field.Rat
import Mathlib.Algebra.Order.BigOperators.Group.List
import Mathlib.Tactic.FieldSimp
import Trivar.Proofs.Leaves

/-!
The rational function that an expression denotes. `Expr.denote` gives its value
in any field, where a sum of reciprocals is the sum of all `1 / a` and the
harmonic mean the number of arguments divided by that sum. A value means
something only where no denominator vanishes; `Expr.denominators` lists all of
them, and `Expr.Regular` says that none is zero.

An expansion denotes what the composite operation denotes and has no other
zeros among its denominators (`denote_combine`, `regular_combine`). At a
regular point the exact value is the rational number that is denoted
(`exact_of_regular`).
-/

namespace Trivar

section

variable {K : Type} [Field K]

namespace Operator

def denote : (o : Operator) → Tuple K o.arity → K
  | .add, .cons a (.cons b .nil) => a + b
  | .sub, .cons a (.cons b .nil) => a - b
  | .mul, .cons a (.cons b .nil) => a * b
  | .div, .cons a (.cons b .nil) => a / b
  | .negate, .cons a .nil => -a
  | .reciprocalSum _, args => (args.toList.map (1 / ·)).sum
  | .harmonicMean extra, args => ((extra.val + 2 : Nat) : K) / (args.toList.map (1 / ·)).sum

/-- All that an operation divides by. -/
def denominators : (o : Operator) → Tuple K o.arity → List K
  | .div, .cons _ (.cons b .nil) => [b]
  | .reciprocalSum _, args => args.toList
  | .harmonicMean _, args => args.toList ++ [(args.toList.map (1 / ·)).sum]
  | _, _ => []

end Operator

/-- Only the integers count among the literals; a double is taken for zero. -/
def Atom.denote (p : Variable → K) : Atom → K
  | .number (.int n) => n
  | .number (.double _) => 0
  | .variable v => p v

namespace Expr

def denote (p : Variable → K) : Expr → K := fold (Atom.denote p) fun o _ args => o.denote args

def denominators (p : Variable → K) : Expr → List K :=
  fold (fun _ => []) fun o args found =>
    found.toList.flatten ++ o.denominators (args.map (denote p))

/-- No denominator vanishes at the point. -/
def Regular (p : Variable → K) (e : Expr) : Prop := 0 ∉ e.denominators p

instance [DecidableEq K] (p : Variable → K) (e : Expr) : Decidable (e.Regular p) :=
  inferInstanceAs (Decidable (0 ∉ e.denominators p))

variable (p : Variable → K)

@[simp] theorem denote_atom (a : Atom) : denote p (.atom a) = a.denote p := rfl

@[simp] theorem denote_apply (o : Operator) (args : Tuple Expr o.arity) :
    denote p (.apply o args) = o.denote (args.map (denote p)) :=
  fold_apply ..

theorem denote_add (a b : Expr) : denote p (a + b) = denote p a + denote p b := rfl

theorem denote_div (a b : Expr) : denote p (a / b) = denote p a / denote p b := rfl

theorem denote_natCast (n : Nat) : denote p (n : Expr) = n := by
  change ((n : Int) : K) = n
  simp

/-- Only the variables that occur matter. -/
theorem denote_congr {p q : Variable → K} {e : Expr}
    (h : ∀ v, .variable v ∈ e.leaves → p v = q v) : denote p e = denote q e := by
  refine fold_congr fun a ha => ?_
  match a with
  | .number (.int _) => rfl
  | .number (.double _) => rfl
  | .variable v => exact h v ha

@[simp] theorem regular_atom (a : Atom) : Regular p (.atom a) := by
  simp [Regular, denominators]

theorem regular_apply (o : Operator) (args : Tuple Expr o.arity) :
    Regular p (.apply o args) ↔
      (∀ e ∈ args.toList, Regular p e) ∧ 0 ∉ o.denominators (args.map (denote p)) := by
  simp [Regular, denominators, fold_apply]

theorem regular_add {a b : Expr} : Regular p (a + b) ↔ Regular p a ∧ Regular p b := by
  change Regular p (.apply .add (.cons a (.cons b .nil))) ↔ _
  simp [regular_apply, Operator.denominators, Tuple.toList]

theorem regular_sub {a b : Expr} : Regular p (a - b) ↔ Regular p a ∧ Regular p b := by
  change Regular p (.apply .sub (.cons a (.cons b .nil))) ↔ _
  simp [regular_apply, Operator.denominators, Tuple.toList]

theorem regular_mul {a b : Expr} : Regular p (a * b) ↔ Regular p a ∧ Regular p b := by
  change Regular p (.apply .mul (.cons a (.cons b .nil))) ↔ _
  simp [regular_apply, Operator.denominators, Tuple.toList]

theorem regular_neg {a : Expr} : Regular p (-a) ↔ Regular p a := by
  change Regular p (.apply .negate (.cons a .nil)) ↔ _
  simp [regular_apply, Operator.denominators, Tuple.toList]

theorem regular_div {a b : Expr} :
    Regular p (a / b) ↔ (Regular p a ∧ Regular p b) ∧ denote p b ≠ 0 := by
  change Regular p (.apply .div (.cons a (.cons b .nil))) ↔ _
  simp [regular_apply, Operator.denominators, Tuple.toList, Tuple.map,
    eq_comm (a := (0 : K))]

theorem regular_natCast (n : Nat) : Regular p (n : Expr) := regular_atom p (.number (.int n))

/-! ### Expansions -/

theorem denote_sumOfReciprocals {n : Nat} (args : Tuple Expr (n + 1)) :
    denote p (Operator.sumOfReciprocals args) =
      ((args.map (denote p)).toList.map (1 / ·)).sum := by
  have hfold (bs : List Expr) (s : Expr) :
      denote p (bs.foldl (fun sum b => sum + ((1 : Nat) : Expr) / b) s) =
        denote p s + ((bs.map (denote p)).map (1 / ·)).sum := by
    induction bs generalizing s with
    | nil => simp
    | cons b bs ih =>
        rw [List.foldl_cons, ih, denote_add, denote_div, denote_natCast]
        simp [add_assoc]
  cases args with
  | cons a as =>
      rw [Operator.sumOfReciprocals, hfold, denote_div, denote_natCast]
      simp [Tuple.map, Tuple.toList]

theorem regular_sumOfReciprocals {n : Nat} (args : Tuple Expr (n + 1)) :
    Regular p (Operator.sumOfReciprocals args) ↔
      (∀ a ∈ args.toList, Regular p a) ∧ 0 ∉ (args.map (denote p)).toList := by
  have hfold (bs : List Expr) (s : Expr) :
      Regular p (bs.foldl (fun sum b => sum + ((1 : Nat) : Expr) / b) s) ↔
        Regular p s ∧ (∀ b ∈ bs, Regular p b) ∧ 0 ∉ bs.map (denote p) := by
    induction bs generalizing s with
    | nil => simp
    | cons b bs ih =>
        rw [List.foldl_cons, ih, regular_add, regular_div, List.forall_mem_cons]
        have hone := regular_natCast p 1
        simp only [List.map_cons, List.mem_cons, not_or, eq_comm (a := (0 : K))]
        tauto
  cases args with
  | cons a as =>
      rw [Operator.sumOfReciprocals, hfold, regular_div, Tuple.toList, List.forall_mem_cons]
      have hone := regular_natCast p 1
      simp only [Tuple.map, Tuple.toList, Tuple.toList_map, List.mem_cons, not_or,
        eq_comm (a := (0 : K))]
      tauto

/-- The expansion of a composite operation, like any operation carried out on expressions,
denotes what the operation itself denotes. -/
theorem denote_combine (o : Operator) (args : Tuple Expr o.arity) :
    denote p (o.combine args) = denote p (.apply o args) := by
  rw [denote_apply]
  match o, args with
  | .add, .cons a (.cons b .nil) => rfl
  | .sub, .cons a (.cons b .nil) => rfl
  | .mul, .cons a (.cons b .nil) => rfl
  | .div, .cons a (.cons b .nil) => rfl
  | .negate, .cons a .nil => rfl
  | .reciprocalSum _, args => exact denote_sumOfReciprocals p args
  | .harmonicMean extra, args =>
      rw [Operator.combine, denote_div, denote_natCast, denote_sumOfReciprocals]
      rfl

/-- The expansion has the same zeros among its denominators. -/
theorem regular_combine (o : Operator) (args : Tuple Expr o.arity) :
    Regular p (o.combine args) ↔ Regular p (.apply o args) := by
  match o, args with
  | .add, .cons a (.cons b .nil) => rfl
  | .sub, .cons a (.cons b .nil) => rfl
  | .mul, .cons a (.cons b .nil) => rfl
  | .div, .cons a (.cons b .nil) => rfl
  | .negate, .cons a .nil => rfl
  | .reciprocalSum _, args =>
      rw [Operator.combine, regular_sumOfReciprocals, regular_apply]
      rfl
  | .harmonicMean extra, args =>
      rw [Operator.combine, regular_div, regular_sumOfReciprocals, denote_sumOfReciprocals,
        regular_apply]
      have hcast := regular_natCast p (extra.val + 2)
      simp only [Operator.denominators, List.mem_append, List.mem_singleton, not_or, ne_eq,
        eq_comm (a := (0 : K))]
      tauto

end Expr

end

/-! ### Exact values -/

namespace Exact

theorem rational_add (a b : ℚ) : rational a + rational b = rational (a + b) := rfl

theorem rational_sub (a b : ℚ) : rational a - rational b = rational (a - b) := by
  rw [sub_eq_add_neg]
  rfl

theorem rational_mul (a b : ℚ) : rational a * rational b = rational (a * b) := rfl

theorem rational_div (a : ℚ) {b : ℚ} (hb : b ≠ 0) : rational a / rational b = rational (a / b) := by
  change mul (rational a) (if b = 0 then .infinite else .rational b⁻¹) = _
  rw [if_neg hb, div_eq_mul_inv]
  rfl

theorem rational_natCast (n : Nat) : (n : Exact) = rational n := rfl

theorem sumOfReciprocals_rational {n : Nat} (args : Tuple ℚ (n + 1)) (h : 0 ∉ args.toList) :
    Operator.sumOfReciprocals (args.map rational) = rational (args.toList.map (1 / ·)).sum := by
  have hfold (bs : List ℚ) (hbs : 0 ∉ bs) (s : ℚ) :
      (bs.map rational).foldl (fun sum b => sum + ((1 : Nat) : Exact) / b) (rational s) =
        rational (s + (bs.map (1 / ·)).sum) := by
    induction bs generalizing s with
    | nil => simp
    | cons b bs ih =>
        rw [List.mem_cons, not_or] at hbs
        rw [List.map_cons, List.foldl_cons, rational_natCast, rational_div _ (Ne.symm hbs.1),
          rational_add, ← rational_natCast, ih hbs.2]
        simp [add_assoc]
  cases args with
  | cons a as =>
      rw [Tuple.toList, List.mem_cons, not_or] at h
      rw [Tuple.map, Operator.sumOfReciprocals, rational_natCast, rational_div _ (Ne.symm h.1),
        Tuple.toList_map, ← rational_natCast, hfold _ h.2]
      simp [Tuple.toList]

/-- Away from zero denominators, exact arithmetic is that of the rational numbers. -/
theorem combine_rational (o : Operator) (args : Tuple ℚ o.arity) (h : 0 ∉ o.denominators args) :
    o.combine (args.map rational) = rational (o.denote args) := by
  match o, args with
  | .add, .cons a (.cons b .nil) => exact rational_add a b
  | .sub, .cons a (.cons b .nil) => exact rational_sub a b
  | .mul, .cons a (.cons b .nil) => exact rational_mul a b
  | .div, .cons a (.cons b .nil) =>
      exact rational_div a fun hb => h (by simp [Operator.denominators, hb])
  | .negate, .cons a .nil => rfl
  | .reciprocalSum _, args => exact sumOfReciprocals_rational args h
  | .harmonicMean extra, args =>
      rw [Operator.denominators, List.mem_append, not_or, List.mem_singleton] at h
      rw [Operator.combine, sumOfReciprocals_rational args h.1, rational_natCast,
        rational_div _ (Ne.symm h.2)]
      rfl

end Exact

/-- At a regular point the exact value of an expression is the number that it denotes. -/
theorem Expr.exact_of_regular {p : Variable → ℚ} {e : Expr} (hint : e.Integral)
    (hreg : e.Regular p) : e.exact p = .rational (e.denote p) := by
  induction e using induct with
  | atom a =>
      match a, hint a (by simp) with
      | .number (.int n), _ => rfl
      | .variable v, _ => rfl
  | apply o args ih =>
      rw [Integral, forall_leaves_apply] at hint
      rw [regular_apply] at hreg
      have hargs : args.map (exact p) = (args.map (denote p)).map Exact.rational := by
        rw [Tuple.map_map]
        exact Tuple.map_congr fun e he => ih e he (hint e he) (hreg.1 e he)
      rw [exact_apply, hargs, Exact.combine_rational _ _ hreg.2, denote_apply]

end Trivar
