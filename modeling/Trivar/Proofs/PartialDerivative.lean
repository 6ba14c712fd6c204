import Mathlib.Analysis.Calculus.Deriv.Add
import Mathlib.Analysis.Calculus.Deriv.Inv
import Trivar.Proofs.Denotation

/-!
Symbolic differentiation against the derivative of analysis. An expression
denotes a function of its variables; moving one of them gives a function of one
rational number, and the symbolic derivative denotes its derivative. The
derivative divides only by squares of what the expression divides by, so it is
defined wherever the expression is.

The induction carries both facts at once for jets: `Jet.Tangent` says of a jet
of expressions that its slope denotes the derivative of its value, and that both
parts are regular. Every operation on jets keeps it as long as no denominator
vanishes.
-/

namespace Trivar

section

variable {K : Type} [NontriviallyNormedField K]

/-- The point moved by `t` along the variable with this name; a name that is not that of a
variable leaves it where it is. -/
def shifted (p : Variable → K) (name : String) (t : K) : Variable → K :=
  fun v => if v.name = name then p v + t else p v

theorem shifted_zero (p : Variable → K) (name : String) : shifted p name 0 = p := by
  funext v
  simp [shifted]

namespace Expr

def HasPartialDerivative (e : Expr) (name : String) (p : Variable → K) (slope : K) : Prop :=
  HasDerivAt (fun t => e.denote (shifted p name t)) slope 0

end Expr

/-- The slope denotes the partial derivative of the value, and both are defined. -/
structure Jet.Tangent (p : Variable → K) (name : String) (J : Jet Expr) : Prop where
  regular_value : J.value.Regular p
  regular_slope : J.slope.Regular p
  hasPartialDerivative : J.value.HasPartialDerivative name p (J.slope.denote p)

namespace Jet.Tangent

open Trivar.Expr

variable {p : Variable → K} {name : String} {J L : Jet Expr}

theorem add (hJ : Tangent p name J) (hL : Tangent p name L) : Tangent p name (J + L) where
  regular_value := (regular_add p).2 ⟨hJ.regular_value, hL.regular_value⟩
  regular_slope := (regular_add p).2 ⟨hJ.regular_slope, hL.regular_slope⟩
  hasPartialDerivative := HasDerivAt.add hJ.hasPartialDerivative hL.hasPartialDerivative

theorem sub (hJ : Tangent p name J) (hL : Tangent p name L) : Tangent p name (J - L) where
  regular_value := (regular_sub p).2 ⟨hJ.regular_value, hL.regular_value⟩
  regular_slope := (regular_sub p).2 ⟨hJ.regular_slope, hL.regular_slope⟩
  hasPartialDerivative := HasDerivAt.sub hJ.hasPartialDerivative hL.hasPartialDerivative

theorem neg (hJ : Tangent p name J) : Tangent p name (-J) where
  regular_value := (regular_neg p).2 hJ.regular_value
  regular_slope := (regular_neg p).2 hJ.regular_slope
  hasPartialDerivative := HasDerivAt.neg hJ.hasPartialDerivative

/-- The terms of the product rule. -/
theorem regular_cross (hJ : Tangent p name J) (hL : Tangent p name L) :
    (J.slope * L.value).Regular p ∧ (J.value * L.slope).Regular p :=
  ⟨(regular_mul p).2 ⟨hJ.regular_slope, hL.regular_value⟩,
    (regular_mul p).2 ⟨hJ.regular_value, hL.regular_slope⟩⟩

theorem mul (hJ : Tangent p name J) (hL : Tangent p name L) : Tangent p name (J * L) where
  regular_value := (regular_mul p).2 ⟨hJ.regular_value, hL.regular_value⟩
  regular_slope := (regular_add p).2 (hJ.regular_cross hL)
  hasPartialDerivative := by
    have h := HasDerivAt.mul hJ.hasPartialDerivative hL.hasPartialDerivative
    rw [shifted_zero] at h
    exact h

/-- The quotient rule divides by the square of the divisor, which is not zero when the divisor
is not. -/
theorem div (hJ : Tangent p name J) (hL : Tangent p name L) (hzero : L.value.denote p ≠ 0) :
    Tangent p name (J / L) where
  regular_value := (regular_div p).2 ⟨⟨hJ.regular_value, hL.regular_value⟩, hzero⟩
  regular_slope := by
    have hsquare : (L.value * L.value).denote p ≠ 0 := mul_ne_zero hzero hzero
    refine (regular_div p).2 ⟨⟨(regular_sub p).2 (hJ.regular_cross hL), ?_⟩, hsquare⟩
    exact (regular_mul p).2 ⟨hL.regular_value, hL.regular_value⟩
  hasPartialDerivative := by
    have hdivisor : L.value.denote (shifted p name 0) ≠ 0 := by
      rwa [shifted_zero]
    have h := HasDerivAt.div hJ.hasPartialDerivative hL.hasPartialDerivative hdivisor
    rw [shifted_zero, pow_two] at h
    exact h

theorem constant (n : Nat) : Tangent p name (n : Jet Expr) where
  regular_value := regular_natCast p n
  regular_slope := regular_natCast p 0
  hasPartialDerivative := by
    change HasDerivAt (fun t => denote (shifted p name t) (n : Expr)) (denote p ((0 : Nat) : Expr)) 0
    simp only [denote_natCast, Nat.cast_zero]
    exact hasDerivAt_const 0 (n : K)

theorem sumOfReciprocals {n : Nat} {jets : Tuple (Jet Expr) (n + 1)}
    (hjets : ∀ J ∈ jets.toList, Tangent p name J)
    (hzero : ∀ J ∈ jets.toList, J.value.denote p ≠ 0) :
    Tangent p name (Operator.sumOfReciprocals jets) := by
  have hone : Tangent p name ((1 : Nat) : Jet Expr) := constant 1
  have hfold (Js : List (Jet Expr)) (hJs : ∀ J ∈ Js, Tangent p name J)
      (hzero : ∀ J ∈ Js, J.value.denote p ≠ 0) (S : Jet Expr) (hS : Tangent p name S) :
      Tangent p name (Js.foldl (fun sum J => sum + ((1 : Nat) : Jet Expr) / J) S) := by
    induction Js generalizing S with
    | nil => exact hS
    | cons J Js ih =>
        rw [List.forall_mem_cons] at hJs hzero
        exact ih hJs.2 hzero.2 _ (hS.add (hone.div hJs.1 hzero.1))
  cases jets with
  | cons J Js =>
      rw [Tuple.toList, List.forall_mem_cons] at hjets hzero
      exact hfold Js.toList hjets.2 hzero.2 _ (hone.div hjets.1 hzero.1)

/-- Every operation keeps tangency away from its zero denominators. -/
theorem combine (o : Operator) {jets : Tuple (Jet Expr) o.arity}
    (hjets : ∀ J ∈ jets.toList, Tangent p name J)
    (hzero : 0 ∉ o.denominators (jets.map fun J => J.value.denote p)) :
    Tangent p name (o.combine jets) := by
  have harguments {n : Nat} {jets : Tuple (Jet Expr) n}
      (h : 0 ∉ (jets.map fun J => J.value.denote p).toList) :
      ∀ J ∈ jets.toList, J.value.denote p ≠ 0 := by
    intro J hJ hzero
    rw [Tuple.toList_map] at h
    exact h (List.mem_map.2 ⟨J, hJ, hzero⟩)
  match o, jets with
  | .add, .cons J (.cons L .nil) =>
      obtain ⟨hJ, hL⟩ := Tuple.forall_mem_pair.1 hjets
      exact hJ.add hL
  | .sub, .cons J (.cons L .nil) =>
      obtain ⟨hJ, hL⟩ := Tuple.forall_mem_pair.1 hjets
      exact hJ.sub hL
  | .mul, .cons J (.cons L .nil) =>
      obtain ⟨hJ, hL⟩ := Tuple.forall_mem_pair.1 hjets
      exact hJ.mul hL
  | .div, .cons J (.cons L .nil) =>
      obtain ⟨hJ, hL⟩ := Tuple.forall_mem_pair.1 hjets
      exact hJ.div hL fun h => hzero (by simp [Operator.denominators, Tuple.map, h])
  | .negate, .cons J .nil => exact (Tuple.forall_mem_single.1 hjets).neg
  | .reciprocalSum _, jets => exact sumOfReciprocals hjets (harguments hzero)
  | .harmonicMean extra, jets =>
      rw [Operator.denominators, List.mem_append, not_or, List.mem_singleton] at hzero
      have hsum := sumOfReciprocals hjets (harguments hzero.1)
      refine (constant (extra.val + 2)).div hsum ?_
      rw [Jet.hom_value.sumOfReciprocals, denote_sumOfReciprocals, Tuple.map_map]
      exact Ne.symm hzero.2

end Jet.Tangent

open Trivar.Expr

theorem hasPartialDerivative_atom (name : String) (p : Variable → K) (a : Atom) :
    HasPartialDerivative (.atom a) name p ((derivative name (.atom a)).denote p) := by
  have hconstant (c : K) : HasDerivAt (fun _ => c) (denote p ((0 : Nat) : Expr)) (0 : K) := by
    rw [denote_natCast, Nat.cast_zero]
    exact hasDerivAt_const 0 c
  rw [HasPartialDerivative, derivative_atom]
  match a with
  | .number (.int n) => exact hconstant n
  | .number (.double _) => exact hconstant 0
  | .variable v =>
      by_cases hname : v.name = name
      · simp only [denote_atom, Atom.denote, Atom.derivative, shifted, if_pos hname]
        rw [denote_natCast, Nat.cast_one]
        exact (hasDerivAt_id 0).const_add (p v)
      · simp only [denote_atom, Atom.denote, Atom.derivative, shifted, if_neg hname]
        exact hconstant (p v)

theorem tangent_derivative (name : String) {p : Variable → K} {e : Expr} (hreg : e.Regular p) :
    Jet.Tangent p name ⟨e, e.derivative name⟩ := by
  induction e using induct with
  | atom a =>
      have hmoved := hasPartialDerivative_atom name p a
      match a with
      | .number n => exact ⟨hreg, regular_natCast p 0, hmoved⟩
      | .variable v =>
          refine ⟨hreg, ?_, hmoved⟩
          rw [derivative_atom, Atom.derivative]
          split <;> exact regular_natCast p _
  | apply o args ih =>
      rw [regular_apply] at hreg
      have hjets : ∀ J ∈ (args.map fun e => Jet.mk e (e.derivative name)).toList,
          Jet.Tangent p name J := by
        intro J hJ
        rw [Tuple.toList_map] at hJ
        obtain ⟨e, he, rfl⟩ := List.mem_map.1 hJ
        exact ih e he (hreg.1 e he)
      -- The slope of the expansion is the derivative, but its value only denotes the same.
      have hcombined := Jet.Tangent.combine o hjets (by rw [Tuple.map_map]; exact hreg.2)
      have hvalue := Jet.value_combine (fun e => e) (derivative name) o args
      rw [Tuple.map_id] at hvalue
      rw [derivative_apply_eq_slope]
      refine ⟨(regular_apply p o args).2 hreg, hcombined.regular_slope, ?_⟩
      have h := hcombined.hasPartialDerivative
      rw [HasPartialDerivative, hvalue] at h
      simp only [denote_combine] at h
      exact h

theorem hasPartialDerivative_unique {e : Expr} {name : String} {p : Variable → K} {c d : K}
    (hc : e.HasPartialDerivative name p c) (hd : e.HasPartialDerivative name p d) : c = d :=
  HasDerivAt.unique hc hd

theorem hasPartialDerivative_of_not_free {e : Expr} {name : String} (p : Variable → K)
    (h : ∀ v ∈ e.freeVariables, v.name ≠ name) : e.HasPartialDerivative name p 0 := by
  have hfixed (t : K) : e.denote (shifted p name t) = e.denote p :=
    denote_congr fun v hv => if_neg (h v (mem_freeVariables.2 hv))
  rw [HasPartialDerivative]
  simp only [hfixed]
  exact hasDerivAt_const 0 (e.denote p)

end

namespace Expr

/-- Differentiation is correct. Where an expression with integer literals is regular its
derivative is so, too, and has there an exact value, the one that differentiation along with the
exact values gives: the partial derivative of what the expression denotes. It is zero for the
name of a variable that does not occur. -/
theorem derivative_hasPartialDerivative (e : Expr) (name : String) (p : Variable → ℚ)
    (hint : e.Integral) (hreg : e.Regular p) :
    (e.derivative name).Regular p ∧
      (e.derivative name).exact p = .rational ((e.derivative name).denote p) ∧
      e.exactSlope p name = .rational ((e.derivative name).denote p) ∧
      e.HasPartialDerivative name p ((e.derivative name).denote p) ∧
      ((∀ v ∈ e.freeVariables, v.name ≠ name) → (e.derivative name).denote p = 0) := by
  have htangent := tangent_derivative name hreg
  have hexact := exact_of_regular (hint.derivative name) htangent.regular_slope
  refine ⟨htangent.regular_slope, hexact, ?_, htangent.hasPartialDerivative, fun habsent => ?_⟩
  · rw [exactSlope_eq_exact, hexact]
  · exact hasPartialDerivative_unique htangent.hasPartialDerivative
      (hasPartialDerivative_of_not_free p habsent)

/-- The derivative of `y / (1 / x + 1 / (x * y))` less the harmonic mean of `x` and `y`, along `x`
at `x = 1`, `y = 2`, is `4 / 3 - 8 / 9`. -/
theorem quotientLessMean_hasPartialDerivative :
    let x : Expr := .atom (.variable .x)
    let y : Expr := .atom (.variable .y)
    let e : Expr := y / .apply (.reciprocalSum 0) (.cons x (.cons (x * y) .nil)) -
      .apply (.harmonicMean 0) (.cons x (.cons y .nil))
    let p : Variable → ℚ := fun v => v.index + 1
    e.Integral ∧ e.Regular p ∧ (e.derivative "x").exact p = .rational (4 / 9) ∧
      e.HasPartialDerivative "x" p (4 / 9) := by
  intro x y e p
  have hint : e.Integral := by decide
  have hreg : e.Regular p := by decide +kernel
  have hslope : (e.derivative "x").denote p = 4 / 9 := by decide +kernel
  obtain ⟨-, hexact, -, hpartial, -⟩ := derivative_hasPartialDerivative e "x" p hint hreg
  rw [hslope] at hexact hpartial
  exact ⟨hint, hreg, hexact, hpartial⟩

end Expr

end Trivar
