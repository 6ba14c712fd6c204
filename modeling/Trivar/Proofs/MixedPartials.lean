import Mathlib.Tactic.Ring
import Trivar.Proofs.PartialDerivative

/-!
Mixed partial derivatives. Differentiating along two variables, one after the
other, gives two trees that differ with the order but denote the same. A
`SecondJet` holds what both trees denote together with what leads up to them.
Its operations follow the rules of differentiation applied twice, and exchanging
the two variables carries them over to themselves (`hom_swap`), since the rules
are those of a commutative ring with division.
-/

namespace Trivar

/-- A value with its slopes along two variables, and the slope along the first one of the slope
along the second one. -/
@[ext] structure SecondJet (K : Type) where
  value : K
  first : K
  second : K
  mixed : K

namespace SecondJet

variable {K : Type}

def swap (J : SecondJet K) : SecondJet K := ⟨J.value, J.second, J.first, J.mixed⟩

variable [Field K]

instance : Arithmetic (SecondJet K) where
  add a b := ⟨a.value + b.value, a.first + b.first, a.second + b.second, a.mixed + b.mixed⟩
  sub a b := ⟨a.value - b.value, a.first - b.first, a.second - b.second, a.mixed - b.mixed⟩
  mul a b :=
    ⟨a.value * b.value, a.first * b.value + a.value * b.first,
      a.second * b.value + a.value * b.second,
      (a.mixed * b.value + a.second * b.first) + (a.first * b.second + a.value * b.mixed)⟩
  div a b :=
    ⟨a.value / b.value,
      (a.first * b.value - a.value * b.first) / (b.value * b.value),
      (a.second * b.value - a.value * b.second) / (b.value * b.value),
      (((a.mixed * b.value + a.second * b.first) - (a.first * b.second + a.value * b.mixed)) *
          (b.value * b.value) -
        (a.second * b.value - a.value * b.second) *
          (b.first * b.value + b.value * b.first)) /
        ((b.value * b.value) * (b.value * b.value))⟩
  neg a := ⟨-a.value, -a.first, -a.second, -a.mixed⟩
  natCast n := ⟨n, 0, 0, 0⟩

theorem swap_mul (a b : SecondJet K) : (a * b).swap = a.swap * b.swap := by
  refine SecondJet.ext rfl rfl rfl ?_
  change (a.mixed * b.value + a.second * b.first) + (a.first * b.second + a.value * b.mixed) =
    (a.mixed * b.value + a.first * b.second) + (a.second * b.first + a.value * b.mixed)
  ring

/-- Only the numerators are to be compared. -/
theorem swap_div (a b : SecondJet K) : (a / b).swap = a.swap / b.swap := by
  refine SecondJet.ext rfl rfl rfl (congrArg (· / (b.value * b.value * (b.value * b.value))) ?_)
  change ((a.mixed * b.value + a.second * b.first) - (a.first * b.second + a.value * b.mixed)) *
        (b.value * b.value) -
      (a.second * b.value - a.value * b.second) * (b.first * b.value + b.value * b.first) =
    ((a.mixed * b.value + a.first * b.second) - (a.second * b.first + a.value * b.mixed)) *
        (b.value * b.value) -
      (a.first * b.value - a.value * b.first) * (b.second * b.value + b.value * b.second)
  ring

theorem hom_swap : Arithmetic.Hom (swap : SecondJet K → SecondJet K) :=
  .of_map (fun _ _ => rfl) (fun _ _ => rfl) swap_mul swap_div (fun _ => rfl) fun _ => rfl

end SecondJet

namespace Expr

section

variable {K : Type} [Field K] (p : Variable → K) (u v : String)

def secondJet (e : Expr) : SecondJet K where
  value := e.denote p
  first := (e.derivative u).denote p
  second := (e.derivative v).denote p
  mixed := ((e.derivative v).derivative u).denote p

theorem hom_secondJet : Arithmetic.Hom (secondJet p u v) := by
  have hzero : denote p ((0 : Nat) : Expr) = 0 := by rw [denote_natCast, Nat.cast_zero]
  exact .of_map (fun _ _ => rfl) (fun _ _ => rfl) (fun _ _ => rfl) (fun _ _ => rfl) (fun _ => rfl)
    fun n => SecondJet.ext (denote_natCast p n) hzero hzero hzero

theorem secondJet_apply (o : Operator) (args : Tuple Expr o.arity) :
    secondJet p u v (.apply o args) = o.combine (args.map (secondJet p u v)) := by
  rw [← (hom_secondJet p u v).combine, secondJet, secondJet, denote_combine, derivative_combine,
    derivative_combine]

/-- Exchanging the variables exchanges the slopes along them and leaves the mixed one. -/
theorem swap_secondJet (e : Expr) : (secondJet p u v e).swap = secondJet p v u e := by
  induction e using induct with
  | atom a =>
      match a with
      | .number n => rfl
      | .variable w =>
          refine SecondJet.ext rfl rfl rfl ?_
          simp only [SecondJet.swap, secondJet, derivative_atom, Atom.derivative]
          split <;> split <;> rfl
  | apply o args ih =>
      rw [secondJet_apply, secondJet_apply, SecondJet.hom_swap.combine, Tuple.map_map,
        Tuple.map_congr ih]

theorem denote_derivative_comm (e : Expr) :
    ((e.derivative u).derivative v).denote p = ((e.derivative v).derivative u).denote p :=
  congrArg SecondJet.mixed (swap_secondJet p v u e)

end

theorem regular_derivative {K : Type} [NontriviallyNormedField K] {p : Variable → K} {e : Expr}
    (name : String) (hreg : e.Regular p) : (e.derivative name).Regular p :=
  (tangent_derivative name hreg).regular_slope

/-- Mixed partial derivatives commute. Where an expression with integer literals is regular, so are
both of its derivatives along two variables, and they have the same exact value there, although
they are not the same trees. -/
theorem mixed_partials_commute :
    (∀ (e : Expr) (u v : String) (p : Variable → ℚ), e.Integral → e.Regular p →
      ((e.derivative u).derivative v).Regular p ∧ ((e.derivative v).derivative u).Regular p ∧
      ∃ q, ((e.derivative u).derivative v).exact p = .rational q ∧
        ((e.derivative v).derivative u).exact p = .rational q) ∧
    ∃ (e : Expr) (u v : String), (e.derivative u).derivative v ≠ (e.derivative v).derivative u := by
  constructor
  · intro e u v p hint hreg
    have hboth (u v : String) : ((e.derivative u).derivative v).Regular p ∧
        ((e.derivative u).derivative v).exact p =
          .rational (((e.derivative u).derivative v).denote p) := by
      have hregular := regular_derivative v (regular_derivative u hreg)
      exact ⟨hregular, exact_of_regular ((hint.derivative u).derivative v) hregular⟩
    refine ⟨(hboth u v).1, (hboth v u).1, _, (hboth u v).2, ?_⟩
    rw [(hboth v u).2, denote_derivative_comm]
  · -- Of the product of `x` and `y`, the two orders put the constants in different places.
    refine ⟨.atom (.variable .x) * .atom (.variable .y), "x", "y", fun h => ?_⟩
    exact absurd (congrArg flatText h) (by decide +kernel)

/-- Along `x` and `y`, in either order, the harmonic mean of `x` and `y` less the sum of the
reciprocals of `x` and `x * y` has the derivative `8 / 27 - 1 / 4` at `x = 1`, `y = 2`. -/
theorem mixed_partials_commute_harmonicMean :
    let x : Expr := .atom (.variable .x)
    let y : Expr := .atom (.variable .y)
    let e : Expr := .apply (.harmonicMean 0) (.cons x (.cons y .nil)) -
      .apply (.reciprocalSum 0) (.cons x (.cons (x * y) .nil))
    let p : Variable → ℚ := fun v => v.index + 1
    e.Integral ∧ e.Regular p ∧
      ((e.derivative "x").derivative "y").Regular p ∧
      ((e.derivative "x").derivative "y").exact p = .rational (5 / 108) ∧
      ((e.derivative "y").derivative "x").exact p = .rational (5 / 108) := by
  intro x y e p
  have hint : e.Integral := by decide
  have hreg : e.Regular p := by decide +kernel
  obtain ⟨hregular, -, q, hxy, hyx⟩ := mixed_partials_commute.1 e "x" "y" p hint hreg
  have hq : ((e.derivative "x").derivative "y").exact p = .rational (5 / 108) := by decide +kernel
  obtain rfl : q = 5 / 108 := Exact.rational.inj (hxy.symm.trans hq)
  exact ⟨hint, hreg, hregular, hxy, hyx⟩

end Expr

end Trivar
