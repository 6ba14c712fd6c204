import Trivar.Proofs.Denotation

/-!
Expressions as terms of computer algebra, which have neither differences nor
quotients nor composite operations. A difference becomes the sum with a
negation and a quotient the product with a reciprocal; a composite operation is
translated as its expansion is (`translation_expansion`).

Terms are evaluated from the bottom up. The value of the translation is the
exact value of the expression (`value_translation`), hence the rational number
that the expression denotes unless a denominator vanishes.
-/

namespace Trivar

inductive Term
  | atom (a : Atom)
  | sum (a b : Term)
  | product (a b : Term)
  | reciprocal (a : Term)
  | negation (a : Term)

namespace Term

instance : Arithmetic Term where
  add := sum
  sub a b := sum a (negation b)
  mul := product
  div a b := product a (reciprocal b)
  neg := negation
  natCast n := atom (.number (.int n))

def value (values : Variable → Rat) : Term → Exact
  | atom a => Expr.atomExact values a
  | sum a b => (a.value values).add (b.value values)
  | product a b => (a.value values).mul (b.value values)
  | reciprocal a => (a.value values).reciprocal
  | negation a => (a.value values).neg

theorem hom_value (p : Variable → Rat) : Arithmetic.Hom (value p) :=
  .of_map (fun _ _ => rfl) (fun _ _ => rfl) (fun _ _ => rfl) (fun _ _ => rfl) (fun _ => rfl)
    fun _ => rfl

end Term

namespace Expr

def translation : Expr → Term := fold Term.atom fun o _ args => o.combine args

theorem translation_apply (o : Operator) (args : Tuple Expr o.arity) :
    translation (.apply o args) = o.combine (args.map translation) :=
  fold_apply ..

theorem hom_translation : Arithmetic.Hom translation :=
  .of_map (fun _ _ => rfl) (fun _ _ => rfl) (fun _ _ => rfl) (fun _ _ => rfl) (fun _ => rfl)
    fun _ => rfl

theorem translation_expansion (e : Expr) : e.expansion.translation = e.translation := by
  cases e with
  | atom a => rfl
  | apply o args =>
      rw [expansion]
      split
      · rw [hom_translation.combine, translation_apply]
      · rfl

theorem value_translation (p : Variable → Rat) (e : Expr) : e.translation.value p = e.exact p := by
  induction e using induct with
  | atom a => rfl
  | apply o args ih =>
      rw [translation_apply, (Term.hom_value p).combine, Tuple.map_map, Tuple.map_congr ih,
        exact_apply]

/-- Without variables it does not matter where an expression is evaluated. -/
theorem exact_of_freeVariables_eq_nil {e : Expr} (h : e.freeVariables = []) (p q : Variable → Rat) :
    e.exact p = e.exact q := by
  refine fold_congr fun a ha => ?_
  match a with
  | .number n => rfl
  | .variable v =>
      rw [← mem_freeVariables, h] at ha
      cases ha

/-- The translation has the value that the expression denotes wherever no denominator vanishes.
Without variables it has that value at every point, and it is infinite or undefined only if some
denominator is zero. -/
theorem value_translation_eq_denote {e : Expr} (hint : e.Integral) (p : Variable → ℚ) :
    (e.Regular p → e.translation.value p = .rational (e.denote p)) ∧
    (e.freeVariables = [] → ∀ q,
      (e.Regular p → e.translation.value q = .rational (e.denote p)) ∧
      (e.translation.value q = .infinite ∨ e.translation.value q = .undefined →
        0 ∈ e.denominators p)) := by
  simp only [value_translation]
  refine ⟨exact_of_regular hint, fun hclosed q => ?_⟩
  rw [exact_of_freeVariables_eq_nil hclosed q p]
  refine ⟨exact_of_regular hint, fun hspecial => ?_⟩
  by_contra hreg
  rw [exact_of_regular hint hreg] at hspecial
  obtain h | h := hspecial
  · cases h
  · cases h

/-- A difference with a harmonic mean, and a quotient by a difference that is zero. -/
theorem value_translation_eq_denote_cancellation :
    let e : Expr := .apply .sub (.cons (.atom (.variable .x))
      (.cons (.apply (.harmonicMean 0) (.cons (.atom (.variable .x)) (.cons (.integer (-3)) .nil)))
        .nil))
    let closed : Expr := .apply .div (.cons (.integer 1)
      (.cons (.apply .sub (.cons (.integer 2) (.cons (.integer 2) .nil))) .nil))
    let p : Variable → ℚ := fun _ => 1 / 2
    e.Integral ∧ e.Regular p ∧ e.translation.value p = .rational (-7 / 10) ∧
      closed.Integral ∧ closed.freeVariables = [] ∧ closed.translation.value p = .infinite ∧
        0 ∈ closed.denominators p := by
  intro e closed p
  have hint : e.Integral := by decide
  have hreg : e.Regular p := by decide +kernel
  have hdenote : e.denote p = -7 / 10 := by decide +kernel
  have hclosed : closed.Integral := by decide
  have hvariables : closed.freeVariables = [] := by decide
  have hvalue : closed.translation.value p = .infinite := by decide +kernel
  exact ⟨hint, hreg, hdenote ▸ (value_translation_eq_denote hint p).1 hreg, hclosed, hvariables,
    hvalue, ((value_translation_eq_denote hclosed p).2 hvariables p).2 (.inl hvalue)⟩

end Expr

end Trivar
