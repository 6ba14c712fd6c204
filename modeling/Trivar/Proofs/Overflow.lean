import Mathlib.Data.List.Basic
import Mathlib.Tactic.Choose
import Trivar.Expr.Walk
import Trivar.Proofs.Leaves
import Trivar.Proofs.MixedArithmetic

/-!
When an evaluation fails. Integers are exact and have any size, but an integer
that meets a double has to become one, and a quotient of integers is a double.
An integer past the range of doubles makes such an operation fail; nothing else
does (`Expr.evaluate_fails_iff`). In particular an expression whose variables are
doubles has a value (`Expr.evaluate_at_doubles`).
-/

namespace Trivar

namespace Number

/-- The least natural number that rounds to an infinity, half way from the last double to
`2 ^ 1024`. -/
def overflowBound : Nat := Nat.pow 2 1024 - Nat.pow 2 970

/-- An integer past the range of doubles. -/
def Large : Number → Prop
  | .int n => overflowBound ≤ n.natAbs
  | .double _ => False

instance : DecidablePred Large
  | .int n => inferInstanceAs (Decidable (overflowBound ≤ n.natAbs))
  | .double _ => inferInstanceAs (Decidable False)

/-- `Double.nearestCode_lt_iff` for numbers given in another unit. The powers are hidden behind
names, since they are too large to be computed. -/
theorem nearestCode_scaled_lt_iff {a b unit bound : Nat} (hunit : unit = Nat.pow 2 b)
    (hbound : bound = (2 ^ 54 - 1) * Nat.pow 2 a) (n : Nat) {den : Nat} (hden : 0 < den) :
    Double.nearestCode (n * unit) den < (a + b + 3) * 2 ^ 52 ↔ n < bound * den := by
  have hpos : 0 < unit := hunit ▸ Nat.two_pow_pos b
  have hcode := Double.nearestCode_lt_iff (a + b + 1) (n * unit) hden
  have hscaled : (2 ^ 54 - 1) * (den * 2 ^ (a + b + 1)) = 2 * (bound * den * unit) := by
    rw [hunit, hbound]
    change _ = 2 * ((2 ^ 54 - 1) * 2 ^ a * den * 2 ^ b)
    ring
  rw [hscaled, Nat.mul_lt_mul_left Nat.two_pos] at hcode
  exact hcode.trans (Nat.mul_lt_mul_right hpos)

theorem nearestCode_finite_iff (n : Nat) {den : Nat} (hden : 0 < den) :
    Double.nearestCode (n * Double.unitsPerOne) den < Double.infinityCode ↔
      n < overflowBound * den := by
  have hunit : Double.unitsPerOne = Nat.pow 2 1074 := by
    unfold Double.unitsPerOne
    rfl
  have hbound : overflowBound = (2 ^ 54 - 1) * Nat.pow 2 970 := by decide +kernel
  exact nearestCode_scaled_lt_iff hunit hbound n hden

theorem ofRounded_eq_error_iff {e err : EvalError} {negative : Bool} {n den : Nat}
    (hden : 0 < den) :
    ofRounded e (.ofQuotient negative (n * Double.unitsPerOne) den) = .error err ↔
      overflowBound * den ≤ n ∧ err = e := by
  rw [← Nat.not_lt, ← nearestCode_finite_iff n hden, Double.ofQuotient, Double.ofCode]
  split
  · next h => simp [ofRounded, h]
  · next h => simp [ofRounded, h, eq_comm]

theorem toDouble_eq_error_iff {n : Number} {err : EvalError} :
    n.toDouble = .error err ↔ n.Large ∧ err = .integerTooLarge := by
  cases n with
  | int k =>
      have hround := @ofRounded_eq_error_iff .integerTooLarge err (decide (k < 0)) k.natAbs 1
        Nat.one_pos
      rw [Nat.mul_one] at hround
      exact hround
  | double d => exact iff_of_false nofun And.left

theorem reciprocal_eq_error_iff {n : Number} {err : EvalError} :
    n.reciprocal = .error err ↔ n.Large ∧ err = .integerTooLarge := by
  rw [reciprocal, quotient_double_left, Outcome.map_eq_error, toDouble_eq_error_iff]

end Number

namespace Operator

open Number Outcome

/-- The operation on these operands fails with this error. Sums, differences and products of
integers are exact; the quotient of two integers is rounded only once, unless it is one by zero,
for which the dividend becomes a double. All other operations convert every operand. -/
def Overflows (o : Operator) (ns : List Number) (err : EvalError) : Prop :=
  match o, ns with
  | .negate, _ => False
  | .add, [.int _, .int _] | .sub, [.int _, .int _] | .mul, [.int _, .int _] => False
  | .div, [.int a, .int b] =>
    if b = 0 then Large (.int a) ∧ err = .integerTooLarge
    else overflowBound * b.natAbs ≤ a.natAbs ∧ err = .quotientTooLarge
  | _, ns => (∃ n ∈ ns, n.Large) ∧ err = .integerTooLarge

theorem lift_eq_error_iff {f : Int → Int → Int} {g : Double → Double → Double} {m n : Number}
    {err : EvalError} : lift f g m n = .error err ↔ Overflows .add [m, n] err := by
  match m, n with
  | .int a, .int b => simp [lift, Overflows]
  | .double c, n =>
      rw [lift_double_left, map_eq_error, toDouble_eq_error_iff]
      simp [Overflows, Large]
  | .int a, .double d =>
      rw [lift_double_right, map_eq_error, toDouble_eq_error_iff]
      simp [Overflows, Large]

theorem quotient_eq_error_iff {m n : Number} {err : EvalError} :
    quotient m n = .error err ↔ Overflows .div [m, n] err := by
  match m, n with
  | .int a, .int b =>
      rw [quotient, Overflows]
      by_cases hb : b = 0
      · rw [if_pos hb, if_pos hb, map_eq_error, toDouble_eq_error_iff]
      · rw [if_neg hb, if_neg hb]
        exact ofRounded_eq_error_iff (Int.natAbs_pos.2 hb)
  | .double c, n =>
      rw [quotient_double_left, map_eq_error, toDouble_eq_error_iff]
      simp [Overflows, Large]
  | .int a, .double d =>
      rw [quotient_double_right, map_eq_error, toDouble_eq_error_iff]
      simp [Overflows, Large]

theorem mapM_reciprocal_eq_error_iff {ns : List Number} {err : EvalError} :
    ns.mapM reciprocal = .error err ↔ (∃ n ∈ ns, n.Large) ∧ err = .integerTooLarge := by
  constructor
  · intro h
    obtain ⟨n, hn, herr⟩ := exists_of_mapM_eq_error h
    rw [reciprocal_eq_error_iff] at herr
    exact ⟨⟨n, hn, herr.1⟩, herr.2⟩
  · rintro ⟨⟨n, hn, hlarge⟩, rfl⟩
    have hfails : ∃ e, ns.mapM reciprocal = .error e :=
      mapM_fails_iff.2 ⟨n, hn, _, reciprocal_eq_error_iff.2 ⟨hlarge, rfl⟩⟩
    obtain ⟨e, he⟩ := hfails
    obtain ⟨k, hk, herr⟩ := exists_of_mapM_eq_error he
    rw [he, (reciprocal_eq_error_iff.1 herr).2]

theorem apply_eq_error_iff {o : Operator} {ns : List Number} (h : ns.length = o.arity)
    {err : EvalError} : o.apply ns = .error err ↔ o.Overflows ns err := by
  have hcomposite (ho : o.isComposite) :
      o.apply ns = .error err ↔ (∃ n ∈ ns, n.Large) ∧ err = .integerTooLarge := by
    rw [apply_composite ho (ne_nil_of_length_eq_arity h), map_eq_error, mapM_reciprocal_eq_error_iff]
  cases o with
  | add | sub | mul =>
      obtain ⟨m, n, rfl⟩ := List.length_eq_two.1 h
      rw [apply, foldOperands_pair]
      refine lift_eq_error_iff.trans ?_
      cases m <;> cases n <;> rfl
  | div =>
      obtain ⟨m, n, rfl⟩ := List.length_eq_two.1 h
      rw [apply, foldOperands_pair, Number.div, map_eq_error]
      exact quotient_eq_error_iff
  | negate =>
      obtain ⟨n, rfl⟩ := List.length_eq_one_iff.1 h
      refine iff_of_false ?_ id
      rintro ⟨⟩
  | reciprocalSum extra => exact hcomposite rfl
  | harmonicMean extra => exact hcomposite rfl

theorem apply_doubles {o : Operator} {ds : List Double} (h : ds.length = o.arity) :
    ∃ d, o.apply (ds.map .double) = .ok (.double d) := by
  have hcomposite (ho : o.isComposite) : ∃ d, o.apply (ds.map .double) = .ok (.double d) := by
    have hlength : (ds.map Number.double).length = o.arity := by rw [List.length_map, h]
    have hreciprocals : (ds.map Number.double).mapM reciprocal =
        .ok (ds.map (Double.ofInt 1).div) := by
      rw [mapM_eq_ok, List.map_map, List.map_map]
      exact List.map_congr_left fun d _ => quotient_double_left _ (.double d)
    rw [apply_composite ho (ne_nil_of_length_eq_arity hlength), hreciprocals, ok_map]
    exact ⟨_, rfl⟩
  cases o with
  | add | sub | mul | div =>
      obtain ⟨a, b, rfl⟩ := List.length_eq_two.1 h
      exact ⟨_, rfl⟩
  | negate =>
      obtain ⟨a, rfl⟩ := List.length_eq_one_iff.1 h
      exact ⟨a.neg, rfl⟩
  | reciprocalSum extra => exact hcomposite rfl
  | harmonicMean extra => exact hcomposite rfl

end Operator

namespace Expr

open Outcome

/-- The operation at the root has operands on which it fails. -/
def Overflows (p : Point) (err : EvalError) : Expr → Prop
  | .atom _ => False
  | .apply o args =>
    ∃ ns : List Number, args.toList.map (evaluate p) = ns.map .ok ∧ o.Overflows ns err

theorem length_of_map_evaluate {p : Point} {o : Operator} {args : Tuple Expr o.arity}
    {ns : List Number} (h : args.toList.map (evaluate p) = ns.map .ok) : ns.length = o.arity := by
  have hmap := congrArg List.length h
  rwa [List.length_map, List.length_map, args.length_toList, eq_comm] at hmap

theorem evaluate_apply_of_forall {p : Point} {o : Operator} {args : Tuple Expr o.arity}
    {value : Expr → Number} (h : ∀ a ∈ args.toList, evaluate p a = .ok (value a)) :
    evaluate p (.apply o args) = o.apply (args.toList.map value) := by
  have hall : (args.toList.map (evaluate p)).mapM id = .ok (args.toList.map value) := by
    rw [mapM_eq_ok, List.map_id, List.map_map]
    exact List.map_congr_left h
  rw [evaluate_apply, hall, ok_bind]

theorem overflows_apply_iff {p : Point} {err : EvalError} {o : Operator}
    {args : Tuple Expr o.arity} :
    Overflows p err (.apply o args) ↔
      ∃ ns, (args.toList.map (evaluate p)).mapM id = .ok ns ∧ o.apply ns = .error err := by
  simp only [Overflows, mapM_eq_ok, List.map_id]
  refine exists_congr fun ns => and_congr_right fun h => ?_
  exact (Operator.apply_eq_error_iff (length_of_map_evaluate h)).symm

theorem exists_overflow {p : Point} {e : Expr} {err : EvalError}
    (h : evaluate p e = .error err) : ∃ s ∈ e.subtrees, s.Overflows p err := by
  induction e using induct with
  | atom a =>
      rw [evaluate_atom] at h
      cases h
  | apply o args ih =>
      rw [evaluate_apply] at h
      cases hvalues : (args.toList.map (evaluate p)).mapM id with
      | ok ns =>
          rw [hvalues, ok_bind] at h
          exact ⟨_, mem_subtrees_apply.2 (.inl rfl), overflows_apply_iff.2 ⟨ns, hvalues, h⟩⟩
      | error err' =>
          rw [hvalues, error_bind] at h
          cases h
          -- The first argument that fails passes its error on.
          obtain ⟨_, hmem, hfails⟩ := exists_of_mapM_eq_error hvalues
          obtain ⟨a, ha, rfl⟩ := List.mem_map.1 hmem
          obtain ⟨s, hs, hoverflow⟩ := ih a ha hfails
          exact ⟨s, mem_subtrees_apply.2 (.inr ⟨a, ha, hs⟩), hoverflow⟩

theorem evaluate_ne_noOperands (p : Point) (e : Expr) : evaluate p e ≠ .error .noOperands := by
  intro h
  obtain ⟨s, -, hoverflow⟩ := exists_overflow h
  cases s with
  | atom a => exact hoverflow
  | apply o args =>
      obtain ⟨ns, -, hfails⟩ := hoverflow
      unfold Operator.Overflows at hfails
      grind

/-- An evaluation fails exactly if an operation in the tree does. -/
theorem evaluate_fails_iff (p : Point) (e : Expr) :
    (∃ err, evaluate p e = .error err) ↔ ∃ s ∈ e.subtrees, ∃ err, s.Overflows p err := by
  constructor
  · rintro ⟨err, h⟩
    obtain ⟨s, hs, hoverflow⟩ := exists_overflow h
    exact ⟨s, hs, err, hoverflow⟩
  · induction e using induct with
    | atom a =>
        rintro ⟨s, hs, err, hoverflow⟩
        rw [mem_subtrees_atom.1 hs] at hoverflow
        exact hoverflow.elim
    | apply o args ih =>
        rintro ⟨s, hs, err, hoverflow⟩
        rw [evaluate_apply]
        obtain rfl | ⟨a, ha, hs⟩ := mem_subtrees_apply.1 hs
        · obtain ⟨ns, hns, happly⟩ := overflows_apply_iff.1 hoverflow
          exact ⟨err, by rw [hns, ok_bind, happly]⟩
        · -- Another argument may fail before this one, with an error of its own.
          obtain ⟨err', hfails⟩ := ih a ha ⟨s, hs, err, hoverflow⟩
          obtain ⟨e, he⟩ := (@mapM_fails_iff _ _ _ id (args.toList.map (evaluate p))).2
            ⟨evaluate p a, List.mem_map_of_mem ha, err', hfails⟩
          exact ⟨e, by rw [he, error_bind]⟩

/-- The sum of an integer past the range of doubles and a literal has no value. -/
theorem evaluate_large_integer_plus_one :
    let p : Point := ⟨.int (Nat.pow 10 400 : Nat), .int 0, .int 0⟩
    let sum : Expr := .atom (.variable .x) + ((1 : Nat) : Expr)
    sum.evaluate p = .error .integerTooLarge := by
  decide +kernel

/-- An expression whose variables are all doubles has a value, and it is a double. -/
theorem evaluate_at_doubles {p : Point} {e : Expr}
    (hp : ∀ v ∈ e.freeVariables, ∃ d, p.at v = .double d) :
    ∃ d, evaluate p e = .ok (.double d) := by
  induction e using induct with
  | atom a =>
      rw [evaluate_atom]
      match a with
      | .number n => exact ⟨n.saturated, rfl⟩
      | .variable v =>
          obtain ⟨d, hd⟩ := hp v (mem_freeVariables.2 (by simp))
          exact ⟨d, congrArg Except.ok hd⟩
  | apply o args ih =>
      have hvalues : ∀ a ∈ args.toList, ∃ d, evaluate p a = .ok (.double d) := fun a ha =>
        ih a ha fun v hv => hp v (mem_freeVariables_apply.2 ⟨a, ha, hv⟩)
      have : Nonempty Double := ⟨.nan⟩
      choose! value hvalue using hvalues
      have hlength : (args.toList.map value).length = o.arity := by
        rw [List.length_map, args.length_toList]
      obtain ⟨d, hd⟩ := o.apply_doubles hlength
      rw [List.map_map] at hd
      exact ⟨d, (evaluate_apply_of_forall hvalue).trans hd⟩

end Expr

end Trivar
