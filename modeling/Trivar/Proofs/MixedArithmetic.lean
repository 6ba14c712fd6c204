import Trivar.Operator.Numeric
import Trivar.Proofs.Outcome
import Trivar.Proofs.Rounding

/-!
Arithmetic on numbers of both kinds. An operation with a double on one side
converts the other side and can fail in nothing else. Composite operations
divide one by each operand and work on doubles from there: the reciprocals may
fail, the rest does not (`Operator.apply_composite`).
-/

namespace Trivar

namespace Number

/-- A double on the left leaves the right side to be converted. -/
theorem double_left {β : Type} (d : Double) (x : Except EvalError Double)
    (f : Double → Double → β) :
    ((.ok d : Except EvalError Double) >>= fun a => x >>= fun b => pure (f a b)) = x.map (f d) := by
  cases x <;> rfl

theorem double_right {β : Type} (x : Except EvalError Double) (d : Double)
    (f : Double → Double → β) :
    (x >>= fun a => (.ok d : Except EvalError Double) >>= fun b => pure (f a b)) =
      x.map (f · d) := by
  cases x <;> rfl

variable (onInts : Int → Int → Int) (onDoubles : Double → Double → Double)

theorem lift_double_left (d : Double) (n : Number) :
    lift onInts onDoubles (.double d) n = n.toDouble.map fun y => .double (onDoubles d y) := by
  cases n <;> exact double_left d _ fun x y => Number.double (onDoubles x y)

theorem lift_double_right (n : Number) (d : Double) :
    lift onInts onDoubles n (.double d) = n.toDouble.map fun x => .double (onDoubles x d) := by
  cases n <;> exact double_right _ d fun x y => Number.double (onDoubles x y)

theorem quotient_double_left (d : Double) (n : Number) :
    quotient (.double d) n = n.toDouble.map (d.div ·) := by
  cases n <;> exact double_left d _ Double.div

theorem quotient_double_right (n : Number) (d : Double) :
    quotient n (.double d) = n.toDouble.map (·.div d) := by
  cases n <;> exact double_right _ d Double.div

theorem toDouble_double (d : Double) : toDouble (.double d) = .ok d := rfl

/-- Small integers are doubles. -/
theorem toDouble_zero : toDouble (.int 0) = .ok (.zero false) := by decide +kernel

theorem toDouble_argumentCount (extra : Fin 4) :
    toDouble (.int (extra.val + 2 : Nat)) = .ok (.ofInt (extra.val + 2 : Nat)) := by
  revert extra
  decide +kernel

/-- One divided by a number. -/
def reciprocal (n : Number) : Except EvalError Double := quotient (.double (.ofInt 1)) n

end Number

namespace Operator

open Outcome

theorem ne_nil_of_length_eq_arity {α : Type} {o : Operator} {as : List α}
    (h : as.length = o.arity) : as ≠ [] :=
  List.ne_nil_of_length_pos (h ▸ o.one_le_arity)

theorem foldOperands_pair (f : Number → Number → Except EvalError Number) (m n : Number) :
    foldOperands f [m, n] = f m n := by
  simp [foldOperands]

theorem addReciprocal_eq (sum n : Number) :
    addReciprocal sum n = n.reciprocal >>= fun d => sum.add (.double d) := by
  change n.reciprocal.map Number.double >>= sum.add = _
  cases n.reciprocal <;> rfl

theorem foldlM_addReciprocal (ns : List Number) (s : Double) :
    ns.foldlM addReciprocal (.double s) =
      (ns.mapM Number.reciprocal).map fun ds => .double (ds.foldl Double.add s) := by
  induction ns generalizing s with
  | nil => rfl
  | cons n ns ih =>
      rw [List.foldlM_cons, List.mapM_cons, addReciprocal_eq]
      cases n.reciprocal with
      | error e => rfl
      | ok d =>
          rw [ok_bind, ok_bind, Number.add, Number.lift_double_left, Number.toDouble_double, ok_map,
            ok_bind, ih]
          cases ns.mapM Number.reciprocal <;> rfl

theorem reciprocalSumOf_eq {ns : List Number} (h : ns ≠ []) :
    reciprocalSumOf ns =
      (ns.mapM Number.reciprocal).map fun ds => .double (ds.foldl Double.add (.zero false)) := by
  cases ns with
  | nil => exact absurd rfl h
  | cons n ns =>
      rw [reciprocalSumOf, List.foldlM_cons, List.mapM_cons, addReciprocal_eq]
      cases n.reciprocal with
      | error e => rfl
      | ok d =>
          rw [ok_bind, ok_bind, Number.add, Number.lift_double_right, Number.toDouble_zero, ok_map,
            ok_bind, foldlM_addReciprocal]
          cases ns.mapM Number.reciprocal <;> rfl

/-- What a composite operation makes of the sum of the reciprocals of its operands. -/
def ofReciprocalSum : Operator → Double → Double
  | .harmonicMean extra, s => (Double.ofInt (extra.val + 2 : Nat)).div s
  | _, s => s

theorem apply_composite {o : Operator} (ho : o.isComposite) {ns : List Number} (h : ns ≠ []) :
    o.apply ns = (ns.mapM Number.reciprocal).map fun ds =>
      .double (o.ofReciprocalSum (ds.foldl Double.add (.zero false))) := by
  cases o with
  | reciprocalSum extra => exact reciprocalSumOf_eq h
  | harmonicMean extra =>
      rw [apply, reciprocalSumOf_eq h]
      cases ns.mapM Number.reciprocal with
      | error e => rfl
      | ok ds =>
          rw [ok_map, ok_bind, ok_map, Number.div, Number.quotient_double_right,
            Number.toDouble_argumentCount, ok_map, ok_map, ofReciprocalSum]
  | _ => cases ho

end Operator

end Trivar
