import Trivar.Expr.Derivative
import Trivar.Expr.Walk
import Trivar.Proofs.Arithmetic
import Trivar.Proofs.MixedArithmetic

/-!
Composite operations and their expansions in numbers. Both divide one by the
operands in turn and add up the quotients; the operation starts from zero, the
expansion from the first quotient. The two sums differ in one case only: when
all quotients are the negative zero, so are their sums, but not when zero is
added in front. A quotient of one is the negative zero exactly for the negative
infinity (`Number.reciprocal_eq_negativeZero_iff`).
-/

namespace Trivar

namespace Double

theorem natAbs_signed (negative : Bool) (n : Nat) : (signed negative n).natAbs = n := by
  cases negative <;> simp [signed]

theorem signed_eq_zero_iff {negative : Bool} {n : Nat} : signed negative n = 0 ↔ n = 0 := by
  rw [← Int.natAbs_eq_zero, natAbs_signed]

theorem decide_signed_neg (negative : Bool) {n : Nat} (h : n ≠ 0) :
    decide (signed negative n < 0) = negative := by
  cases negative <;> simp [signed]
  omega

/-- The negative zero is neutral for addition; the positive one is, but for its negative. -/
theorem zero_add (negative : Bool) (d : Double) :
    add (zero negative) d = if d = zero true then zero negative else d := by
  cases d with
  | nan => rfl
  | infinite t => rfl
  | finite t b =>
      have hsum : signed negative (unitsOfCode 0) + signed t (unitsOfCode b) =
          signed t (unitsOfCode b) := by
        cases negative <;> simp [signed, unitsOfCode]
      have hstep : add (zero negative) (.finite t b) =
          if signed t (unitsOfCode b) = 0 then zero (negative && t)
          else ofQuotient (decide (signed t (unitsOfCode b) < 0))
            (signed t (unitsOfCode b)).natAbs 1 := by
        rw [← hsum]
        rfl
      rw [hstep]
      by_cases hzero : b.val = 0
      · obtain rfl : b = ⟨0, by decide⟩ := Fin.ext hzero
        revert negative t
        decide +kernel
      · have hunits : unitsOfCode b ≠ 0 := mt unitsOfCode_eq_zero_iff.1 hzero
        have hne : Double.finite t b ≠ zero true := by
          rintro ⟨⟩
          exact hzero rfl
        rw [if_neg (mt signed_eq_zero_iff.1 hunits), if_neg hne, decide_signed_neg t hunits,
          natAbs_signed, ofQuotient_unitsOfCode]

theorem negativeZero_add (d : Double) : add (zero true) d = d := by
  rw [zero_add]
  split
  · next h => exact h.symm
  · rfl

theorem foldl_add_zeros {ds : List Double} (h : ∀ d ∈ ds, d = zero true) (negative : Bool) :
    ds.foldl add (zero negative) = zero negative := by
  induction ds with
  | nil => rfl
  | cons d ds ih =>
      obtain ⟨rfl, hds⟩ := List.forall_mem_cons.1 h
      rw [List.foldl_cons, zero_add, if_pos rfl, ih hds]

/-- The sign of the zero in front of a sum is lost as soon as a term is not the negative zero. -/
theorem foldl_add_zero {ds : List Double} (h : ¬ ∀ d ∈ ds, d = zero true) :
    ds.foldl add (zero false) = ds.foldl add (zero true) := by
  induction ds with
  | nil => simp at h
  | cons d ds ih =>
      rw [List.foldl_cons, List.foldl_cons, zero_add, zero_add]
      by_cases hd : d = zero true
      · rw [if_pos hd, if_pos hd]
        exact ih fun hds => h (List.forall_mem_cons.2 ⟨hd, hds⟩)
      · rw [if_neg hd, if_neg hd]

theorem nearestCode_of_ofQuotient {negative s : Bool} {num den : Nat} {code : Fin infinityCode}
    (h : ofQuotient negative num den = .finite s code) : nearestCode num den = code := by
  unfold ofQuotient ofCode at h
  split at h <;> cases h
  rfl

theorem div_finite (s t : Bool) (a b : Fin infinityCode) :
    div (.finite s a) (.finite t b) =
      if b.val = 0 then if a.val = 0 then .nan else .infinite (s ^^ t)
      else ofQuotient (s ^^ t) (unitsOfCode a * unitsPerOne) (unitsOfCode b) := rfl

theorem div_neg (a b : Double) : a.div b.neg = (a.div b).neg := by
  cases a with
  | nan => cases b <;> rfl
  | infinite s =>
      cases b with
      | finite t b => rw [neg, div, div, Bool.xor_not, neg]
      | nan => rfl
      | infinite t => rfl
  | finite s a =>
      cases b with
      | nan => rfl
      | infinite t => simp only [neg, div, Bool.xor_not, zero]
      | finite t b =>
          rw [neg, div_finite, div_finite, Bool.xor_not]
          by_cases hb : b.val = 0
          · rw [if_pos hb, if_pos hb]
            split <;> rfl
          · rw [if_neg hb, if_neg hb, ofQuotient_not]

/-- The code of one. -/
def oneCode : Fin infinityCode := ⟨1023 * 2 ^ 52, by decide⟩

theorem one_units_large : 2 ^ 53 * 2 ^ 2045 ≤ unitsOfCode oneCode * unitsPerOne := by
  decide +kernel

theorem ofInt_one : ofInt 1 = .finite false oneCode := by decide +kernel

/-- One divided by a finite double is too large to round to zero. -/
theorem one_div_eq_negativeZero_iff {d : Double} :
    (ofInt 1).div d = zero true ↔ d = .infinite true := by
  rw [ofInt_one]
  cases d with
  | nan => simp [div, zero]
  | infinite t => simp [div, zero]
  | finite t b =>
      refine iff_of_false (fun h => ?_) nofun
      rw [div_finite] at h
      by_cases hzero : b.val = 0
      · rw [if_pos hzero, if_neg (by decide)] at h
        cases h
      · rw [if_neg hzero, zero] at h
        have hpos : 0 < unitsOfCode b := Nat.pos_of_ne_zero (mt unitsOfCode_eq_zero_iff.1 hzero)
        have hcode := nearestCode_of_ofQuotient h
        have hsmall := (nearestCode_eq_zero_iff _ hpos).1 hcode
        -- The numbers are far too large to be computed in a decision procedure.
        have hlast : unitsOfCode b < unitsOfCode oneCode * unitsPerOne :=
          Nat.lt_of_lt_of_le (unitsOfCode_lt b.isLt) one_units_large
        exact Nat.not_lt_of_le (Nat.le_trans (Nat.le_mul_of_pos_left _ Nat.two_pos) hsmall) hlast

end Double

namespace Number

theorem div_doubles (a b : Double) :
    Number.div (.double a) (.double b) = .ok (.double (a.div b)) := rfl

theorem ofRounded_ne_infinite (e : EvalError) (d : Double) (negative : Bool) :
    ofRounded e d ≠ .ok (.infinite negative) := by
  cases d <;> nofun

theorem reciprocal_eq_negativeZero_iff {n : Number} :
    n.reciprocal = .ok (.zero true) ↔ n = .double (.infinite true) := by
  rw [reciprocal, quotient_double_left, Outcome.map_eq_ok]
  simp only [Double.one_div_eq_negativeZero_iff]
  cases n with
  | double d => simp [toDouble_double]
  | int k =>
      refine iff_of_false ?_ nofun
      rintro ⟨d, h, hd⟩
      rw [hd] at h
      exact ofRounded_ne_infinite _ _ _ h

end Number

open Outcome

/-- Arithmetic on outcomes: the operands one after the other, then the operation. -/
instance : Arithmetic (Except EvalError Number) where
  add x y := x >>= fun m => y >>= m.add
  sub x y := x >>= fun m => y >>= m.sub
  mul x y := x >>= fun m => y >>= m.mul
  div x y := x >>= fun m => y >>= m.div
  neg x := x.map Number.neg
  natCast n := .ok (.double (.ofInt n))

namespace Operator

theorem one_div_outcome (x : Except EvalError Number) :
    ((1 : Nat) : Except EvalError Number) / x = (x >>= Number.reciprocal).map .double := by
  change x >>= Number.div (.double (.ofInt 1)) = _
  cases x with
  | error e => rfl
  | ok n => rw [ok_bind, ok_bind, Number.div, Number.reciprocal]

theorem map_double_add (x y : Except EvalError Double) :
    x.map Number.double + y.map Number.double =
      (x >>= fun s => y.map s.add).map Number.double := by
  cases x with
  | error e => rfl
  | ok s => cases y <;> rfl

/-- An expansion divides and adds in turns. Sums of doubles do not fail, so the reciprocals can as
well be computed before. -/
theorem foldl_reciprocals (xs : List (Except EvalError Number)) (x : Except EvalError Double) :
    xs.foldl (fun sum y => sum + ((1 : Nat) : Except EvalError Number) / y) (x.map .double) =
      (x >>= fun s => (xs.mapM (· >>= Number.reciprocal)).map (·.foldl Double.add s)).map
        .double := by
  induction xs generalizing x with
  | nil => cases x <;> rfl
  | cons y ys ih =>
      rw [List.foldl_cons, one_div_outcome, map_double_add, ih, List.mapM_cons]
      cases x with
      | error e => rfl
      | ok s =>
          cases y >>= Number.reciprocal with
          | error e => rfl
          | ok d => cases ys.mapM (· >>= Number.reciprocal) <;> rfl

theorem sumOfReciprocals_outcomes {n : Nat} (xs : Tuple (Except EvalError Number) (n + 1)) :
    sumOfReciprocals xs =
      (xs.toList.mapM (· >>= Number.reciprocal)).map fun ds =>
        .double (ds.foldl Double.add (.zero true)) := by
  cases xs with
  | cons x xs =>
      rw [sumOfReciprocals, one_div_outcome, foldl_reciprocals, Tuple.toList, List.mapM_cons]
      cases x >>= Number.reciprocal with
      | error e => rfl
      | ok d =>
          cases xs.toList.mapM (· >>= Number.reciprocal) with
          | error e => rfl
          | ok ds =>
              simp only [ok_bind, ok_map, pure, Except.pure, List.foldl_cons,
                Double.negativeZero_add]

theorem combine_composite {o : Operator} (ho : o.isComposite)
    (xs : Tuple (Except EvalError Number) o.arity) :
    o.combine xs = (xs.toList.mapM (· >>= Number.reciprocal)).map fun ds =>
      .double (o.ofReciprocalSum (ds.foldl Double.add (.zero true))) := by
  cases o with
  | reciprocalSum extra => exact sumOfReciprocals_outcomes xs
  | harmonicMean extra =>
      rw [combine, sumOfReciprocals_outcomes]
      change _ >>= Number.div (.double (.ofInt (extra.val + 2 : Nat))) = _
      cases xs.toList.mapM (· >>= Number.reciprocal) with
      | error e => rfl
      | ok ds => rw [ok_map, ok_bind, ok_map, Number.div_doubles, ofReciprocalSum]
  | _ => cases ho

theorem ofReciprocalSum_neg (o : Operator) (s : Double) :
    o.ofReciprocalSum s.neg = (o.ofReciprocalSum s).neg := by
  cases o with
  | harmonicMean extra => exact Double.div_neg ..
  | _ => rfl

theorem forall_reciprocals_iff {ns : List Number} {ds : List Double}
    (h : ns.mapM Number.reciprocal = .ok ds) :
    (∀ d ∈ ds, d = .zero true) ↔ ∀ n ∈ ns, n = .double (.infinite true) := by
  have hds : (∀ y ∈ ds.map (Except.ok (ε := EvalError)), y = .ok (.zero true)) ↔
      ∀ d ∈ ds, d = .zero true := by
    simp
  rw [← hds, ← mapM_eq_ok.1 h]
  simp [Number.reciprocal_eq_negativeZero_iff]

/-- A composite operation and its expansion succeed on the same operands. Their values are the
same too, except that they have opposite signs if all operands are the negative infinity. -/
theorem combine_eq_ok_iff {o : Operator} (ho : o.isComposite)
    (xs : Tuple (Except EvalError Number) o.arity) (n : Number) :
    o.combine xs = .ok n ↔ ∃ m, xs.toList.mapM id >>= o.apply = .ok m ∧
      n = if ∀ x ∈ xs.toList, x = .ok (.double (.infinite true)) then m.neg else m := by
  have hne {ns : List Number} (h : xs.toList = ns.map .ok) : ns ≠ [] := by
    rintro rfl
    exact ne_nil_of_length_eq_arity xs.length_toList h
  have hvalue {ns : List Number} {ds : List Double} (hns : xs.toList = ns.map .ok)
      (hds : ns.mapM Number.reciprocal = .ok ds) :
      Number.double (o.ofReciprocalSum (ds.foldl Double.add (.zero true))) =
        if ∀ x ∈ xs.toList, x = .ok (.double (.infinite true)) then
          (Number.double (o.ofReciprocalSum (ds.foldl Double.add (.zero false)))).neg
        else .double (o.ofReciprocalSum (ds.foldl Double.add (.zero false))) := by
    have hall : (∀ x ∈ xs.toList, x = .ok (.double (.infinite true))) ↔
        ∀ d ∈ ds, d = .zero true := by
      rw [forall_reciprocals_iff hds, hns]
      simp
    split
    · next h =>
      have hzeros := Double.foldl_add_zeros (hall.1 h)
      rw [hzeros, hzeros, Number.neg, ← ofReciprocalSum_neg]
      rfl
    · next h => rw [Double.foldl_add_zero (mt hall.2 h)]
  -- The operation evaluates all operands first, the expansion each one right before its
  -- reciprocal; `mapM_bind_eq_ok` says that this makes no difference to success.
  rw [combine_composite ho, map_eq_ok]
  constructor
  · rintro ⟨ds, h, rfl⟩
    obtain ⟨ns, hns, hds⟩ := mapM_bind_eq_ok.1 h
    refine ⟨_, bind_eq_ok.2 ⟨ns, mapM_eq_ok.2 ?_, ?_⟩, hvalue hns hds⟩
    · rw [List.map_id, hns]
    · rw [apply_composite ho (hne hns), hds, ok_map]
  · rintro ⟨m, h, rfl⟩
    obtain ⟨ns, hns, happly⟩ := bind_eq_ok.1 h
    rw [mapM_eq_ok, List.map_id] at hns
    rw [apply_composite ho (hne hns), map_eq_ok] at happly
    obtain ⟨ds, hds, rfl⟩ := happly
    exact ⟨ds, mapM_bind_eq_ok.2 ⟨ns, hns, hds⟩, hvalue hns hds⟩

end Operator

namespace Expr

theorem evaluate_pair (p : Point) {f : Number → Number → Except EvalError Number} (a b : Expr) :
    ([a, b].map (evaluate p)).mapM id >>= Operator.foldOperands f =
      evaluate p a >>= fun m => evaluate p b >>= fun n => f m n := by
  simp [Operator.foldOperands_pair]

/-- Evaluation carries the primitive operations of expressions over to outcomes, and with them
every expansion. -/
theorem hom_evaluate (p : Point) : Arithmetic.Hom (evaluate p) := by
  refine .of_map (fun a b => (evaluate_apply p .add _).trans (evaluate_pair p a b))
    (fun a b => (evaluate_apply p .sub _).trans (evaluate_pair p a b))
    (fun a b => (evaluate_apply p .mul _).trans (evaluate_pair p a b))
    (fun a b => (evaluate_apply p .div _).trans (evaluate_pair p a b)) (fun a => ?_)
    fun n => evaluate_atom p _
  refine (evaluate_apply p .negate _).trans ?_
  change [evaluate p a].mapM id >>= Operator.negate.apply = (evaluate p a).map Number.neg
  cases evaluate p a <;> rfl

theorem evaluate_combine (p : Point) (o : Operator) (args : Tuple Expr o.arity) :
    evaluate p (o.combine args) = o.combine (args.map (evaluate p)) :=
  (hom_evaluate p).combine o args

/-- A composite operation whose operands are all the negative infinity, so that every reciprocal
is the negative zero. -/
def NegativeZeros (p : Point) : Expr → Prop
  | .atom _ => False
  | .apply o args =>
    o.isComposite ∧ ∀ a ∈ args.toList, evaluate p a = .ok (.double (.infinite true))

instance (p : Point) : (e : Expr) → Decidable (e.NegativeZeros p)
  | .atom _ => inferInstanceAs (Decidable False)
  | .apply o args => inferInstanceAs (Decidable (o.isComposite ∧
      ∀ a ∈ args.toList, evaluate p a = .ok (.double (.infinite true))))

/-- An expansion has a value exactly where the expression has one, and it is the same value, bit
for bit, up to one case. -/
theorem evaluate_expansion_eq_ok_iff (p : Point) (e : Expr) (n : Number) :
    evaluate p e.expansion = .ok n ↔
      ∃ m, evaluate p e = .ok m ∧ n = if e.NegativeZeros p then m.neg else m := by
  have hself {e : Expr} (hexpansion : e.expansion = e) (h : ¬ e.NegativeZeros p) :
      evaluate p e.expansion = .ok n ↔
        ∃ m, evaluate p e = .ok m ∧ n = if e.NegativeZeros p then m.neg else m := by
    rw [hexpansion]
    simp only [if_neg h]
    exact ⟨fun h => ⟨n, h, rfl⟩, fun ⟨_, h, hn⟩ => hn ▸ h⟩
  cases e with
  | atom a => exact hself rfl id
  | apply o args =>
      by_cases ho : o.isComposite
      · have hcombine := Operator.combine_eq_ok_iff ho (args.map (evaluate p)) n
        simp only [Tuple.toList_map, List.forall_mem_map] at hcombine
        simp only [expansion, ho, if_true, evaluate_combine, evaluate_apply, NegativeZeros, true_and,
          hcombine]
      · exact hself (if_neg ho) fun h => ho h.1

/-- In the exceptional case the operation has the value for a sum of zero. -/
theorem evaluate_of_negativeZeros {p : Point} {o : Operator} {args : Tuple Expr o.arity}
    (h : NegativeZeros p (.apply o args)) :
    evaluate p (.apply o args) = .ok (.double (o.ofReciprocalSum (.zero false))) := by
  obtain ⟨ho, hargs⟩ := h
  have hvalues : args.toList.map (evaluate p) =
      (args.toList.map fun _ => .double (.infinite true)).map .ok := by
    rw [List.map_map]
    exact List.map_congr_left hargs
  have hreciprocals : (args.toList.map fun _ => Number.double (.infinite true)).mapM
      Number.reciprocal = .ok (args.toList.map fun _ => .zero true) := by
    rw [mapM_eq_ok, List.map_map, List.map_map]
    exact List.map_congr_left fun _ _ => Number.reciprocal_eq_negativeZero_iff.2 rfl
  have hne : (args.toList.map fun _ => Number.double (.infinite true)) ≠ [] :=
    mt List.map_eq_nil_iff.1 (Operator.ne_nil_of_length_eq_arity args.length_toList)
  have hzeros := @Double.foldl_add_zeros (args.toList.map fun _ => .zero true) (by simp) false
  rw [evaluate_apply, hvalues, mapM_eq_ok.2 (List.map_id _), ok_bind,
    Operator.apply_composite ho hne, hreciprocals, ok_map, hzeros]

/-- The harmonic mean of two negative infinities and its expansion are infinities of opposite
signs. -/
theorem evaluate_expansion_negativeInfinities :
    let p : Point := ⟨.double (.infinite true), .int 0, .int 0⟩
    let x : Expr := .atom (.variable .x)
    let mean : Expr := .apply (.harmonicMean 0) (.cons x (.cons x .nil))
    mean.evaluate p = .ok (.double (.infinite false)) ∧
      mean.expansion.evaluate p = .ok (.double (.infinite true)) := by
  decide +kernel

end Expr

end Trivar
