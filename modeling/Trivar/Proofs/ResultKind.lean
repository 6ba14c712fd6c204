import Trivar.Proofs.Denotation
import Trivar.Proofs.Overflow

/-!
What kind of number an evaluation gives. An operation has an integer as its
result exactly if it is a sum, a difference, a product or a negation and all its
operands are integers (`Operator.apply_isInteger_iff`). Literals are doubles. So
the value of an expression is an integer exactly if the expression is a
polynomial in variables that are integers, with no literals
(`Expr.isInteger_value_iff`); such a value is exact and always exists
(`Expr.IntegerPolynomial.evaluate`). In all other cases it is a double, unless
the evaluation fails.
-/

namespace Trivar

namespace Number

def isInteger : Number → Bool
  | .int _ => true
  | .double _ => false

theorem exists_double {n : Number} (h : ¬ n.isInteger) : ∃ d, n = .double d := by
  cases n with
  | int k => exact absurd rfl h
  | double d => exact ⟨d, rfl⟩

theorem isInteger_of_lift {f : Int → Int → Int} {g : Double → Double → Double} {a b n : Number}
    (h : lift f g a b = .ok n) : n.isInteger = (a.isInteger && b.isInteger) := by
  match a, b with
  | .int a, .int b =>
      cases h
      rfl
  | .double c, b =>
      rw [lift_double_left] at h
      obtain ⟨d, -, rfl⟩ := Outcome.map_eq_ok.1 h
      rfl
  | .int a, .double c =>
      rw [lift_double_right] at h
      obtain ⟨d, -, rfl⟩ := Outcome.map_eq_ok.1 h
      rfl

end Number

namespace Operator

open Number Outcome

/-- Makes an integer of integers. -/
def keepsIntegers : Operator → Bool
  | .add | .sub | .mul | .negate => true
  | _ => false

theorem apply_isInteger_iff {o : Operator} {ns : List Number} {n : Number}
    (hlength : ns.length = o.arity) (h : o.apply ns = .ok n) :
    n.isInteger = true ↔ o.keepsIntegers = true ∧ ∀ m ∈ ns, m.isInteger = true := by
  have hcomposite (ho : o.isComposite) : n.isInteger = false := by
    rw [apply_composite ho (ne_nil_of_length_eq_arity hlength)] at h
    obtain ⟨ds, -, rfl⟩ := map_eq_ok.1 h
    rfl
  cases o with
  | add | sub | mul =>
      obtain ⟨a, b, rfl⟩ := List.length_eq_two.1 hlength
      rw [apply, foldOperands_pair] at h
      rw [isInteger_of_lift h]
      simp [keepsIntegers]
  | div =>
      obtain ⟨a, b, rfl⟩ := List.length_eq_two.1 hlength
      rw [apply, foldOperands_pair] at h
      obtain ⟨d, -, rfl⟩ := map_eq_ok.1 h
      simp [keepsIntegers, isInteger]
  | negate =>
      obtain ⟨a, rfl⟩ := List.length_eq_one_iff.1 hlength
      cases h
      cases a <;> simp [neg, isInteger, keepsIntegers]
  | reciprocalSum extra | harmonicMean extra => simp [hcomposite rfl, keepsIntegers]

theorem apply_integers {o : Operator} (ho : o.keepsIntegers) (ks : Tuple Int o.arity) :
    ∃ k : Int, o.apply (ks.toList.map .int) = .ok (.int k) ∧
      (k : ℚ) = o.denote (ks.map fun n : Int => (n : ℚ)) := by
  match o, ks with
  | .add, .cons a (.cons b .nil) => exact ⟨a + b, rfl, Int.cast_add a b⟩
  | .sub, .cons a (.cons b .nil) => exact ⟨a - b, rfl, Int.cast_sub a b⟩
  | .mul, .cons a (.cons b .nil) => exact ⟨a * b, rfl, Int.cast_mul a b⟩
  | .negate, .cons a .nil => exact ⟨-a, rfl, Int.cast_neg a⟩
  | .div, _ | .reciprocalSum _, _ | .harmonicMean _, _ => cases ho

end Operator

/-- The integers among the coordinates; a double is taken for zero. -/
def Point.rational (p : Point) (v : Variable) : ℚ :=
  match p.at v with
  | .int n => n
  | .double _ => 0

namespace Expr

open Number Outcome

/-- A polynomial in variables that are integers at the point. -/
structure IntegerPolynomial (p : Point) (e : Expr) : Prop where
  leaves : ∀ a ∈ e.leaves, ∃ v n, a = .variable v ∧ p.at v = .int n
  operators : ∀ o ∈ e.operators, o.keepsIntegers = true

variable {p : Point}

theorem integerPolynomial_atom {a : Atom} :
    IntegerPolynomial p (.atom a) ↔ (a.value p).isInteger = true ∧ ∃ v, a = .variable v := by
  constructor
  · intro h
    obtain ⟨v, n, rfl, hn⟩ := h.leaves a (by simp)
    rw [Atom.value, hn]
    exact ⟨rfl, v, rfl⟩
  · rintro ⟨hinteger, v, rfl⟩
    refine ⟨?_, nofun⟩
    rw [leaves_atom, List.forall_mem_singleton]
    cases hn : p.at v with
    | int n => exact ⟨v, n, rfl, hn⟩
    | double d => simp [Atom.value, hn, isInteger] at hinteger

theorem integerPolynomial_apply {o : Operator} {args : Tuple Expr o.arity} :
    IntegerPolynomial p (.apply o args) ↔
      o.keepsIntegers = true ∧ ∀ e ∈ args.toList, e.IntegerPolynomial p := by
  constructor
  · intro h
    refine ⟨h.operators o (mem_operators_apply.2 (.inl rfl)), fun e he => ?_⟩
    exact ⟨forall_leaves_apply.1 h.leaves e he,
      fun o ho => h.operators o (mem_operators_apply.2 (.inr ⟨e, he, ho⟩))⟩
  · rintro ⟨ho, hargs⟩
    refine ⟨forall_leaves_apply.2 fun e he => (hargs e he).leaves, fun o' ho' => ?_⟩
    obtain rfl | ⟨e, he, ho'⟩ := mem_operators_apply.1 ho'
    · exact ho
    · exact (hargs e he).operators o' ho'

theorem IntegerPolynomial.evaluate {e : Expr} (h : e.IntegerPolynomial p) :
    ∃ n : Int, e.evaluate p = .ok (.int n) ∧ (n : ℚ) = e.denote p.rational := by
  induction e using induct with
  | atom a =>
      obtain ⟨v, n, rfl, hn⟩ := h.leaves a (by simp)
      refine ⟨n, ?_, ?_⟩
      · rw [evaluate_atom, Atom.value, hn]
      · rw [denote_atom, Atom.denote, Point.rational, hn]
  | apply o args ih =>
      rw [integerPolynomial_apply] at h
      have hvalues : ∀ e ∈ args.toList, ∃ n : Int,
          e.evaluate p = .ok (.int n) ∧ (n : ℚ) = e.denote p.rational :=
        fun e he => ih e he (h.2 e he)
      choose! value heval hdenote using hvalues
      obtain ⟨k, hk, hkdenote⟩ := Operator.apply_integers h.1 (args.map value)
      rw [Tuple.toList_map, List.map_map] at hk
      refine ⟨k, (evaluate_apply_of_forall heval).trans hk, ?_⟩
      rw [hkdenote, denote_apply, Tuple.map_map]
      exact congrArg _ (Tuple.map_congr hdenote)

theorem isInteger_value_iff {e : Expr} {n : Number} (h : evaluate p e = .ok n) :
    n.isInteger = true ↔ e.IntegerPolynomial p := by
  induction e using induct generalizing n with
  | atom a =>
      rw [evaluate_atom] at h
      cases h
      rw [integerPolynomial_atom]
      match a with
      | .number n => simp [Atom.value, isInteger]
      | .variable v => simp
  | apply o args ih =>
      rw [evaluate_apply] at h
      obtain ⟨ns, hns, happly⟩ := bind_eq_ok.1 h
      rw [mapM_eq_ok, List.map_id] at hns
      rw [o.apply_isInteger_iff (length_of_map_evaluate hns) happly, integerPolynomial_apply]
      refine and_congr_right fun _ => ⟨fun hall e he => ?_, fun hall m hm => ?_⟩
      · have hvalue : evaluate p e ∈ ns.map .ok := hns ▸ List.mem_map_of_mem he
        obtain ⟨m, hm, hvalue⟩ := List.mem_map.1 hvalue
        exact (ih e he hvalue.symm).1 (hall m hm)
      · have hvalue : .ok m ∈ args.toList.map (evaluate p) := hns ▸ List.mem_map_of_mem hm
        obtain ⟨e, he, hvalue⟩ := List.mem_map.1 hvalue
        exact (ih e he hvalue).2 (hall e he)

/-- A failure is that of a conversion or of a quotient, and is due to an integer variable. -/
theorem overflow_of_evaluate_eq_error {e : Expr} {err : EvalError}
    (h : evaluate p e = .error err) :
    (err = .integerTooLarge ∨ err = .quotientTooLarge) ∧
      ∃ v ∈ e.freeVariables, ∃ n, p.at v = .int n := by
  constructor
  · cases err with
    | integerTooLarge => exact .inl rfl
    | quotientTooLarge => exact .inr rfl
    | noOperands => exact absurd h (evaluate_ne_noOperands p e)
  · by_contra! hnone
    have hdoubles : ∀ v ∈ e.freeVariables, ∃ d, p.at v = .double d := by
      intro v hv
      cases hat : p.at v with
      | int n => exact absurd hat (hnone v hv n)
      | double d => exact ⟨d, rfl⟩
    obtain ⟨d, hd⟩ := evaluate_at_doubles hdoubles
    rw [h] at hd
    cases hd

/-- The value of a polynomial in integer variables is the exact integer. All other expressions have
a double as their value or overflow, and they can overflow only if one of their variables is an
integer. -/
theorem evaluate_kind (p : Point) (e : Expr) :
    (e.IntegerPolynomial p →
      ∃ n : Int, e.evaluate p = .ok (.int n) ∧ (n : ℚ) = e.denote p.rational) ∧
    (¬ e.IntegerPolynomial p →
      (∃ d, e.evaluate p = .ok (.double d)) ∨
        ∃ err, e.evaluate p = .error err ∧ (err = .integerTooLarge ∨ err = .quotientTooLarge) ∧
          ∃ v ∈ e.freeVariables, ∃ n, p.at v = .int n) ∧
    ((∀ v ∈ e.freeVariables, ∃ d, p.at v = .double d) →
      ∃ d, e.evaluate p = .ok (.double d)) := by
  refine ⟨IntegerPolynomial.evaluate, fun hnot => ?_, evaluate_at_doubles⟩
  cases hvalue : e.evaluate p with
  | ok n =>
      obtain ⟨d, rfl⟩ := exists_double (mt (isInteger_value_iff hvalue).1 hnot)
      exact .inl ⟨d, rfl⟩
  | error err => exact .inr ⟨err, rfl, overflow_of_evaluate_eq_error hvalue⟩

/-- With integers for `x` and `y` and a double for `z`, the polynomial `x - x * y` has an integer
value, `z / 2` a double, and `x * z` none. -/
theorem evaluate_kind_products :
    let p : Point := ⟨.int (Nat.pow 10 400 : Nat), .int 3, .double (.ofInt 1)⟩
    let x : Expr := .atom (.variable .x)
    let y : Expr := .atom (.variable .y)
    let z : Expr := .atom (.variable .z)
    (∃ n : Int, (x - x * y).evaluate p = .ok (.int n) ∧
      (n : ℚ) = (x - x * y).denote p.rational) ∧
    (∃ d, (z / ((2 : Nat) : Expr)).evaluate p = .ok (.double d)) ∧
    (x * z).evaluate p = .error .integerTooLarge ∧
    ∃ v ∈ (x * z).freeVariables, ∃ n, p.at v = .int n := by
  intro p x y z
  have hx : x.IntegerPolynomial p := integerPolynomial_atom.2 ⟨rfl, .x, rfl⟩
  have hy : y.IntegerPolynomial p := integerPolynomial_atom.2 ⟨rfl, .y, rfl⟩
  have hproduct : (x * y).IntegerPolynomial p :=
    integerPolynomial_apply.2 ⟨rfl, Tuple.forall_mem_pair.2 ⟨hx, hy⟩⟩
  have hpolynomial : (x - x * y).IntegerPolynomial p :=
    integerPolynomial_apply.2 ⟨rfl, Tuple.forall_mem_pair.2 ⟨hx, hproduct⟩⟩
  have hdouble : ∀ v ∈ (z / ((2 : Nat) : Expr)).freeVariables, ∃ d, p.at v = .double d := by
    change ∀ v ∈ [Variable.z], _
    rw [List.forall_mem_singleton]
    exact ⟨_, rfl⟩
  have hmixed : ¬ (x * z).IntegerPolynomial p := by
    intro h
    have hz := (Tuple.forall_mem_pair.1 (integerPolynomial_apply.1 h).2).2
    exact Bool.false_ne_true (integerPolynomial_atom.1 hz).1
  have hfails : (x * z).evaluate p = .error .integerTooLarge := by decide +kernel
  refine ⟨(evaluate_kind p _).1 hpolynomial, (evaluate_kind p _).2.2 hdouble, hfails, ?_⟩
  obtain ⟨d, hd⟩ | ⟨err, -, -, hv⟩ := (evaluate_kind p _).2.1 hmixed
  · rw [hfails] at hd
    cases hd
  · exact hv

end Expr

end Trivar
