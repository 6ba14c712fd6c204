import Mathlib.Data.List.Induction
import Trivar.Closure
import Trivar.Proofs.MixedArithmetic

/-!
Folds of closures with any number of arguments. A fold is the same as the fold
with two arguments nested to the left (`foldLeft_concat`), so an argument is
evaluated only when the fold of all arguments before it has a value, and the
first failure in that order is the outcome (`foldLeft_eq_error_iff`). Constants
cannot fail; on them a fold is the operation of expressions on the same numbers
(`foldLeft_constants`).
-/

namespace Trivar.Closure

open Outcome

/-- The combinators that fold, each with the operation of expressions that has its meaning. -/
inductive Folds : Operator → (List Closure → Closure) → Prop
  | add : Folds .add Closure.add
  | sub : Folds .sub subtract
  | mul : Folds .mul multiply
  | div : Folds .div divide

variable {o : Operator} {c : List Closure → Closure} {p : Point} {err : EvalError}
  {f : Number → Number → Except EvalError Number}

theorem Folds.exists_fold (h : Folds o c) :
    ∃ f, c = foldLeft f ∧ ∀ ns, o.apply ns = Operator.foldOperands f ns := by
  cases h <;> exact ⟨_, rfl, fun _ => rfl⟩

theorem foldLeft_append (a : Closure) (as bs : List Closure) (p : Point) :
    foldLeft f (a :: (as ++ bs)) p =
      foldLeft f (a :: as) p >>= bs.foldlM fun m b => b p >>= fun n => f m n := by
  simp only [foldLeft, List.foldlM_append, bind_assoc]

theorem foldLeft_concat (a : Closure) (as : List Closure) (b : Closure) (p : Point) :
    foldLeft f (a :: (as ++ [b])) p =
      foldLeft f (a :: as) p >>= fun m => b p >>= fun n => f m n := by
  rw [foldLeft_append]
  simp only [List.foldlM_cons, List.foldlM_nil, bind_pure]

theorem foldLeft_singleton (a : Closure) : foldLeft f [a] = a := by
  funext p
  simp [foldLeft]

theorem foldLeft_two (a b : Closure) (p : Point) :
    foldLeft f [a, b] p = a p >>= fun m => b p >>= fun n => f m n := by
  have hconcat := foldLeft_concat (f := f) a [] b p
  rwa [foldLeft_singleton] at hconcat

theorem foldLeft_append_of_error {a : Closure} {as : List Closure}
    (h : foldLeft f (a :: as) p = .error err) (bs : List Closure) :
    foldLeft f (a :: (as ++ bs)) p = .error err := by
  rw [foldLeft_append, h, error_bind]

/-- A fold fails at its first argument, or at one before which all others have been combined: in
the evaluation of that argument, or when its value is combined with theirs. -/
theorem foldLeft_eq_error_iff {a : Closure} {as : List Closure} :
    foldLeft f (a :: as) p = .error err ↔
      a p = .error err ∨ ∃ before b after m, as = before ++ b :: after ∧
        foldLeft f (a :: before) p = .ok m ∧ (b p >>= fun n => f m n) = .error err := by
  constructor
  · intro h
    induction as using List.reverseRecOn with
    | nil => exact .inl (by rwa [foldLeft_singleton] at h)
    | append_singleton as b ih =>
        rw [foldLeft_concat] at h
        cases hfold : foldLeft f (a :: as) p with
        | ok m =>
            rw [hfold, ok_bind] at h
            exact .inr ⟨as, b, [], m, rfl, hfold, h⟩
        | error err' =>
            rw [hfold, error_bind] at h
            refine (ih (hfold.trans h)).imp_right ?_
            rintro ⟨before, b', after, m, rfl, hbefore, hfails⟩
            exact ⟨before, b', after ++ [b], m, by simp, hbefore, hfails⟩
  · rintro (h | ⟨before, b, after, m, rfl, hbefore, hfails⟩)
    · have hfirst : foldLeft f [a] p = .error err := by rwa [foldLeft_singleton]
      exact foldLeft_append_of_error hfirst as
    · have hstep : foldLeft f (a :: (before ++ [b])) p = .error err := by
        rw [foldLeft_concat, hbefore, ok_bind, hfails]
      have hrest := foldLeft_append_of_error hstep after
      rwa [List.append_assoc] at hrest

theorem foldLeft_constants (ns : List Number) (p : Point) :
    foldLeft f (ns.map constant) p = Operator.foldOperands f ns := by
  cases ns with
  | nil => rfl
  | cons n ns =>
      change (ns.map constant).foldlM _ n = ns.foldlM f n
      rw [List.foldlM_map]
      rfl

/-- Sums, differences, products and quotients of closures with many arguments are those of two,
nested to the left. They fail at the first argument that fails or that cannot be combined with what
comes before it, and on constants they do what the operations of expressions do on numbers. -/
theorem fold_leftNested (h : Folds o c) :
    (∀ a as b, c (a :: (as ++ [b])) = c [c (a :: as), b]) ∧
    (∀ a b p, c [a, b] p = a p >>= fun m => b p >>= fun n => o.apply [m, n]) ∧
    (∀ a as p err, c (a :: as) p = .error err ↔
      a p = .error err ∨ ∃ before b after m, as = before ++ b :: after ∧
        c (a :: before) p = .ok m ∧ (b p >>= fun n => o.apply [m, n]) = .error err) ∧
    ∀ ns p, o.apply ns = c (ns.map constant) p := by
  obtain ⟨f, rfl, happly⟩ := h.exists_fold
  have hpair (m n : Number) : o.apply [m, n] = f m n := by
    rw [happly, Operator.foldOperands_pair]
  simp only [hpair]
  refine ⟨fun a as b => funext fun p => ?_, foldLeft_two, fun a as p err => foldLeft_eq_error_iff,
    fun ns p => ?_⟩
  · rw [foldLeft_concat, foldLeft_two]
  · rw [happly, foldLeft_constants]

/-- A quotient that is already too large is reported before the integer after it, which does not
fit into a double either. -/
theorem fold_leftNested_quotients :
    let x := coordinate .x
    let y := coordinate .y
    let z := coordinate .z
    let p : Point := ⟨.int (Nat.pow 2 1100 : Nat), .int 2, .int (Nat.pow 10 400 : Nat)⟩
    Folds .div divide ∧ divide [x, y, z] = divide [divide [x, y], z] ∧
      divide [x, y, z] p = .error .quotientTooLarge ∧
      divide [constant (.int 1), constant (.int 4)] p = Operator.div.apply [.int 1, .int 4] := by
  intro x y z p
  obtain ⟨hnested, -, herror, hconstants⟩ := fold_leftNested .div
  have hfails : (y p >>= fun n => Operator.div.apply [p.at .x, n]) = .error .quotientTooLarge := by
    decide +kernel
  refine ⟨.div, hnested x [y] z, ?_, (hconstants [.int 1, .int 4] p).symm⟩
  exact (herror x [y, z] p _).2 (.inr ⟨[], y, [z], p.at .x, rfl, rfl, hfails⟩)

end Trivar.Closure
