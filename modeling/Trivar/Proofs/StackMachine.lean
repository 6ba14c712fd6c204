import Trivar.Proofs.Extrema
import Trivar.Proofs.Vocabulary

/-!
A machine that computes with numbers on a stack, word by word, without building
anything. It stops with the first error of an operation, and is stuck at a word
that it does not know or that lacks operands.

Reading a text and then evaluating what was read does the same. Both languages
are carried over to one of outcomes, in which an operation takes the outcomes of
its operands one after the other. The stack of the machine is at every word what
the stack of outcomes settles to, the oldest outcome first (`settle_step`), so
the first failure on the stack is the one that stops the machine.

For the machine an extremum is a number that no other one beats. That the pass
over the numbers finds the first of them is `firstExtremum?_eq`.
-/

namespace Trivar.Machine

open Outcome

structure Operation where
  arity : Nat
  apply : List Number → Except EvalError Number

/-- What words mean at a point. Integer literals mean doubles in all languages. -/
structure Language where
  operation? : String → Option Operation
  operand? : String → Option Number

inductive Halt
  | stuck
  | failed (e : EvalError)
  deriving DecidableEq

namespace Language

variable (L : Language)

def number? (text : String) : Option Number :=
  if Flat.isInteger text.toList then
    (Literal.read text).toOption.map fun n => .double (.ofInt n)
  else L.operand? text

/-- Carries out a word. The newest number is the first one on the stack; an operation gets its
operands with the oldest one first. -/
def step (stack : List Number) (text : String) : Except Halt (List Number) :=
  match L.operation? text with
  | some o =>
    if stack.length < o.arity then .error .stuck
    else
      ((o.apply (stack.take o.arity).reverse).map (· :: stack.drop o.arity)).mapError .failed
  | none =>
    match L.number? text with
    | none => .error .stuck
    | some n => .ok (n :: stack)

/-- Carries out words and returns the only number that is left. -/
def run (texts : List String) : Except Halt Number := do
  match ← texts.foldlM L.step [] with
  | [n] => return n
  | _ => .error .stuck

end Language

def expressions (p : Point) : Language where
  operation? text := (Operator.ofSymbol? text).map fun o => ⟨o.arity, o.apply⟩
  operand? text := (Variable.ofName? text).map p.at

def binary (f : Number → Number → Except EvalError Number) : Operation where
  arity := 2
  apply
    | [a, b] => f a b
    | _ => .error .noOperands

def negation : Operation where
  arity := 1
  apply
    | [a] => .ok a.neg
    | _ => .error .noOperands

/-- The first position at which no other number beats the one there. NaN cannot be beaten, but
counts only in the first place. -/
def firstExtremum? (better : Number → Number → Bool) (ns : List Number) : Option Nat :=
  if ns.head? = some (.double .nan) then some 0
  else ns.findIdx? fun n => n ≠ .double .nan ∧ ns.all fun m => !better m n

def extremum (arity : Nat) (better : Number → Number → Bool) : Operation where
  arity := arity
  apply ns :=
    match firstExtremum? better ns with
    | none => .error .noOperands
    | some position => .ok (.int position)

def closures (p : Point) : Language where
  operation?
    | "+" => some (binary Number.add)
    | "-" => some (binary Number.sub)
    | "*" => some (binary Number.mul)
    | "/" => some (binary Number.div)
    | "negate" => some negation
    | "argMin3" => some (extremum 3 Number.lt)
    | "argMax3" => some (extremum 3 fun a b => b.lt a)
    | "argMin5" => some (extremum 5 Number.lt)
    | "argMax5" => some (extremum 5 fun a b => b.lt a)
    | _ => none
  operand?
    | "one" => some (.int 1)
    | "two" => some (.int 2)
    | name => (Variable.ofName? name).map p.at

/-! ### Stacks of outcomes -/

def Operation.onOutcomes (o : Operation) : Flat.Operation (Except EvalError Number) :=
  ⟨o.arity, fun xs => xs.toList.mapM id >>= o.apply⟩

/-- The vocabulary that reads a text as the outcome of its evaluation. -/
def Language.outcomes (L : Language) : Flat.Vocabulary (Except EvalError Number) where
  operation? text := (L.operation? text).map Operation.onOutcomes
  literal n := .ok (.double (.ofInt n))
  operand? text := (L.operand? text).map .ok

/-- The numbers on a stack of outcomes, or the oldest failure there. -/
def settle : List (Except EvalError Number) → Except EvalError (List Number)
  | [] => .ok []
  | x :: stack => do
    let ns ← settle stack
    let n ← x
    return n :: ns

theorem settle_cons (x : Except EvalError Number) (stack : List (Except EvalError Number)) :
    settle (x :: stack) = settle stack >>= fun ns => x.map (· :: ns) := by
  cases x <;> rfl

theorem settle_append (xs stack : List (Except EvalError Number)) :
    settle (xs.reverse ++ stack) =
      settle stack >>= fun ns => (xs.mapM id).map fun found => found.reverse ++ ns := by
  induction xs generalizing stack with
  | nil => exact (bind_pure (settle stack)).symm
  | cons x xs ih =>
      rw [List.reverse_cons, List.append_assoc, List.singleton_append, ih, settle_cons,
        List.mapM_cons]
      cases settle stack with
      | error e => rfl
      | ok ns =>
          cases x with
          | error e => rfl
          | ok n => cases xs.mapM id <;> simp [pure, Except.pure]

/-! ### Runs -/

variable {L : Language}

theorem step_operation {text : String} {o : Operation} (h : L.operation? text = some o)
    {found : List Number} (hfound : found.length = o.arity) (ns : List Number) :
    L.step (found.reverse ++ ns) text = ((o.apply found).map (· :: ns)).mapError .failed := by
  have hlength : found.reverse.length = o.arity := by rw [List.length_reverse, hfound]
  have henough : ¬ (found.reverse ++ ns).length < o.arity := by
    rw [List.length_append]
    omega
  simp only [Language.step, h, if_neg henough, List.take_left' hlength, List.drop_left' hlength,
    List.reverse_reverse]

theorem step_number {text : String} {n : Number} (h : L.operation? text = none)
    (hn : L.number? text = some n) (ns : List Number) : L.step ns text = .ok (n :: ns) := by
  simp only [Language.step, h, hn]

theorem of_step_operation {stack next : List (Except EvalError Number)} {w : Flat.Word}
    {o : Operation} (ho : L.operation? w.text = some o)
    (h : Flat.step L.outcomes stack w = .ok next) :
    ∃ xs rest : List (Except EvalError Number), xs.length = o.arity ∧ stack = xs.reverse ++ rest ∧
      next = (xs.mapM id >>= o.apply) :: rest := by
  have houtcomes : L.outcomes.operation? w.text = some o.onOutcomes := by
    simp only [Language.outcomes, ho, Option.map_some]
  simp only [Flat.step, houtcomes] at h
  split at h
  · cases h
  · rename_i xs hxs
    cases h
    rw [Tuple.ofList?_eq_some_iff] at hxs
    refine ⟨xs.toList, stack.drop o.arity, xs.length_toList, ?_, rfl⟩
    rw [hxs, List.reverse_reverse]
    exact (List.take_append_drop o.arity stack).symm

theorem of_step_number {stack next : List (Except EvalError Number)} {w : Flat.Word}
    (ho : L.operation? w.text = none) (h : Flat.step L.outcomes stack w = .ok next) :
    ∃ n, L.number? w.text = some n ∧ next = .ok n :: stack := by
  have houtcomes : L.outcomes.operation? w.text = none := by
    simp only [Language.outcomes, ho, Option.map_none]
  simp only [Flat.step, houtcomes] at h
  unfold Language.number?
  split at h
  · rename_i hinteger
    rw [if_pos hinteger]
    cases hread : Literal.read w.text with
    | error fault => simp [hread] at h
    | ok n =>
        rw [hread] at h
        cases h
        exact ⟨_, rfl, rfl⟩
  · rename_i hname
    rw [if_neg hname]
    split at h
    · cases h
    · rename_i x hoperand
      cases h
      obtain ⟨n, hn, rfl⟩ := Option.map_eq_some_iff.1 hoperand
      exact ⟨n, hn, rfl⟩

/-- The machine carries out a word on the settled stack as a reader does on the stack of
outcomes. -/
theorem settle_step {stack next : List (Except EvalError Number)} {w : Flat.Word}
    (h : Flat.step L.outcomes stack w = .ok next) :
    ((settle stack).mapError Halt.failed >>= fun ns => L.step ns w.text) =
      (settle next).mapError Halt.failed := by
  cases ho : L.operation? w.text with
  | some o =>
      obtain ⟨xs, rest, hlength, rfl, rfl⟩ := of_step_operation ho h
      rw [settle_append, settle_cons]
      cases settle rest with
      | error e => rfl
      | ok ns =>
          cases hfound : xs.mapM id with
          | error e => rfl
          | ok found =>
              have hfoundLength := (length_of_mapM_id hfound).trans hlength
              exact step_operation ho hfoundLength ns
  | none =>
      obtain ⟨n, hn, rfl⟩ := of_step_number ho h
      rw [settle_cons]
      cases settle stack with
      | error e => rfl
      | ok ns => exact step_number ho hn ns

theorem settle_foldlM {ws : List Flat.Word} {stack last : List (Except EvalError Number)}
    (h : ws.foldlM (Flat.step L.outcomes) stack = .ok last) :
    ((settle stack).mapError Halt.failed >>= fun ns =>
      (ws.map Flat.Word.text).foldlM L.step ns) = (settle last).mapError Halt.failed := by
  induction ws generalizing stack with
  | nil =>
      cases h
      exact bind_pure _
  | cons w ws ih =>
      rw [List.foldlM_cons, bind_eq_ok] at h
      obtain ⟨next, hstep, hrun⟩ := h
      simp only [List.map_cons, List.foldlM_cons]
      rw [← bind_assoc, settle_step hstep, ih hrun]

theorem run_of_parse {text : String} {x : Except EvalError Number}
    (h : Flat.parse L.outcomes text = .ok x) :
    L.run ((Flat.words text).map Flat.Word.text) = x.mapError Halt.failed := by
  unfold Flat.parse at h
  split at h
  · cases h
  · obtain ⟨stack, hrun, hend⟩ := bind_eq_ok.1 h
    split at hend
    · cases hend
      have hsettled := settle_foldlM hrun
      rw [Language.run]
      change ((Except.ok [] : Except Halt (List Number)) >>= _) = _ at hsettled
      rw [ok_bind] at hsettled
      rw [hsettled, settle_cons]
      cases x <;> rfl
    · cases hend

/-- What is read in a vocabulary whose words mean the same as to the machine has the value that the
machine computes. -/
theorem run_of_carried {α : Type} {V : Flat.Vocabulary α} {value : α → Except EvalError Number}
    (h : ∀ word, V.Carried L.outcomes value word) {text : String} {a : α}
    (hparse : Flat.parse V text = .ok a) :
    L.run ((Flat.words text).map Flat.Word.text) = (value a).mapError Halt.failed := by
  have houtcome := Flat.parse_map fun w (_ : w ∈ Flat.words text) => h w.text
  rw [hparse] at houtcome
  exact run_of_parse houtcome

/-! ### The two languages -/

theorem carried_expressions (p : Point) (text : String) :
    Flat.expressions.Carried (expressions p).outcomes (Expr.evaluate p) text where
  operation := by
    cases hsymbol : Operator.ofSymbol? text with
    | none =>
        simp only [Flat.expressions, expressions, Language.outcomes, hsymbol, Option.map_none]
        exact .none
    | some o =>
        simp only [Flat.expressions, expressions, Language.outcomes, hsymbol, Option.map_some]
        refine .some (.intro fun args => ?_)
        rw [Expr.evaluate_apply, Tuple.toList_map]
  literal n := Expr.evaluate_atom p _
  operand := by
    simp only [Flat.expressions, expressions, Language.outcomes, Option.map_map]
    congr 1
    funext v
    exact (Expr.evaluate_atom p (.variable v)).symm

theorem carried_binary (f : Number → Number → Except EvalError Number) (p : Point) :
    Flat.Operation.Carried (fun c : Closure => c p)
      ⟨2, fun args => Closure.foldLeft f args.toList⟩ (binary f).onOutcomes := by
  refine .intro fun args => ?_
  match args with
  | .cons a (.cons b .nil) =>
      change Closure.foldLeft f [a, b] p = [a p, b p].mapM id >>= (binary f).apply
      rw [Closure.foldLeft_pair]
      cases a p with
      | error e => rfl
      | ok m =>
          cases b p with
          | error e => rfl
          | ok n => simp [Operator.foldOperands, binary]

theorem carried_negation (p : Point) :
    Flat.Operation.Carried (fun c : Closure => c p)
      ⟨1, fun (.cons a .nil) => Closure.negate a⟩ negation.onOutcomes := by
  refine .intro fun args => ?_
  match args with
  | .cons a .nil =>
      change a p >>= _ = [a p].mapM id >>= negation.apply
      cases a p <;> rfl

theorem findIdx?_eq_some_iff_isLeast {α : Type} {p : α → Bool} {as : List α} {i : Nat} :
    as.findIdx? p = some i ↔ IsLeast {k | ∃ a, as[k]? = some a ∧ p a = true} i := by
  rw [List.findIdx?_eq_some_iff_getElem]
  constructor
  · rintro ⟨hi, hfound, hbefore⟩
    refine ⟨⟨as[i], List.getElem?_eq_getElem hi, hfound⟩, fun k hk => ?_⟩
    by_contra hlt
    obtain ⟨a, ha, hp⟩ := hk
    obtain ⟨_, rfl⟩ := List.getElem?_eq_some_iff.1 ha
    exact hbefore k (Nat.lt_of_not_le hlt) hp
  · rintro ⟨⟨a, ha, hfound⟩, hleast⟩
    obtain ⟨hi, rfl⟩ := List.getElem?_eq_some_iff.1 ha
    refine ⟨hi, hfound, fun k hk hbetter => ?_⟩
    exact Nat.not_le_of_lt hk (hleast ⟨_, List.getElem?_eq_getElem _, hbetter⟩)

/-- The pass that keeps the best number so far ends at the first one that none beats. -/
theorem firstExtremum?_eq {r : Number.Line → Number.Line → Prop} [IsTrans _ r] [Std.Total r]
    {better : Number → Number → Bool}
    (hbetter : ∀ m n, better m n = true ↔ ∃ v ∈ m.value?, ∃ w ∈ n.value?, ¬ r w v)
    (ns : List Number) : firstExtremum? better ns = Closure.extremum? better ns := by
  cases ns with
  | nil => rfl
  | cons n ns =>
      obtain ⟨i, hi, -, hnan, hleast⟩ := Closure.extremum?_leftmost hbetter n ns
      rw [hi]
      by_cases hnumber : n = .double .nan
      · rw [hnan hnumber, firstExtremum?, hnumber]
        exact if_pos rfl
      · -- Both are the least position of an extremum, which is a number that none beats.
        have hhead : (n :: ns).head? ≠ some (.double .nan) := by simpa using hnumber
        rw [firstExtremum?, if_neg hhead, findIdx?_eq_some_iff_isLeast]
        simpa [Closure.isExtremum_iff hbetter] using hleast hnumber

theorem carried_extremum {better : Number → Number → Bool}
    (h : ∀ ns, firstExtremum? better ns = Closure.extremum? better ns) (arity : Nat) (p : Point) :
    Flat.Operation.Carried (fun c : Closure => c p)
      ⟨arity, fun args => Closure.argExtremum better args.toList⟩
      (extremum arity better).onOutcomes := by
  refine .intro fun args => ?_
  change args.toList.mapM (fun c => c p) >>= _ =
    (args.map fun c : Closure => c p).toList.mapM id >>= _
  rw [Tuple.toList_map, List.mapM_map]
  refine bind_congr fun ns => ?_
  simp only [extremum, h]
  rfl

theorem operation?_closures_eq_none (p : Point) {text : String}
    (h : Closure.operation? text = none) : (closures p).operation? text = none := by
  simp only [closures]
  split
  case h_10 => rfl
  all_goals cases h

theorem carried_closures (p : Point) (text : String) :
    Closure.vocabulary.Carried (closures p).outcomes (fun c => c p) text where
  operation := by
    change Option.Rel _ (Closure.operation? text)
      (((closures p).operation? text).map Operation.onOutcomes)
    cases hoperation : Closure.operation? text with
    | none =>
        rw [operation?_closures_eq_none p hoperation]
        exact .none
    | some o =>
        unfold Closure.operation? at hoperation
        split at hoperation <;> cases hoperation
        case h_1 => exact .some (carried_binary Number.add p)
        case h_2 => exact .some (carried_binary Number.sub p)
        case h_3 => exact .some (carried_binary Number.mul p)
        case h_4 => exact .some (carried_binary Number.div p)
        case h_5 => exact .some (carried_negation p)
        case h_6 | h_8 =>
            exact .some (carried_extremum (firstExtremum?_eq Number.lt_iff_not_le) _ p)
        case h_7 | h_9 =>
            exact .some (carried_extremum (firstExtremum?_eq Number.gt_iff_not_ge) _ p)
  literal n := rfl
  operand := by
    simp only [Closure.vocabulary, Closure.operand?, closures, Language.outcomes]
    split
    · rfl
    · rfl
    · simp only [Closure.ofName?_eq, Option.map_map]
      rfl

/-- Evaluating what was read from a text is the same as carrying out its words on a stack of
numbers, the first error included, both for expressions and for closures. The machine is never
stuck at a text that can be read, and leaves one number. -/
theorem run_words_eq_value (p : Point) (text : String) :
    (∀ e, Flat.parseExpr text = .ok e →
      (expressions p).run ((Flat.words text).map Flat.Word.text) =
        (e.evaluate p).mapError Halt.failed) ∧
    ∀ c, Closure.parse text = .ok c →
      (closures p).run ((Flat.words text).map Flat.Word.text) = (c p).mapError Halt.failed := by
  constructor
  · intro e hparse
    rw [Flat.parseExpr] at hparse
    exact run_of_carried (carried_expressions p) hparse
  · intro c hparse
    rw [Closure.parse] at hparse
    exact run_of_carried (carried_closures p) hparse

/-- A quotient is too large, and the machine stops there; the position of the
smallest number, the first of two zeros, is an integer, with which the machine goes on. -/
theorem run_words_eq_value_overflow :
    let p : Point := ⟨.int (Nat.pow 2 1100), .int 1, .int 0⟩
    (∃ e, Flat.parseExpr "x 2 / y negate -" = .ok e ∧
      (expressions p).run ["x", "2", "/", "y", "negate", "-"] =
        (e.evaluate p).mapError Halt.failed ∧
      (expressions p).run ["x", "2", "/", "y", "negate", "-"] =
        .error (.failed .integerTooLarge)) ∧
    ∃ c, Closure.parse "two x y z z argMin5 one +" = .ok c ∧
      (closures p).run ["two", "x", "y", "z", "z", "argMin5", "one", "+"] =
        (c p).mapError Halt.failed ∧
      (closures p).run ["two", "x", "y", "z", "z", "argMin5", "one", "+"] = .ok (.int 4) := by
  intro p
  obtain ⟨e, he⟩ : ∃ e, Flat.parseExpr "x 2 / y negate -" = .ok e :=
    exists_of_isOk (by decide +kernel)
  obtain ⟨c, hc⟩ : ∃ c, Closure.parse "two x y z z argMin5 one +" = .ok c :=
    exists_of_isOk (by decide +kernel)
  have hrun := (run_words_eq_value p "x 2 / y negate -").1 e he
  have hrun' := (run_words_eq_value p "two x y z z argMin5 one +").2 c hc
  have hwords : (Flat.words "x 2 / y negate -").map Flat.Word.text =
      ["x", "2", "/", "y", "negate", "-"] := by decide +kernel
  have hwords' : (Flat.words "two x y z z argMin5 one +").map Flat.Word.text =
      ["two", "x", "y", "z", "z", "argMin5", "one", "+"] := by decide +kernel
  rw [hwords] at hrun
  rw [hwords'] at hrun'
  exact ⟨⟨e, he, hrun, by decide +kernel⟩, c, hc, hrun', by decide +kernel⟩

end Trivar.Machine
