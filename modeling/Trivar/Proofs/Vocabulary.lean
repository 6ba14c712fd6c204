import Trivar.Expr.Walk
import Trivar.Proofs.ClosureFold
import Trivar.Proofs.FlatGrammar

/-!
Two vocabularies for the same words. Reading flat notation looks at its values
only through the vocabulary. So a function that carries what every word of a
text means in one vocabulary over to what it means in the other also carries
over what is read, and the faults are the same (`parse_map`).

Evaluation carries expressions over to closures, as long as a text has no word
that only one of the two languages knows.
-/

namespace Trivar

namespace Flat

variable {α β : Type}

/-- The two operations take equally many arguments, and `f` carries the first over to the
second. -/
inductive Operation.Carried (f : α → β) : Operation α → Operation β → Prop
  | intro {n : Nat} {apply : Tuple α n → α} {apply' : Tuple β n → β} :
      (∀ args, f (apply args) = apply' (args.map f)) → Carried f ⟨n, apply⟩ ⟨n, apply'⟩

/-- `f` carries the meaning of a word over from one vocabulary to the other. -/
structure Vocabulary.Carried (V : Vocabulary α) (W : Vocabulary β) (f : α → β) (text : String) :
    Prop where
  operation : Option.Rel (Operation.Carried f) (V.operation? text) (W.operation? text)
  literal : ∀ n, f (V.literal n) = W.literal n
  operand : W.operand? text = (V.operand? text).map f

variable {V : Vocabulary α} {W : Vocabulary β} {f : α → β}

theorem step_map {word : Word} (h : V.Carried W f word.text) (stack : List α) :
    step W (stack.map f) word = (step V stack word).map (List.map f) := by
  unfold step
  match V.operation? word.text, W.operation? word.text, h.operation with
  -- The arity is the same on both sides, so both find enough operands or neither does.
  | _, _, .some (.intro (n := n) happly) =>
      have htake : ((stack.map f).take n).reverse = (stack.take n).reverse.map f := by
        rw [List.map_reverse, List.map_take]
      simp only [htake, Tuple.ofList?_map, List.length_map]
      cases Tuple.ofList? n (stack.take n).reverse with
      | none => rfl
      | some args =>
          change Except.ok _ = Except.ok _
          rw [List.map_cons, happly, List.map_drop]
  | _, _, .none =>
      simp only [h.operand]
      split
      · cases Literal.read word.text with
        | error fault => rfl
        | ok n => simp only [Except.map, List.map_cons, h.literal]
      · cases V.operand? word.text <;> rfl

theorem foldlM_map {ws : List Word} (h : ∀ w ∈ ws, V.Carried W f w.text) (stack : List α) :
    ws.foldlM (step W) (stack.map f) = (ws.foldlM (step V) stack).map (List.map f) := by
  induction ws generalizing stack with
  | nil => rfl
  | cons w ws ih =>
      obtain ⟨hw, hws⟩ := List.forall_mem_cons.1 h
      rw [List.foldlM_cons, List.foldlM_cons, step_map hw]
      cases step V stack w with
      | error e => rfl
      | ok next => exact ih hws next

theorem parse_map {text : String} (h : ∀ w ∈ words text, V.Carried W f w.text) :
    parse W text = (parse V text).map f := by
  unfold parse
  split
  · rfl
  · rw [← List.map_nil (f := f), foldlM_map h]
    cases (words text).foldlM (step V) [] with
    | error e => rfl
    | ok stack =>
        match stack with
        | [] => rfl
        | [value] => rfl
        | a :: b :: rest => simp [bind, Except.bind, Except.map]

end Flat

/-! ### Closures -/

def Expr.closure (e : Expr) : Closure := fun p => e.evaluate p

namespace Closure

/-- The words that mean something to only one of the two languages. -/
def privateWords : List String :=
  ["sumrec2", "sumrec3", "sumrec4", "sumrec5", "hmean2", "hmean3", "hmean4", "hmean5",
    "argMin3", "argMax3", "argMin5", "argMax5", "one", "two"]

theorem symbol_mem_privateWords : ∀ o : Operator, o.isComposite = true →
    o.symbol ∈ privateWords :=
  Operator.forall_of_all (by decide +kernel)

/-- With two arguments it makes no difference whether the second one is evaluated before the fold
begins. -/
theorem foldLeft_pair (f : Number → Number → Except EvalError Number) (a b : Closure) (p : Point) :
    foldLeft f [a, b] p = [a p, b p].mapM id >>= Operator.foldOperands f := by
  rw [foldLeft_two]
  simp [Operator.foldOperands_pair]

theorem operation?_symbol {o : Operator} (h : o.isComposite = false) :
    Option.Rel (Flat.Operation.Carried Expr.closure) (some ⟨o.arity, .apply o⟩)
      (operation? o.symbol) := by
  cases o with
  | add | sub | mul | div =>
      refine .some (.intro fun args => ?_)
      match args with
      | .cons a (.cons b .nil) =>
          funext p
          rw [Expr.closure, Expr.evaluate_apply]
          exact (foldLeft_pair _ a.closure b.closure p).symm
  | negate =>
      refine .some (.intro fun args => ?_)
      match args with
      | .cons a .nil =>
          funext p
          rw [Expr.closure, Expr.evaluate_apply]
          change [a.closure p].mapM id >>= _ = a.closure p >>= _
          cases a.closure p <;> rfl
  | reciprocalSum _ | harmonicMean _ => cases h

theorem operation?_eq_none {text : String} (hsymbol : Operator.ofSymbol? text = none)
    (hword : text ∉ privateWords) : operation? text = none := by
  unfold operation?
  split
  case h_1 | h_2 | h_3 | h_4 | h_5 => exact absurd hsymbol (by decide +kernel)
  case h_6 | h_7 | h_8 | h_9 => exact absurd (by decide +kernel) hword
  case h_10 => rfl

theorem operand?_eq_ofName? {text : String} (h : text ∉ privateWords) :
    operand? text = ofName? text := by
  unfold operand?
  split
  case h_1 | h_2 => exact absurd (by decide +kernel) h
  case h_3 => rfl

theorem carried_closure {text : String} (h : text ∉ privateWords) :
    Flat.expressions.Carried vocabulary Expr.closure text where
  operation := by
    cases hsymbol : Operator.ofSymbol? text with
    | some o =>
        obtain rfl := Operator.ofSymbol?_eq_some_iff.1 hsymbol
        have hprimitive : o.isComposite = false := by
          rw [← Bool.not_eq_true]
          exact mt (symbol_mem_privateWords o) h
        rw [Flat.operation?_symbol]
        exact operation?_symbol hprimitive
    | none =>
        have hother : vocabulary.operation? text = none := operation?_eq_none hsymbol h
        rw [Flat.operation?_of_ofSymbol? hsymbol, hother]
        exact .none
  literal n := by
    funext p
    exact Expr.evaluate_atom p _
  operand := by
    change operand? text = ((Variable.ofName? text).map _).map _
    rw [operand?_eq_ofName? h, ofName?_eq, Option.map_map]
    congr 1
    funext v p
    change Except.ok (p.at v) = Expr.evaluate p (.atom (.variable v))
    rw [Expr.evaluate_atom, Atom.value]

/-- A text without private words is read as an expression or as a closure with the same outcome:
the same error, or else a closure that has at every point the value of the expression there, the
errors of evaluation included. -/
theorem parse_eq_map_evaluate {text : String}
    (h : ∀ w ∈ Flat.words text, w.text ∉ privateWords) :
    parse text = (Flat.parseExpr text).map fun e p => e.evaluate p :=
  Flat.parse_map fun w hw => carried_closure (h w hw)

/-- The quotient is found to be too large before the other operand matters. -/
theorem parse_eq_map_evaluate_overflow :
    let text := "x 2 / y negate -"
    let p : Point := ⟨.int (Nat.pow 2 1100), .int 1, .int 0⟩
    (∀ w ∈ Flat.words text, w.text ∉ privateWords) ∧
      parse text = (Flat.parseExpr text).map (fun e p => e.evaluate p) ∧
      (parse text).map (fun c => c p) = .ok (.error .integerTooLarge) := by
  intro text p
  have hwords : ∀ w ∈ Flat.words text, w.text ∉ privateWords := by decide +kernel
  have hparse := parse_eq_map_evaluate hwords
  refine ⟨hwords, hparse, ?_⟩
  have hvalue : (Flat.parseExpr text).map (fun e => e.evaluate p) =
      .ok (.error .integerTooLarge) := by decide +kernel
  rw [hparse, ← hvalue]
  cases Flat.parseExpr text <;> rfl

end Closure

end Trivar
