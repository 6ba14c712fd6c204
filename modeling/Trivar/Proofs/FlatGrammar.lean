import Trivar.Proofs.Grammar
import Trivar.Proofs.Outcome
import Trivar.Proofs.Words

/-!
Reading flat notation accepts exactly the sentences of the grammar. The stack
stands for a beginning of a sentence, `written`, to which every word adds the
terminal that it stands for (`Effect.spells`); an operation takes arguments off
the stack, but the sentence goes on as before. In the other direction the words
of a sentence leave its expression on the stack, above whatever was there
before, unless one of them is too long (`run_writes`).
-/

namespace Trivar.Flat

open Outcome Text Word

/-! ### Words -/

theorem isInteger_numeral {digits : List Char} {n : Nat} (h : Numeral digits n) :
    isInteger digits = true := by
  have hall : digits.all isDigit = true := List.all_eq_true.2 h.isDigit
  have hne : digits.isEmpty = false := by simpa using h.ne_nil
  unfold isInteger
  split
  · exact absurd List.mem_cons_self h.minus_not_mem
  · rw [hall, hne]
    rfl

theorem isInteger_negated {digits : List Char} {n : Nat} (h : Numeral digits n) :
    isInteger ('-' :: digits) = true := by
  have hall : digits.all isDigit = true := List.all_eq_true.2 h.isDigit
  have hne : digits.isEmpty = false := by simpa using h.ne_nil
  rw [isInteger, hall, hne]
  rfl

theorem isInteger_symbol : ∀ o : Operator, isInteger o.symbol.toList = false :=
  Operator.forall_of_all (by decide +kernel)

theorem isLong_symbol : ∀ o : Operator, isLong o.symbol = false :=
  Operator.forall_of_all (by decide +kernel)

theorem isInteger_name : ∀ v : Variable, isInteger v.name.toList = false :=
  Variable.forall_of_all (by decide +kernel)

theorem isLong_name : ∀ v : Variable, isLong v.name = false :=
  Variable.forall_of_all (by decide +kernel)

theorem ofSymbol?_name : ∀ v : Variable, Operator.ofSymbol? v.name = none :=
  Variable.forall_of_all (by decide +kernel)

theorem ofSymbol?_of_isInteger {text : String} (h : isInteger text.toList = true) :
    Operator.ofSymbol? text = none := by
  cases hsymbol : Operator.ofSymbol? text with
  | none => rfl
  | some o =>
      rw [← Operator.ofSymbol?_eq_some_iff.1 hsymbol, isInteger_symbol] at h
      cases h

theorem ofName?_of_isInteger {text : String} (h : isInteger text.toList = true) :
    Variable.ofName? text = none := by
  cases hname : Variable.ofName? text with
  | none => rfl
  | some v =>
      rw [← Variable.ofName?_eq_some_iff.1 hname, isInteger_name] at h
      cases h

/-- Words of digits are read as the number that they stand for unless they are too long. -/
theorem Word.Writes.integer {text : String} {n : Int} (h : Writes text (.leaf (.number (.int n)))) :
    isInteger text.toList = true ∧
      Literal.read text = if isLong text then .error (.invalidNumber text) else .ok n := by
  cases h with
  | numeral hnumeral =>
      rw [Literal.read_numeral hnumeral, isLong, String.toList_ofList,
        Literal.dropWhile_minus_numeral hnumeral]
      exact ⟨isInteger_numeral hnumeral, by simp only [decide_eq_true_eq]⟩
  | negated hnumeral =>
      rw [Literal.read_negated hnumeral, isLong, String.toList_ofList,
        List.dropWhile_cons_of_pos (by simp), Literal.dropWhile_minus_numeral hnumeral]
      exact ⟨isInteger_negated hnumeral, by simp only [decide_eq_true_eq]⟩

theorem writes_of_isInteger {text : String} (h : isInteger text.toList = true) :
    ∃ n, Writes text (.leaf (.number (.int n))) := by
  rw [← String.ofList_toList (s := text)]
  revert h
  generalize text.toList = cs
  intro h
  unfold isInteger at h
  split at h
  · rename_i digits
    obtain ⟨hne, hall⟩ := Bool.and_eq_true_iff.1 h
    exact ⟨_, .negated (numeral_of_all (by simpa using hne) hall rfl)⟩
  · obtain ⟨hne, hall⟩ := Bool.and_eq_true_iff.1 h
    exact ⟨_, .numeral (numeral_of_all (by simpa using hne) hall rfl)⟩

/-! ### Steps -/

/-- What a step can do that does not fail. -/
inductive Effect : List Expr → Word → List Expr → Prop
  | operation {stack o args position} :
      Effect (args.toList.reverse ++ stack) ⟨o.symbol, position⟩ (.apply o args :: stack)
  | leaf {stack text a position} : Spells text (.leaf a) →
      Effect stack ⟨text, position⟩ (.atom a :: stack)

theorem operation?_symbol (o : Operator) :
    expressions.operation? o.symbol = some ⟨o.arity, .apply o⟩ := by
  have hsymbol := Operator.ofSymbol?_eq_some_iff.2 (Eq.refl o.symbol)
  simp only [expressions, hsymbol, Option.map_some]

theorem operation?_of_ofSymbol? {text : String} (h : Operator.ofSymbol? text = none) :
    expressions.operation? text = none := by
  simp only [expressions, h, Option.map_none]

theorem step_operation (o : Operator) (args : Tuple Expr o.arity) (stack : List Expr)
    (position : Nat) :
    step expressions (args.toList.reverse ++ stack) ⟨o.symbol, position⟩ =
      .ok (.apply o args :: stack) := by
  have hlength : args.toList.reverse.length = o.arity := by simp
  simp only [step, operation?_symbol, List.take_left' hlength, List.drop_left' hlength,
    List.reverse_reverse, Tuple.ofList?_toList]

theorem step_leaf {text : String} {a : Atom} (h : Writes text (.leaf a)) (stack : List Expr)
    (position : Nat) :
    step expressions stack ⟨text, position⟩ =
      if isLong text then .error ⟨.invalidNumber text, some position⟩
      else .ok (.atom a :: stack) := by
  match a with
  | .number (.double d) => cases h
  | .number (.int n) =>
      obtain ⟨hinteger, hread⟩ := h.integer
      have hlookup := operation?_of_ofSymbol? (ofSymbol?_of_isInteger hinteger)
      simp only [step, hlookup, if_pos hinteger, hread]
      cases isLong text <;> rfl
  | .variable v =>
      obtain rfl : text = v.name := by
        cases h
        rfl
      have hlookup := operation?_of_ofSymbol? (ofSymbol?_name v)
      have hoperand : expressions.operand? v.name = some (.atom (.variable v)) := by
        simp only [expressions, Variable.ofName?_eq_some_iff.2 rfl, Option.map_some]
      simp only [step, hlookup, isInteger_name, isLong_name, hoperand, Bool.false_eq_true, if_false]

theorem effect_of_step {stack result : List Expr} {word : Word}
    (h : step expressions stack word = .ok result) : Effect stack word result := by
  obtain ⟨text, position⟩ := word
  cases hsymbol : Operator.ofSymbol? text with
  | some o =>
      obtain rfl := Operator.ofSymbol?_eq_some_iff.1 hsymbol
      simp only [step, operation?_symbol] at h
      split at h
      · cases h
      · rename_i args hargs
        cases h
        rw [Tuple.ofList?_eq_some_iff] at hargs
        -- The arguments lie on the stack in reverse, above what the operation leaves alone.
        have hstack : stack = args.toList.reverse ++ stack.drop o.arity := by
          rw [hargs, List.reverse_reverse, List.take_append_drop]
        have heffect : Effect (args.toList.reverse ++ stack.drop o.arity) ⟨o.symbol, position⟩
            (.apply o args :: stack.drop o.arity) := .operation
        rwa [← hstack] at heffect
  | none =>
      cases hinteger : isInteger text.toList with
      | true =>
          obtain ⟨n, hwrites⟩ := writes_of_isInteger hinteger
          rw [step_leaf hwrites] at h
          split at h
          · cases h
          · rename_i hlong
            cases h
            exact .leaf ⟨hwrites, Bool.not_eq_true _ ▸ hlong⟩
      | false =>
          simp only [step, operation?_of_ofSymbol? hsymbol, hinteger, Bool.false_eq_true,
            if_false] at h
          split at h
          · cases h
          · rename_i value hoperand
            cases h
            obtain ⟨v, hname, rfl⟩ := Option.map_eq_some_iff.1 hoperand
            obtain rfl := Variable.ofName?_eq_some_iff.1 hname
            exact .leaf ⟨.variable v, isLong_name v⟩

/-! ### The beginning of a sentence -/

/-- The beginning of a sentence that a stack stands for, the newest expression last. -/
def written (stack : List Expr) : List Terminal := stack.reverse.flatMap (Expr.terminals .flat)

theorem written_cons (e : Expr) (stack : List Expr) :
    written (e :: stack) = written stack ++ e.terminals .flat := by
  simp [written]

/-- A step adds the terminal that its word stands for. -/
theorem Effect.spells {stack result : List Expr} {word : Word} (h : Effect stack word result) :
    ∃ terminal, Spells word.text terminal ∧ written result = written stack ++ [terminal] := by
  cases h with
  | @operation stack o args position =>
      refine ⟨.operator o, ⟨.operator o, isLong_symbol o⟩, ?_⟩
      rw [written_cons, Expr.terminals_apply]
      simp [written, Form.enclose]
  | leaf hspells => exact ⟨_, hspells, by rw [written_cons, Expr.terminals_atom]⟩

/-! ### Runs -/

theorem spells_of_run {stack result : List Expr} {ws : List Word}
    (h : ws.foldlM (step expressions) stack = .ok result) :
    ∃ sentence, List.Forall₂ (fun w t => Spells w.text t) ws sentence ∧
      written result = written stack ++ sentence := by
  induction ws generalizing stack with
  | nil =>
      cases h
      exact ⟨[], .nil, (List.append_nil _).symm⟩
  | cons w ws ih =>
      rw [List.foldlM_cons, bind_eq_ok] at h
      obtain ⟨between, hstep, hrun⟩ := h
      obtain ⟨terminal, hspells, hfirst⟩ := (effect_of_step hstep).spells
      obtain ⟨sentence, hsentence, hrest⟩ := ih hrun
      refine ⟨terminal :: sentence, .cons hspells hsentence, ?_⟩
      rw [hrest, hfirst, List.append_assoc, List.singleton_append]

/-- The first word that is too long. -/
def firstLong? (ws : List Word) : Option Word := ws.find? fun w => isLong w.text

/-- The stack, unless a word is too long. -/
def unlessLong (ws : List Word) (stack : List Expr) : Except ParseError (List Expr) :=
  match firstLong? ws with
  | some w => .error ⟨.invalidNumber w.text, some w.position⟩
  | none => .ok stack

theorem unlessLong_singleton (w : Word) (stack : List Expr) :
    unlessLong [w] stack =
      if isLong w.text then .error ⟨.invalidNumber w.text, some w.position⟩ else .ok stack := by
  unfold unlessLong firstLong?
  rw [List.find?_cons]
  cases isLong w.text <;> rfl

theorem unlessLong_append (before after : List Word) (between stack : List Expr) :
    unlessLong (before ++ after) stack =
      unlessLong before between >>= fun _ => unlessLong after stack := by
  unfold unlessLong firstLong?
  rw [List.find?_append]
  cases before.find? fun w => isLong w.text <;> rfl

/-- Words that a run reads and those after them are read one after the other. -/
theorem run_append {before after : List Word} {stack between result : List Expr}
    (hbefore : before.foldlM (step expressions) stack = unlessLong before between)
    (hafter : after.foldlM (step expressions) between = unlessLong after result) :
    (before ++ after).foldlM (step expressions) stack = unlessLong (before ++ after) result := by
  -- A word that is too long ends both runs with its own error, so nothing after it matters.
  rw [List.foldlM_append, hbefore, unlessLong_append before after between, ← hafter]
  unfold unlessLong
  cases firstLong? before <;> rfl

theorem run_singleton {w : Word} {stack result : List Expr}
    (h : step expressions stack w = unlessLong [w] result) :
    [w].foldlM (step expressions) stack = unlessLong [w] result := by
  rw [List.foldlM_cons, h]
  exact bind_pure _

theorem run_writes_each (es : List Expr)
    (h : ∀ e ∈ es, ∀ stack ws, List.Forall₂ (fun w t => Writes w.text t) ws (e.terminals .flat) →
      ws.foldlM (step expressions) stack = unlessLong ws (e :: stack))
    (stack : List Expr) {ws : List Word}
    (hws : List.Forall₂ (fun w t => Writes w.text t) ws
      (es.flatMap (Expr.terminals .flat))) :
    ws.foldlM (step expressions) stack = unlessLong ws (es.reverse ++ stack) := by
  induction es generalizing stack ws with
  | nil =>
      cases hws
      rfl
  | cons e es ih =>
      rw [List.flatMap_cons, forall₂_append_right_iff] at hws
      obtain ⟨first, others, rfl, hfirst, hothers⟩ := hws
      rw [List.forall_mem_cons] at h
      have hreverse : (e :: es).reverse ++ stack = es.reverse ++ (e :: stack) := by simp
      rw [hreverse]
      exact run_append (h.1 stack first hfirst) (ih h.2 (e :: stack) hothers)

/-- Words that write a sentence put its expression on the stack, unless a word is too long. -/
theorem run_writes (e : Expr) (stack : List Expr) {ws : List Word}
    (h : List.Forall₂ (fun w t => Writes w.text t) ws (e.terminals .flat)) :
    ws.foldlM (step expressions) stack = unlessLong ws (e :: stack) := by
  induction e using Expr.induct generalizing stack ws with
  | atom a =>
      obtain ⟨w, _, hwrites, hnil, rfl⟩ := List.forall₂_cons_right_iff.1 h
      cases hnil
      refine run_singleton ?_
      rw [step_leaf hwrites, unlessLong_singleton]
  | apply o args ih =>
      rw [Expr.terminals_apply, Form.enclose, forall₂_append_right_iff] at h
      obtain ⟨before, _, rfl, hbefore, hlast⟩ := h
      obtain ⟨w, _, hwrites, hnil, rfl⟩ := List.forall₂_cons_right_iff.1 hlast
      cases hnil
      have hargs := run_writes_each args.toList (fun e he stack ws => ih e he stack) stack hbefore
      refine run_append hargs (run_singleton ?_)
      obtain ⟨text, position⟩ := w
      obtain rfl : text = o.symbol := by
        cases hwrites
        rfl
      rw [step_operation, unlessLong_singleton, isLong_symbol, if_neg Bool.false_ne_true]

/-! ### Texts -/

theorem firstLong?_of_spells {ws : List Word} {sentence : List Terminal}
    (h : List.Forall₂ (fun w t => Spells w.text t) ws sentence) : firstLong? ws = none := by
  rw [firstLong?, List.find?_eq_none]
  intro w hw
  obtain ⟨terminal, -, hshort⟩ := exists_of_forall₂ h w hw
  exact Bool.not_eq_true _ ▸ hshort

/-- Reading words that write an expression gives the expression, unless a word is too long. -/
theorem parseExpr_of_writes {text : String} {e : Expr}
    (h : List.Forall₂ (fun w t => Writes w.text t) (words text) (e.terminals .flat)) :
    parseExpr text =
      match firstLong? (words text) with
      | some w => .error ⟨.invalidNumber w.text, some w.position⟩
      | none => .ok e := by
  have hblank : ¬ text.toList.all isBlank = true := by
    intro hall
    rw [words, wordsFrom_eq_nil_iff.2 hall] at h
    exact Expr.terminals_ne_nil _ _ (List.forall₂_nil_left_iff.1 h)
  rw [parseExpr, parse, if_neg hblank, run_writes e [] h, unlessLong]
  cases firstLong? (words text) <;> rfl

theorem parseExpr_eq_ok_iff {text : String} {e : Expr} :
    parseExpr text = .ok e ↔
      List.Forall₂ (fun w t => Spells w.text t) (words text) (e.terminals .flat) := by
  constructor
  · intro h
    unfold parseExpr parse at h
    split at h
    · cases h
    · obtain ⟨stack, hrun, hend⟩ := bind_eq_ok.1 h
      obtain ⟨sentence, hsentence, hwritten⟩ := spells_of_run hrun
      split at hend
      · cases hend
        rw [written_cons] at hwritten
        obtain rfl : e.terminals .flat = sentence := hwritten
        exact hsentence
      · cases hend
  · intro h
    rw [parseExpr_of_writes (h.imp fun _ _ hspells => hspells.1), firstLong?_of_spells h]

end Trivar.Flat
