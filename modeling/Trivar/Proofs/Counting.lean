import Trivar.Closure
import Trivar.Proofs.FlatGrammar

/-!
Reading flat notation is decided by counting. All that matters of a word is its
kind, and of the stack how many values are on it: an operand adds one, and an
operation of arity `n` takes `n` off and adds one. The first word that is at
fault decides the outcome, and if there is none, the number of values that are
left.
-/

namespace Trivar.Flat

open Outcome

inductive Kind
  | operation (arity : Nat)
  | literal
  | operand
  | invalid
  deriving DecidableEq

namespace Kind

/-- By how much a word of this kind changes the number of values on the stack. -/
def change : Kind → Int
  | .operation arity => 1 - arity
  | _ => 1

/-- What is wrong with a word of this kind when so many values are on the stack. -/
def fault? (text : String) (depth : Int) : Kind → Option Fault
  | .operation arity =>
    if depth < arity then some (.stackUnderflow text arity depth) else none
  | .literal =>
    if maxLiteralDigits < text.toList.countP Text.isDigit then some (.invalidNumber text) else none
  | .operand => none
  | .invalid => some (.invalidVariableName text)

end Kind

namespace Vocabulary

variable {α : Type} (V : Vocabulary α)

def kind (text : String) : Kind :=
  match V.operation? text with
  | some o => .operation o.arity
  | none =>
    if isInteger text.toList then .literal
    else if (V.operand? text).isSome then .operand
    else .invalid

/-- The number of values that words leave on the stack. -/
def depth (ws : List Word) : Int := (ws.map fun w => (V.kind w.text).change).sum

def error? (before : List Word) (w : Word) : Option ParseError :=
  ((V.kind w.text).fault? w.text (V.depth before)).map (⟨·, some w.position⟩)

/-- The first error among the words `after`, which come after the words `before`. -/
def firstErrorAfter? (before after : List Word) : Option ParseError :=
  (after.zipIdx before.length).findSome? fun (w, i) => V.error? ((before ++ after).take i) w

def firstError? (ws : List Word) : Option ParseError := V.firstErrorAfter? [] ws

def verdict (ws : List Word) : Except ParseError Unit :=
  if ws = [] then .error ⟨.emptyExpression, none⟩
  else
    match V.firstError? ws with
    | some e => .error e
    | none =>
      if V.depth ws = 1 then .ok ()
      else .error ⟨.malformedFlatExpression (V.depth ws), none⟩

theorem depth_append_singleton (ws : List Word) (w : Word) :
    V.depth (ws ++ [w]) = V.depth ws + (V.kind w.text).change := by
  simp [depth]

theorem firstErrorAfter?_nil (before : List Word) : V.firstErrorAfter? before [] = none := rfl

theorem firstErrorAfter?_cons (before after : List Word) (w : Word) :
    V.firstErrorAfter? before (w :: after) =
      (V.error? before w).or (V.firstErrorAfter? (before ++ [w]) after) := by
  unfold firstErrorAfter?
  rw [List.zipIdx_cons, List.findSome?_cons, List.length_append, List.append_assoc]
  simp only [List.take_left, List.length_singleton, List.singleton_append]
  cases V.error? before w <;> rfl

end Vocabulary

/-! ### Words -/

/-- The digits of an integer are counted without its sign. -/
theorem isLong_of_isInteger {text : String} (h : isInteger text.toList = true) :
    Word.isLong text = decide (maxLiteralDigits < text.toList.countP Text.isDigit) := by
  have hcount {digits : List Char} {n : Nat} (hnumeral : Text.Numeral digits n) :
      digits.countP Text.isDigit = digits.length :=
    List.countP_eq_length.2 hnumeral.isDigit
  obtain ⟨n, hwrites⟩ := writes_of_isInteger h
  cases hwrites with
  | numeral hnumeral =>
      rw [Word.isLong, String.toList_ofList, Literal.dropWhile_minus_numeral hnumeral,
        hcount hnumeral]
  | negated hnumeral =>
      rw [Word.isLong, String.toList_ofList, List.dropWhile_cons_of_pos (by simp),
        Literal.dropWhile_minus_numeral hnumeral, List.countP_cons_of_neg (by decide +kernel),
        hcount hnumeral]

/-! ### Steps -/

variable {α : Type} {V : Vocabulary α}

/-- A step fails with the error of its word, or else it changes the number of values as the kind
of the word says. -/
theorem length_step {before : List Word} {stack : List α}
    (h : (stack.length : Int) = V.depth before) (w : Word) :
    ((step V stack w).map fun next => (next.length : Int)) =
      (V.error? before w).elim (.ok (V.depth (before ++ [w]))) .error := by
  rw [Vocabulary.error?, V.depth_append_singleton, ← h]
  unfold step Vocabulary.kind
  cases V.operation? w.text with
  | some o =>
      have hlength : (stack.take o.arity).reverse.length = min o.arity stack.length := by
        rw [List.length_reverse, List.length_take]
      simp only [Kind.fault?, Kind.change]
      by_cases hfew : (stack.length : Int) < o.arity
      · have hargs : Tuple.ofList? o.arity (stack.take o.arity).reverse = none :=
          Tuple.ofList?_eq_none_iff.2 (by omega)
        rw [hargs, if_pos hfew]
        rfl
      · have hargs : Tuple.ofList? o.arity (stack.take o.arity).reverse ≠ none :=
          mt Tuple.ofList?_eq_none_iff.1 (by omega)
        obtain ⟨args, hargs⟩ := Option.ne_none_iff_exists'.1 hargs
        rw [hargs, if_neg hfew]
        simp only [ok_map, List.length_cons, List.length_drop]
        change Except.ok _ = Except.ok _
        congr 1
        omega
  | none =>
      by_cases hinteger : isInteger w.text.toList = true
      · obtain ⟨n, hwrites⟩ := writes_of_isInteger hinteger
        simp only [if_pos hinteger, hwrites.integer.2, isLong_of_isInteger hinteger,
          decide_eq_true_eq, Kind.fault?, Kind.change]
        by_cases hlong : maxLiteralDigits < w.text.toList.countP Text.isDigit
        · simp only [if_pos hlong]
          rfl
        · simp only [if_neg hlong]
          rfl
      · simp only [if_neg hinteger]
        cases V.operand? w.text <;> rfl

theorem ne_nil_of_step {stack next : List α} {w : Word} (h : step V stack w = .ok next) :
    next ≠ [] := by
  unfold step at h
  grind

/-! ### Runs -/

theorem length_foldlM {before after : List Word} {stack : List α}
    (h : (stack.length : Int) = V.depth before) :
    ((after.foldlM (step V) stack).map fun last => (last.length : Int)) =
      (V.firstErrorAfter? before after).elim (.ok (V.depth (before ++ after))) .error := by
  induction after generalizing before stack with
  | nil =>
      rw [V.firstErrorAfter?_nil, List.append_nil, ← h]
      rfl
  | cons w ws ih =>
      have hstep := length_step h w
      rw [V.firstErrorAfter?_cons, List.foldlM_cons]
      cases herror : V.error? before w with
      | some e =>
          rw [herror] at hstep
          rw [map_eq_error.1 hstep]
          rfl
      | none =>
          rw [herror] at hstep
          obtain ⟨next, hnext, hlength⟩ := map_eq_ok.1 hstep
          rw [hnext, ok_bind, ih hlength, List.append_assoc, List.singleton_append]
          rfl

theorem ne_nil_of_foldlM {ws : List Word} {stack last : List α}
    (h : ws.foldlM (step V) stack = .ok last) (hne : ws ≠ [] ∨ stack ≠ []) : last ≠ [] := by
  induction ws generalizing stack with
  | nil =>
      cases h
      exact hne.resolve_left fun h => h rfl
  | cons w ws ih =>
      rw [List.foldlM_cons, bind_eq_ok] at h
      obtain ⟨next, hstep, hrun⟩ := h
      exact ih hrun (.inr (ne_nil_of_step hstep))

theorem length_run (ws : List Word) :
    ((ws.foldlM (step V) []).map fun last => (last.length : Int)) =
      (V.firstError? ws).elim (.ok (V.depth ws)) .error := by
  have hempty : (([] : List α).length : Int) = V.depth [] := rfl
  exact length_foldlM hempty

theorem one_le_depth {ws : List Word} (hne : ws ≠ []) (h : V.firstError? ws = none) :
    1 ≤ V.depth ws := by
  have hlength := length_run (V := V) ws
  rw [h] at hlength
  obtain ⟨last, hrun, hdepth⟩ := map_eq_ok.1 hlength
  have hpos := List.length_pos_iff.2 (ne_nil_of_foldlM hrun (.inl hne))
  omega

/-! ### Outcomes -/

theorem parse_eq_verdict (V : Vocabulary α) (text : String) :
    ((parse V text).map fun _ => ()) = V.verdict (words text) := by
  have hblank : words text = [] ↔ text.toList.all Text.isBlank = true := wordsFrom_eq_nil_iff
  unfold parse Vocabulary.verdict
  by_cases hempty : text.toList.all Text.isBlank = true
  · rw [if_pos hempty, if_pos (hblank.2 hempty)]
    rfl
  · have hlength := length_run (V := V) (words text)
    rw [if_neg hempty, if_neg (mt hblank.1 hempty)]
    cases herror : V.firstError? (words text) with
    | some e =>
        rw [herror] at hlength
        rw [map_eq_error.1 hlength]
        rfl
    | none =>
        rw [herror] at hlength
        obtain ⟨last, hrun, hdepth⟩ := map_eq_ok.1 hlength
        rw [hrun, ← hdepth]
        match last with
        | [] => rfl
        | [_] => rfl
        | _ :: _ :: _ =>
            rw [if_neg (by simp; omega)]
            rfl

theorem position_of_firstError? {ws : List Word} {e : ParseError} (h : V.firstError? ws = some e) :
    e.position ≠ none := by
  obtain ⟨⟨w, i⟩, -, herror⟩ := List.exists_of_findSome?_eq_some h
  obtain ⟨fault, -, rfl⟩ := Option.map_eq_some_iff.1 herror
  exact Option.some_ne_none _

/-- An error without a place is not that of a word. -/
theorem verdict_eq_error_none_iff {ws : List Word} {fault : Fault} :
    V.verdict ws = .error ⟨fault, none⟩ ↔
      (ws = [] ∧ fault = .emptyExpression) ∨
      (ws ≠ [] ∧ V.firstError? ws = none ∧ V.depth ws ≠ 1 ∧
        fault = .malformedFlatExpression (V.depth ws)) := by
  unfold Vocabulary.verdict
  by_cases hempty : ws = []
  · simp [hempty, eq_comm]
  · rw [if_neg hempty]
    cases herror : V.firstError? ws with
    | some e =>
        have hposition := position_of_firstError? herror
        grind
    | none =>
        grind

theorem parse_eq_error_none_iff {text : String} {fault : Fault} :
    parse V text = .error ⟨fault, none⟩ ↔
      (words text = [] ∧ fault = .emptyExpression) ∨
      (words text ≠ [] ∧ V.firstError? (words text) = none ∧ V.depth (words text) ≠ 1 ∧
        fault = .malformedFlatExpression (V.depth (words text))) := by
  rw [← verdict_eq_error_none_iff, ← parse_eq_verdict, map_eq_error]

/-- Counting the words of a text decides the outcome of reading it. -/
structure Vocabulary.Decides (V : Vocabulary α) (text : String) (outcome : Except ParseError α) :
    Prop where
  verdict : (outcome.map fun _ => ()) = V.verdict (words text)
  empty : outcome = .error ⟨.emptyExpression, none⟩ ↔ words text = []
  malformed : ∀ count, outcome = .error ⟨.malformedFlatExpression count, none⟩ ↔
    words text ≠ [] ∧ V.firstError? (words text) = none ∧ V.depth (words text) ≠ 1 ∧
      count = V.depth (words text)
  two_le : ∀ count, outcome = .error ⟨.malformedFlatExpression count, none⟩ → 2 ≤ count

theorem decides_parse (V : Vocabulary α) (text : String) : V.Decides text (parse V text) where
  verdict := parse_eq_verdict V text
  empty := by simp [parse_eq_error_none_iff]
  malformed count := by simp [parse_eq_error_none_iff]
  two_le count h := by
    obtain ⟨-, hfault⟩ | ⟨hne, herror, hdepth, hfault⟩ := parse_eq_error_none_iff.1 h
    · cases hfault
    · cases hfault
      have hpos := one_le_depth hne herror
      omega

/-- For expressions as for closures, counting decides the outcome of reading a flat text. The words
that are counted are the longest parts of the text without blanks, in their order. -/
theorem reading_decided_by_counting (text : String) :
    (∀ w, w ∈ words text ↔ IsRun 0 text.toList w) ∧
      ((words text).Pairwise fun v w => v.position < w.position) ∧
      expressions.Decides text (parseExpr text) ∧
      Closure.vocabulary.Decides text (Closure.parse text) :=
  ⟨fun _ => mem_words_iff, wordsFrom_sorted 0 text.toList, decides_parse expressions text,
    decides_parse Closure.vocabulary text⟩

example : expressions.verdict (words "x 1 2 +") = .error ⟨.malformedFlatExpression 2, none⟩ := by
  decide +kernel

end Trivar.Flat
