import Trivar.Proofs.BracketedGrammar

/-!
Reading bracketed notation by recursive descent. Every bracket that is open is a
call that has not returned, where the reader with a stack has an entry; the two
read the same trees and find the same faults (`parse_eq_descent`).

A function of the descent returns what it read together with what is left of the
tokens. That these are fewer, or at least not more, is part of the result, since
the next call depends on it.

Both name a fault and read a literal in the same way. A fault cites the next
token and its place (`failAt_cons`, `failAt_nil`), and digits are a number or
too long (`expr_digits`).
-/

namespace Trivar.Bracketed

namespace Descent

/-- What is left of some tokens after one or more were taken. -/
abbrev Rest (tokens : List Token) := { rest : List Token // rest.length < tokens.length }

theorem Rest.length_le {tokens : List Token} (rest : Rest tokens)
    (after : { after : List Token // after.length ≤ rest.val.length }) :
    after.val.length ≤ tokens.length :=
  Nat.le_trans after.property (Nat.le_of_lt rest.property)

section

variable (placement : Placement) (length : Nat)

def operation (tokens : List Token) : Except ParseError ((Operator × Nat) × Rest tokens) :=
  match tokens with
  | ⟨.operator o, position⟩ :: rest => .ok ((o, position), ⟨rest, Nat.lt_succ_self _⟩)
  | tokens => .error (failAt length tokens (.invalidOperation · none))

def closing (tokens : List Token) : Except ParseError (Rest tokens) :=
  match tokens with
  | ⟨.closing, _⟩ :: rest => .ok ⟨rest, Nat.lt_succ_self _⟩
  | tokens => .error (failAt length tokens .missingClosingBracket)

/-- The end of a group whose operation and arguments were read: as many arguments as the
operation takes, and then the bracket. -/
def ending (o : Operator) (position : Nat) (args : List Expr) (tokens : List Token) :
    Except ParseError (Expr × Rest tokens) :=
  match Tuple.ofList? o.arity args with
  | none => .error ⟨.arityMismatch o.symbol o.arity args.length, some position⟩
  | some tuple => do
    let rest ← closing length tokens
    return (.apply o tuple, rest)

mutual

/-- A number, a variable or a group in brackets. -/
def expr (tokens : List Token) : Except ParseError (Expr × Rest tokens) :=
  match tokens with
  | ⟨.digits text, position⟩ :: rest =>
    match Literal.read text with
    | .error fault => .error ⟨fault, some position⟩
    | .ok n => .ok (.integer n, ⟨rest, Nat.lt_succ_self _⟩)
  | ⟨.variable v, _⟩ :: rest => .ok (.atom (.variable v), ⟨rest, Nat.lt_succ_self _⟩)
  | ⟨.opening, _⟩ :: rest => do
    let (e, after) ← group rest
    return (e, ⟨after.val, Nat.lt_succ_of_lt after.property⟩)
  | tokens =>
    .error (failAt length tokens (.invalidToken "number, variable or bracketed expression"))
termination_by (tokens.length, 0)

/-- What follows an opening bracket, up to the closing one. -/
def group (tokens : List Token) : Except ParseError (Expr × Rest tokens) :=
  match placement with
  | .first => do
    let ((o, position), rest) ← operation length tokens
    let (args, after) ← exprs rest
    let (e, last) ← ending length o position args after
    return (e, ⟨last.val, by have := rest.property; have := after.property; omega⟩)
  | .last => do
    let (args, after) ← exprs tokens
    let ((o, position), rest) ← operation length after
    let (e, last) ← ending length o position args rest
    return (e, ⟨last.val, by have := rest.property; have := after.property; omega⟩)
termination_by (tokens.length, 2)

/-- The arguments of a group. They end before a closing bracket, at the end of the text and,
where the symbol stands last, before an operation. -/
def exprs (tokens : List Token) :
    Except ParseError (List Expr × { rest : List Token // rest.length ≤ tokens.length }) :=
  match placement, tokens with
  | _, [] => .ok ([], ⟨[], Nat.le_refl _⟩)
  | _, ⟨.closing, position⟩ :: rest => .ok ([], ⟨⟨.closing, position⟩ :: rest, Nat.le_refl _⟩)
  | .last, ⟨.operator o, position⟩ :: rest =>
    .ok ([], ⟨⟨.operator o, position⟩ :: rest, Nat.le_refl _⟩)
  | _, tokens => do
    let (e, rest) ← expr tokens
    let (es, after) ← exprs rest
    return (e :: es, ⟨after.val, Rest.length_le rest after⟩)
termination_by (tokens.length, 1)

end

/-- Reads all tokens of a text of the given length as one expression. -/
def read (tokens : List Token) : Except ParseError Expr := do
  let (e, rest) ← expr placement length tokens
  match rest.val with
  | [] => return e
  | t :: _ => .error ⟨.unexpectedCharacter (some t.lexeme.text), some t.position⟩

end

def parse (placement : Placement) (text : String) : Except ParseError Expr :=
  if text.toList.all Text.isBlank then .error ⟨.emptyExpression, none⟩
  else do
    let tokens ← Token.scan text
    read placement text.length tokens

end Descent

variable {placement : Placement} {length : Nat}

/-! ### Single tokens -/

theorem failAt_nil (fault : String → Fault) :
    failAt length [] fault = ⟨fault "end of input", some length⟩ := rfl

theorem failAt_cons (t : Token) (rest : List Token) (fault : String → Fault) :
    failAt length (t :: rest) fault = ⟨fault (Text.quoted t.lexeme.text), some t.position⟩ := rfl

/-- The digits of a scanned text are read as the number that they spell, if there are not too
many of them. -/
theorem Descent.expr_digits {text : String} (h : (Lexeme.digits text).WellFormed) (position : Nat)
    (rest : List Token) :
    expr placement length (⟨.digits text, position⟩ :: rest) =
      if maxLiteralDigits < text.length then .error ⟨.invalidNumber text, some position⟩
      else .ok (.integer (Text.digitsValue text.toList), ⟨rest, Nat.lt_succ_self _⟩) := by
  obtain ⟨n, hnumeral⟩ := h
  have hread := Literal.read_numeral hnumeral
  rw [String.ofList_toList, String.length_toList] at hread
  rw [expr, hread, hnumeral.value]
  by_cases hlong : maxLiteralDigits < text.length
  · rw [if_pos hlong, if_pos hlong]
  · rw [if_neg hlong, if_neg hlong]

theorem takeOperation_eq_operation (tokens : List Token) :
    takeOperation length tokens =
      Descent.operation length tokens >>= fun taken => .ok (taken.1, taken.2.val) := by
  cases tokens with
  | nil => rfl
  | cons t rest =>
      obtain ⟨lexeme, position⟩ := t
      cases lexeme <;> rfl

theorem takeClosing_eq_closing (tokens : List Token) :
    takeClosing length tokens = Descent.closing length tokens >>= fun rest => .ok rest.val := by
  cases tokens with
  | nil => rfl
  | cons t rest =>
      obtain ⟨lexeme, position⟩ := t
      cases lexeme <;> rfl

theorem finish_eq_ending (o : Operator) (position : Nat) (found : List Expr)
    (tokens : List Token) :
    finish length o position found tokens =
      Descent.ending length o position found.reverse tokens >>= fun read =>
        .ok (read.1, read.2.val) := by
  unfold finish Descent.ending Expr.ofArgs?
  rw [takeClosing_eq_closing]
  cases Tuple.ofList? o.arity found.reverse with
  | none =>
      rw [List.length_reverse]
      rfl
  | some args => cases Descent.closing length tokens <;> rfl

/-! ### Groups -/

section

variable {groups : List Group} {tokens : List Token}

theorem run_opening_first (position : Nat) :
    run .first length groups (⟨.opening, position⟩ :: tokens) =
      Descent.operation length tokens >>= fun taken =>
        run .first length (⟨some taken.1, []⟩ :: groups) taken.2.val := by
  rw [run_eq_step_bind_resume, step_of_not_endsArguments rfl, shift, takeOperation_eq_operation]
  cases Descent.operation length tokens <;> rfl

theorem run_opening_last (position : Nat) :
    run .last length groups (⟨.opening, position⟩ :: tokens) =
      run .last length (⟨none, []⟩ :: groups) tokens := by
  rw [run_eq_step_bind_resume, step_of_not_endsArguments rfl, shift]
  rfl

theorem run_of_endsArguments (h : endsArguments placement tokens = true) (inner : Group) :
    run placement length (inner :: groups) tokens =
      close length inner tokens >>= fun closed =>
        resume placement length (deliver closed.1 closed.2 groups) := by
  rw [run_eq_step_bind_resume, step_of_endsArguments h]
  cases close length inner tokens <;> rfl

theorem run_eq_shift (h : groups = [] ∨ endsArguments placement tokens = false) :
    run placement length groups tokens =
      shift placement length groups tokens >>= resume placement length := by
  rw [run_eq_step_bind_resume]
  rcases h with rfl | h
  · rfl
  · rw [step_of_not_endsArguments h]

end

open Descent (expr group exprs)

theorem exprs_eq (tokens : List Token) :
    exprs placement length tokens =
      if endsArguments placement tokens then .ok ([], ⟨tokens, Nat.le_refl _⟩)
      else do
        let (e, rest) ← expr placement length tokens
        let (es, after) ← exprs placement length rest
        return (e :: es, ⟨after.val, Descent.Rest.length_le rest after⟩) := by
  rw [exprs.eq_def]
  match tokens with
  | [] => cases placement <;> rfl
  | ⟨lexeme, position⟩ :: rest => cases placement <;> cases lexeme <;> rfl

mutual

/-- Where an expression is expected, the reader with a stack delivers the one that the descent
reads. -/
theorem run_expr {placement : Placement} (groups : List Group) (tokens : List Token)
    (h : groups = [] ∨ endsArguments placement tokens = false) :
    run placement length groups tokens =
      expr placement length tokens >>= fun read =>
        resume placement length (deliver read.1 read.2.val groups) := by
  match tokens with
  | ⟨.digits text, position⟩ :: rest =>
      rw [run_eq_shift h, shift, expr]
      cases Literal.read text <;> rfl
  | ⟨.variable v, position⟩ :: rest =>
      rw [run_eq_shift h, shift, expr]
      rfl
  | ⟨.opening, position⟩ :: rest =>
      rw [run_group, expr, bind_assoc]
      exact bind_congr fun read => rfl
  | [] | ⟨.closing, position⟩ :: rest | ⟨.operator o, position⟩ :: rest =>
      rw [run_eq_shift h, expr.eq_def]
      rfl
termination_by (tokens.length, 0)

theorem run_group {placement : Placement} (groups : List Group) (position : Nat)
    (tokens : List Token) :
    run placement length groups (⟨.opening, position⟩ :: tokens) =
      group placement length tokens >>= fun read =>
        resume placement length (deliver read.1 read.2.val groups) := by
  match placement with
  | .first =>
      rw [run_opening_first, group, bind_assoc]
      refine bind_congr fun ⟨(o, q), rest⟩ => ?_
      rw [run_exprs, bind_assoc]
      refine bind_congr fun ⟨args, after⟩ => ?_
      rw [close_some, List.append_nil, finish_eq_ending, List.reverse_reverse, bind_assoc,
        bind_assoc]
      exact bind_congr fun read => rfl
  | .last =>
      rw [run_opening_last, group, run_exprs, bind_assoc]
      refine bind_congr fun ⟨args, after⟩ => ?_
      rw [close_none, takeOperation_eq_operation, List.append_nil, bind_assoc, bind_assoc,
        bind_assoc]
      refine bind_congr fun ⟨(o, q), rest⟩ => ?_
      change (finish length o q args.reverse rest.val >>= fun closed =>
        resume .last length (deliver closed.1 closed.2 groups)) = _
      rw [finish_eq_ending, List.reverse_reverse, bind_assoc, bind_assoc]
      exact bind_congr fun read => rfl
termination_by (tokens.length, 2)

/-- The reader with a stack collects the arguments that the descent reads and then closes the
group. -/
theorem run_exprs {placement : Placement} (operation : Option (Operator × Nat))
    (found : List Expr) (outer : List Group) (tokens : List Token) :
    run placement length (⟨operation, found⟩ :: outer) tokens =
      exprs placement length tokens >>= fun read =>
        close length ⟨operation, read.1.reverse ++ found⟩ read.2.val >>= fun closed =>
          resume placement length (deliver closed.1 closed.2 outer) := by
  rw [exprs_eq]
  -- Both stop at the same tokens; before any other the descent reads one more argument, which the
  -- reader with a stack puts on top of those found.
  by_cases hends : endsArguments placement tokens = true
  · rw [run_of_endsArguments hends, if_pos hends]
    rfl
  · rw [run_expr _ _ (.inr (Bool.not_eq_true _ ▸ hends)), if_neg hends, bind_assoc]
    refine bind_congr fun ⟨e, rest⟩ => ?_
    rw [bind_assoc]
    change run placement length (⟨operation, e :: found⟩ :: outer) rest.val = _
    rw [run_exprs]
    refine bind_congr fun ⟨es, after⟩ => ?_
    rw [pure_bind, List.reverse_cons, List.append_assoc, List.singleton_append]
termination_by (tokens.length, 1)

end

/-- The reader with a stack and the descent read the same expression or report the same error. -/
theorem parse_eq_descent (placement : Placement) (text : String) :
    parse placement text = Descent.parse placement text := by
  have hread (tokens : List Token) :
      read placement text.length tokens = Descent.read placement text.length tokens := by
    rw [read, Descent.read, run_expr [] tokens (.inl rfl), bind_assoc]
    exact bind_congr fun ⟨e, rest⟩ => rfl
  unfold parse Descent.parse
  simp only [hread]

end Trivar.Bracketed
