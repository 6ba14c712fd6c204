import Trivar.Expr.Text
import Trivar.Literal
import Trivar.Token.Scan
import Trivar.Text.Character

/-!
Reading bracketed notation. The reader keeps the operations whose bracket is
still open, each with the arguments found so far, the innermost one first. Every
step takes at least one token: it opens a bracket, reads a leaf, or closes the
innermost bracket when a token follows that ends its arguments.

The operation of a bracket is known from its opening when the symbol stands
first, and is read at its closing otherwise.
-/

namespace Trivar.Bracketed

/-- An open bracket: its operation with the place of the symbol, if already read, and the
arguments found so far, the last one first. -/
structure Group where
  operation : Option (Operator × Nat)
  args : List Expr

/-- The place of the first token, and what error messages call it. At the end of the text the
place is its length. -/
def nextFound (length : Nat) : List Token → Nat × String
  | [] => (length, "end of input")
  | t :: _ => (t.position, Text.quoted t.lexeme.text)

def failAt (length : Nat) (tokens : List Token) (fault : String → Fault) : ParseError :=
  let (position, found) := nextFound length tokens
  ⟨fault found, some position⟩

/-- Takes an operation symbol. -/
def takeOperation (length : Nat) :
    List Token → Except ParseError ((Operator × Nat) × List Token)
  | ⟨.operator o, position⟩ :: rest => .ok ((o, position), rest)
  | tokens => .error (failAt length tokens (.invalidOperation · none))

def takeClosing (length : Nat) : List Token → Except ParseError (List Token)
  | ⟨.closing, _⟩ :: rest => .ok rest
  | tokens => .error (failAt length tokens .missingClosingBracket)

/-- Whether the arguments of a bracket end before these tokens. -/
def endsArguments (placement : Placement) : List Token → Bool
  | [] => true
  | t :: _ =>
    match t.lexeme with
    | .closing => true
    | .operator _ => placement = .last
    | _ => false

/-- Ends a bracket. The number of arguments is checked before the closing bracket is. -/
def close (length : Nat) (group : Group) (tokens : List Token) :
    Except ParseError (Expr × List Token) := do
  let ((o, position), rest) ← match group.operation with
    | some operation => .ok (operation, tokens)
    | none => takeOperation length tokens
  match Expr.ofArgs? o group.args.reverse with
  | none => .error ⟨.arityMismatch o.symbol o.arity group.args.length, some position⟩
  | some e => return (e, ← takeClosing length rest)

/-- A step leads to a state with open brackets, or to the expression that was read and the
tokens after it. -/
inductive Progress
  | reading (groups : List Group) (tokens : List Token)
  | done (e : Expr) (tokens : List Token)

/-- Hands an expression to the innermost open bracket. -/
def deliver (e : Expr) (tokens : List Token) : List Group → Progress
  | [] => .done e tokens
  | group :: outer => .reading ({ group with args := e :: group.args } :: outer) tokens

/-- Opens a bracket or reads a leaf. -/
def shift (placement : Placement) (length : Nat) (groups : List Group) (tokens : List Token) :
    Except ParseError Progress :=
  match tokens with
  | ⟨.opening, _⟩ :: rest =>
    match placement with
    | .first => do
      let (operation, rest) ← takeOperation length rest
      return .reading (⟨some operation, []⟩ :: groups) rest
    | .last => .ok (.reading (⟨none, []⟩ :: groups) rest)
  | ⟨.digits text, position⟩ :: rest =>
    match Literal.read text with
    | .error fault => .error ⟨fault, some position⟩
    | .ok n => .ok (deliver (.integer n) rest groups)
  | ⟨.variable v, _⟩ :: rest => .ok (deliver (.atom (.variable v)) rest groups)
  | tokens =>
    .error (failAt length tokens (.invalidToken "number, variable or bracketed expression"))

def step (placement : Placement) (length : Nat) (groups : List Group) (tokens : List Token) :
    Except ParseError Progress :=
  match groups with
  | [] => shift placement length [] tokens
  | group :: outer =>
    if endsArguments placement tokens then do
      let (e, rest) ← close length group tokens
      return deliver e rest outer
    else shift placement length groups tokens

theorem length_of_takeOperation {length : Nat} {tokens rest : List Token} {operation}
    (h : takeOperation length tokens = .ok (operation, rest)) : rest.length < tokens.length := by
  unfold takeOperation at h
  split at h <;> simp_all

theorem length_of_takeClosing {length : Nat} {tokens rest : List Token}
    (h : takeClosing length tokens = .ok rest) : rest.length < tokens.length := by
  unfold takeClosing at h
  split at h <;> simp_all

theorem length_of_close {length : Nat} {group : Group} {tokens rest : List Token} {e : Expr}
    (h : close length group tokens = .ok (e, rest)) : rest.length < tokens.length := by
  unfold close at h
  have hclosing (e' : Expr) (between : List Token)
      (h : (do return (e', ← takeClosing length between)) = Except.ok (e, rest)) :
      rest.length < between.length := by
    cases hc : takeClosing length between with
    | error err => simp [hc, bind, Except.bind] at h
    | ok found =>
      simp only [hc, bind, Except.bind, pure, Except.pure, Except.ok.injEq, Prod.mk.injEq] at h
      exact h.2 ▸ length_of_takeClosing hc
  cases hop : group.operation with
  | some operation =>
    simp only [hop, bind, Except.bind] at h
    split at h
    · simp at h
    · exact hclosing _ _ h
  | none =>
    cases htake : takeOperation length tokens with
    | error err => simp [hop, htake, bind, Except.bind] at h
    | ok taken =>
      obtain ⟨operation, between⟩ := taken
      simp only [hop, htake, bind, Except.bind] at h
      split at h
      · simp at h
      · exact Nat.lt_trans (hclosing _ _ h) (length_of_takeOperation htake)

theorem deliver_eq_reading {e : Expr} {tokens rest : List Token} {groups inner : List Group}
    (h : deliver e tokens groups = .reading inner rest) : rest = tokens := by
  cases groups <;> simp_all [deliver]

theorem length_of_shift {placement : Placement} {length : Nat} {groups inner : List Group}
    {tokens rest : List Token}
    (h : shift placement length groups tokens = .ok (.reading inner rest)) :
    rest.length < tokens.length := by
  unfold shift at h
  split at h
  · rename_i position after
    split at h
    · cases htake : takeOperation length after with
      | error err => simp [htake, bind, Except.bind] at h
      | ok taken =>
        simp only [htake, bind, Except.bind, pure, Except.pure, Except.ok.injEq,
          Progress.reading.injEq] at h
        have := length_of_takeOperation htake
        simp only [h.2, List.length_cons] at this ⊢
        omega
    · simp_all
  · rename_i text position after
    cases hread : Literal.read text with
    | error fault => simp [hread] at h
    | ok n =>
      simp only [hread, Except.ok.injEq] at h
      simp [deliver_eq_reading h]
  · simp only [Except.ok.injEq] at h
    simp [deliver_eq_reading h]
  · simp at h

/-- Every step that leaves open brackets takes a token. -/
theorem length_of_step {placement : Placement} {length : Nat} {groups inner : List Group}
    {tokens rest : List Token}
    (h : step placement length groups tokens = .ok (.reading inner rest)) :
    rest.length < tokens.length := by
  unfold step at h
  split at h
  · exact length_of_shift h
  · rename_i group outer
    split at h
    · cases hclose : close length group tokens with
      | error err => simp [hclose, bind, Except.bind] at h
      | ok closed =>
        simp only [hclose, bind, Except.bind, pure, Except.pure, Except.ok.injEq] at h
        exact deliver_eq_reading h ▸ length_of_close hclose
    · exact length_of_shift h

/-- Reads one expression and returns the tokens after it. -/
def run (placement : Placement) (length : Nat) (groups : List Group) (tokens : List Token) :
    Except ParseError (Expr × List Token) :=
  match _h : step placement length groups tokens with
  | .error e => .error e
  | .ok (.done e rest) => .ok (e, rest)
  | .ok (.reading inner rest) => run placement length inner rest
termination_by tokens.length
decreasing_by exact length_of_step ‹_›

/-- Reads all tokens of a text of the given length as one expression. -/
def read (placement : Placement) (length : Nat) (tokens : List Token) : Except ParseError Expr := do
  let (e, rest) ← run placement length [] tokens
  match rest with
  | [] => return e
  | t :: _ => .error ⟨.unexpectedCharacter (some t.lexeme.text), some t.position⟩

def parse (placement : Placement) (text : String) : Except ParseError Expr :=
  if text.toList.all Text.isBlank then .error ⟨.emptyExpression, none⟩
  else do
    let tokens ← Token.scan text
    read placement text.length tokens

end Trivar.Bracketed
