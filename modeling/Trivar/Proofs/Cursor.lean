import Mathlib.Logic.Function.Iterate
import Trivar.Proofs.BracketedGrammar

/-!
Reading with a cursor. The entries of a text, its tokens and the mark of its
end, stand in one list, and the reader keeps a place in that list, where it
looks up the next entry. From any place it does what the reader of
`Trivar.Bracketed` does with the tokens that are left there (`Follows`). So no
access is outside the list, the mark of the end is never taken, and the loop
ends after as many iterations as there are entries, since each of them takes a
token or is the last one (`cursor_stays_inside`).
-/

namespace Trivar

/-- What error messages call an entry. -/
def Token.Entry.found (entry : Entry) : String :=
  match entry.lexeme with
  | some lexeme => Text.quoted lexeme.text
  | none => "end of input"

namespace Bracketed.Cursor

open Token (Entry)
open Outcome

/-- Why there is no expression: an access outside the list, or an error in the text. -/
inductive Stop
  | outside (place : Nat)
  | fault (err : ParseError)

/-- Computations with a cursor, which keeps its place when they fail. -/
abbrev Reader := ExceptT Stop (StateM Nat)

def failAt {α : Type} (entry : Entry) (fault : String → Fault) : Reader α :=
  throw (.fault ⟨fault entry.found, some entry.position⟩)

section

variable (placement : Placement) (entries : List Entry)

def peek : Reader Entry := do
  let place ← get
  match entries[place]? with
  | some entry => return entry
  | none => throw (.outside place)

/-- Takes the next entry. The cursor does not move over the mark of the end. -/
def take : Reader Entry := do
  let entry ← peek entries
  match entry.lexeme with
  | some _ => modify (· + 1)
  | none => pure ()
  return entry

def operation : Reader (Operator × Nat) := do
  let entry ← take entries
  match entry.lexeme with
  | some (.operator o) => return (o, entry.position)
  | _ => failAt entry (.invalidOperation · none)

def closing : Reader Unit := do
  let entry ← take entries
  match entry.lexeme with
  | some .closing => return ()
  | _ => failAt entry .missingClosingBracket

/-- The end of a bracket whose operation is known. -/
def finish (o : Operator) (position : Nat) (found : List Expr) : Reader Expr :=
  match Expr.ofArgs? o found.reverse with
  | none => throw (.fault ⟨.arityMismatch o.symbol o.arity found.length, some position⟩)
  | some e => do
    closing entries
    return e

def close (group : Group) : Reader Expr :=
  match group.operation with
  | some (o, position) => finish entries o position group.args
  | none => do
    let (o, position) ← operation entries
    finish entries o position group.args

/-- Whether the arguments of a bracket end before the entry. -/
def ends (entry : Entry) : Bool :=
  match entry.lexeme with
  | none | some .closing => true
  | some (.operator _) => placement = .last
  | _ => false

/-- How an iteration ends: there is another one, or an expression is returned. -/
inductive Turn
  | next (groups : List Group)
  | finished (e : Expr) (groups : List Group)

def handOn (e : Expr) : List Group → Turn
  | [] => .finished e []
  | group :: outer => .next ({ group with args := e :: group.args } :: outer)

def shift (groups : List Group) : Reader Turn := do
  let entry ← take entries
  match entry.lexeme with
  | some .opening =>
    match placement with
    | .first => do
      let operation ← operation entries
      return .next (⟨some operation, []⟩ :: groups)
    | .last => return .next (⟨none, []⟩ :: groups)
  | some (.digits text) =>
    match Literal.read text with
    | .error fault => throw (.fault ⟨fault, some entry.position⟩)
    | .ok n => return handOn (.integer n) groups
  | some (.variable v) => return handOn (.atom (.variable v)) groups
  | _ => failAt entry (.invalidToken "number, variable or bracketed expression")

/-- One iteration of the loop. -/
def iteration : List Group → Reader Turn
  | [] => shift placement entries []
  | group :: outer => do
    let entry ← peek entries
    if ends placement entry then
      let e ← close entries group
      return handOn e outer
    else shift placement entries (group :: outer)

/-- Where the loop is, with the place of the cursor. -/
inductive Status
  | reading (groups : List Group) (place : Nat)
  | returned (e : Expr) (groups : List Group) (place : Nat)
  | stopped (reason : Stop) (place : Nat)

def advance : Status → Status
  | .reading groups place =>
    match (iteration placement entries groups).run.run place with
    | (.ok (.next groups), place) => .reading groups place
    | (.ok (.finished e groups), place) => .returned e groups place
    | (.error reason, place) => .stopped reason place
  | status => status

/-- The loop after so many iterations, or at its end if that comes before. -/
def after (iterations : Nat) : Status := (advance placement entries)^[iterations] (.reading [] 0)

end

/-! ### The cursor and the tokens that are left -/

variable {α β : Type} {placement : Placement} {length : Nat} {tokens : List Token} {place : Nat}

/-- From the place the computation with the cursor does what is done with the tokens that are left
there, and ends at a place in the list. -/
def Follows (tokens : List Token) (place : Nat) (x : Reader α) :
    Except ParseError (α × List Token) → Prop
  | .ok (a, rest) => ∃ next ≤ tokens.length, tokens.drop next = rest ∧
      x.run.run place = (.ok a, next)
  | .error err => ∃ next ≤ tokens.length, x.run.run place = (.error (.fault err), next)

theorem follows_pure (hplace : place ≤ tokens.length) (a : α) :
    Follows tokens place (pure a) (.ok (a, tokens.drop place)) :=
  ⟨place, hplace, rfl, rfl⟩

theorem follows_throw (hplace : place ≤ tokens.length) (err : ParseError) :
    Follows tokens place (throw (.fault err) : Reader α) (.error err) :=
  ⟨place, hplace, rfl⟩

theorem run_bind {x : Reader α} {a : α} {next : Nat} (h : x.run.run place = (.ok a, next))
    (f : α → Reader β) : (x >>= f).run.run place = (f a).run.run next := by
  rw [ExceptT.run_bind, StateT.run_bind, h]
  rfl

theorem follows_of_run {x : Reader α} {f : α → Reader β} {a : α} {next : Nat}
    {outcome : Except ParseError (β × List Token)} (hx : x.run.run place = (.ok a, next))
    (hf : Follows tokens next (f a) outcome) : Follows tokens place (x >>= f) outcome := by
  unfold Follows at hf ⊢
  rwa [run_bind hx]

theorem Follows.bind {x : Reader α} {f : α → Reader β}
    {outcome : Except ParseError (α × List Token)}
    {g : α × List Token → Except ParseError (β × List Token)} (hx : Follows tokens place x outcome)
    (hf : ∀ a next, next ≤ tokens.length → Follows tokens next (f a) (g (a, tokens.drop next))) :
    Follows tokens place (x >>= f) (outcome >>= g) := by
  cases outcome with
  | error err =>
      obtain ⟨next, hnext, hrun⟩ := hx
      exact ⟨next, hnext, by rw [ExceptT.run_bind, StateT.run_bind, hrun]; rfl⟩
  | ok read =>
      obtain ⟨next, hnext, hrest, hrun⟩ := hx
      have hbehind := hf read.1 next hnext
      rw [hrest] at hbehind
      exact follows_of_run hrun hbehind

/-- The entry before which the reader stands. -/
def upcoming (length : Nat) : List Token → Entry
  | [] => ⟨none, length⟩
  | t :: _ => .ofToken t

theorem getElem?_entries (hplace : place ≤ tokens.length) :
    (Token.entries tokens length)[place]? = some (upcoming length (tokens.drop place)) := by
  rw [Token.entries]
  obtain hlt | rfl := Nat.lt_or_eq_of_le hplace
  · rw [List.getElem?_append_left (by rwa [List.length_map]), List.getElem?_map,
      List.getElem?_eq_getElem hlt, List.drop_eq_getElem_cons hlt]
    rfl
  · rw [List.getElem?_append_right (by rw [List.length_map]), List.length_map, Nat.sub_self,
      List.drop_length]
    rfl

theorem run_peek (length : Nat) (hplace : place ≤ tokens.length) :
    (peek (Token.entries tokens length)).run.run place =
      (.ok (upcoming length (tokens.drop place)), place) := by
  change (match (Token.entries tokens length)[place]? with
    | some entry => pure entry
    | none => throw (.outside place) : Reader Entry).run.run place = _
  rw [getElem?_entries hplace]
  rfl

theorem Follows.peek {f : Entry → Reader α} {outcome : Except ParseError (α × List Token)}
    (hplace : place ≤ tokens.length)
    (h : Follows tokens place (f (upcoming length (tokens.drop place))) outcome) :
    Follows tokens place (peek (Token.entries tokens length) >>= f) outcome :=
  follows_of_run (run_peek length hplace) h

theorem run_take_token (length : Nat) (hplace : place < tokens.length) :
    (take (Token.entries tokens length)).run.run place =
      (.ok (.ofToken tokens[place]), place + 1) := by
  rw [take, run_bind (run_peek length (Nat.le_of_lt hplace)), List.drop_eq_getElem_cons hplace]
  rfl

theorem run_take_end (tokens : List Token) (length : Nat) :
    (take (Token.entries tokens length)).run.run tokens.length =
      (.ok ⟨none, length⟩, tokens.length) := by
  rw [take, run_bind (run_peek length (Nat.le_refl _)), List.drop_length]
  rfl

/-- The cursor moves on over a token, and stays at the mark of the end. -/
theorem Follows.take {f : Entry → Reader α} {g : List Token → Except ParseError (α × List Token)}
    (hplace : place ≤ tokens.length)
    (hend : Follows tokens tokens.length (f ⟨none, length⟩) (g []))
    (htoken : ∀ t next, next ≤ tokens.length →
      Follows tokens next (f (.ofToken t)) (g (t :: tokens.drop next))) :
    Follows tokens place (take (Token.entries tokens length) >>= f) (g (tokens.drop place)) := by
  obtain hlt | rfl := Nat.lt_or_eq_of_le hplace
  · rw [List.drop_eq_getElem_cons hlt]
    exact follows_of_run (run_take_token length hlt) (htoken tokens[place] (place + 1) hlt)
  · rw [List.drop_length]
    exact follows_of_run (run_take_end tokens length) hend

/-! ### The functions of the reader -/

theorem follows_operation (hplace : place ≤ tokens.length) :
    Follows tokens place (operation (Token.entries tokens length))
      (takeOperation length (tokens.drop place)) := by
  refine Follows.take hplace (follows_throw (Nat.le_refl _) _) fun t next hnext => ?_
  obtain ⟨lexeme, position⟩ := t
  cases lexeme with
  | operator o => exact follows_pure hnext (o, position)
  | _ => exact follows_throw hnext _

theorem follows_closing (hplace : place ≤ tokens.length) :
    Follows tokens place (closing (Token.entries tokens length))
      ((takeClosing length (tokens.drop place)).map fun rest => ((), rest)) := by
  refine Follows.take (g := fun left => (takeClosing length left).map fun rest => ((), rest))
    hplace (follows_throw (Nat.le_refl _) _) fun t next hnext => ?_
  obtain ⟨lexeme, position⟩ := t
  cases lexeme with
  | closing => exact follows_pure hnext ()
  | _ => exact follows_throw hnext _

theorem follows_finish (hplace : place ≤ tokens.length) (o : Operator) (position : Nat)
    (found : List Expr) :
    Follows tokens place (finish (Token.entries tokens length) o position found)
      (Bracketed.finish length o position found (tokens.drop place)) := by
  unfold finish Bracketed.finish
  cases Expr.ofArgs? o found.reverse with
  | none => exact follows_throw hplace _
  | some e =>
      have hread : (takeClosing length (tokens.drop place)).map (fun rest => (e, rest)) =
          ((takeClosing length (tokens.drop place)).map fun rest => ((), rest)) >>=
            fun read => .ok (e, read.2) := by
        cases takeClosing length (tokens.drop place) <;> rfl
      change Follows tokens place (closing (Token.entries tokens length) >>= fun _ => pure e)
        ((takeClosing length (tokens.drop place)).map fun rest => (e, rest))
      rw [hread]
      exact (follows_closing hplace).bind fun _ next hnext => follows_pure hnext e

theorem follows_close (hplace : place ≤ tokens.length) (group : Group) :
    Follows tokens place (close (Token.entries tokens length) group)
      (Bracketed.close length group (tokens.drop place)) := by
  obtain ⟨operation, found⟩ := group
  cases operation with
  | some known =>
      rw [close_some]
      exact follows_finish hplace ..
  | none =>
      rw [close_none]
      exact (follows_operation hplace).bind fun taken next hnext => follows_finish hnext ..

/-- What an iteration comes to, apart from the tokens that are left. -/
def turn : Progress → Turn × List Token
  | .reading groups rest => (.next groups, rest)
  | .done e rest => (.finished e [], rest)

theorem turn_deliver (e : Expr) (rest : List Token) (groups : List Group) :
    turn (deliver e rest groups) = (handOn e groups, rest) := by
  cases groups <;> rfl

theorem follows_handOn (hplace : place ≤ tokens.length) (e : Expr) (groups : List Group) :
    Follows tokens place (pure (handOn e groups) : Reader Turn)
      (.ok (turn (deliver e (tokens.drop place) groups))) := by
  rw [turn_deliver]
  exact follows_pure hplace _

theorem follows_shift (hplace : place ≤ tokens.length) (groups : List Group) :
    Follows tokens place (shift placement (Token.entries tokens length) groups)
      ((Bracketed.shift placement length groups (tokens.drop place)).map turn) := by
  refine Follows.take (g := fun left => (Bracketed.shift placement length groups left).map turn)
    hplace (follows_throw (Nat.le_refl _) _) fun t next hnext => ?_
  obtain ⟨lexeme, position⟩ := t
  cases lexeme with
  | opening =>
      cases placement with
      | first =>
          have hread : (Bracketed.shift .first length groups
              (⟨.opening, position⟩ :: tokens.drop next)).map turn =
                takeOperation length (tokens.drop next) >>= fun taken =>
                  .ok (.next (⟨some taken.1, []⟩ :: groups), taken.2) := by
            rw [Bracketed.shift]
            cases takeOperation length (tokens.drop next) <;> rfl
          rw [hread]
          exact (follows_operation hnext).bind fun taken last hlast => follows_pure hlast _
      | last => exact follows_pure hnext (Turn.next (⟨none, []⟩ :: groups))
  | digits text =>
      change Follows tokens next
        (match Literal.read text with
          | .error fault => throw (.fault ⟨fault, some position⟩)
          | .ok n => pure (handOn (.integer n) groups))
        (Except.map turn (match Literal.read text with
          | .error fault => .error ⟨fault, some position⟩
          | .ok n => .ok (deliver (.integer n) (tokens.drop next) groups)))
      cases Literal.read text with
      | error fault => exact follows_throw hnext _
      | ok n => exact follows_handOn hnext _ groups
  | «variable» v => exact follows_handOn hnext _ groups
  | _ => exact follows_throw hnext _

theorem ends_upcoming (left : List Token) :
    ends placement (upcoming length left) = endsArguments placement left := by
  cases left with
  | nil => rfl
  | cons t rest =>
      obtain ⟨lexeme, position⟩ := t
      cases lexeme <;> rfl

theorem follows_iteration (placement : Placement) (length : Nat) (hplace : place ≤ tokens.length)
    (groups : List Group) :
    Follows tokens place (iteration placement (Token.entries tokens length) groups)
      ((step placement length groups (tokens.drop place)).map turn) := by
  cases groups with
  | nil => exact follows_shift hplace []
  | cons group outer =>
      -- The entry is only looked at here; whoever goes on from it takes it.
      refine Follows.peek hplace ?_
      rw [ends_upcoming]
      cases hends : endsArguments placement (tokens.drop place) with
      | false =>
          rw [step_of_not_endsArguments hends]
          exact follows_shift hplace (group :: outer)
      | true =>
          have hread : (step placement length (group :: outer) (tokens.drop place)).map turn =
              Bracketed.close length group (tokens.drop place) >>= fun closed =>
                .ok (turn (deliver closed.1 closed.2 outer)) := by
            rw [step_of_endsArguments hends]
            cases Bracketed.close length group (tokens.drop place) <;> rfl
          rw [hread]
          exact (follows_close hplace group).bind fun e next hnext => follows_handOn hnext e outer

/-! ### The loop -/

/-- What holds after so many iterations. The cursor has moved on by one place at least for each of
them, and has not passed the mark of the end, which stands at the place `tokens.length`. The rest
of the loop gives what the reader of the tokens gives, and an expression is returned only when no
bracket is open. -/
def Status.Sound (placement : Placement) (length : Nat) (tokens : List Token) (iterations : Nat) :
    Status → Prop
  | .reading groups place => iterations ≤ place ∧ place ≤ tokens.length ∧
      run placement length [] tokens = run placement length groups (tokens.drop place)
  | .returned e groups place => groups = [] ∧ place ≤ tokens.length ∧
      run placement length [] tokens = .ok (e, tokens.drop place)
  | .stopped (.fault err) place => place ≤ tokens.length ∧
      run placement length [] tokens = .error err
  | .stopped (.outside _) _ => False

theorem sound_advance {iterations : Nat} {status : Status}
    (h : status.Sound placement length tokens iterations) :
    (advance placement (Token.entries tokens length) status).Sound placement length tokens
      (iterations + 1) := by
  match status with
  | .returned e groups place => exact h
  | .stopped (.fault err) place => exact h
  | .reading groups place =>
      obtain ⟨hiterations, hplace, hrun⟩ := h
      have hfollows := follows_iteration placement length hplace groups
      rw [run_eq_step_bind_resume groups] at hrun
      cases hstep : step placement length groups (tokens.drop place) with
      | error err =>
          rw [hstep] at hfollows hrun
          obtain ⟨next, hnext, hiteration⟩ := hfollows
          rw [advance, hiteration]
          exact ⟨hnext, hrun⟩
      | ok progress =>
          rw [hstep] at hfollows hrun
          cases progress with
          | done e rest =>
              obtain ⟨next, hnext, rfl, hiteration⟩ := hfollows
              rw [advance, hiteration]
              exact ⟨rfl, hnext, hrun⟩
          | reading inner rest =>
              -- The loop goes on, so the step has taken a token and the cursor has moved.
              obtain ⟨next, hnext, rfl, hiteration⟩ := hfollows
              have hlength := length_of_step hstep
              rw [List.length_drop, List.length_drop] at hlength
              rw [advance, hiteration]
              exact ⟨by omega, hnext, hrun⟩

theorem sound_after (placement : Placement) (length : Nat) (tokens : List Token)
    (iterations : Nat) :
    (after placement (Token.entries tokens length) iterations).Sound placement length tokens
      iterations := by
  induction iterations with
  | zero => exact ⟨Nat.le_refl 0, Nat.zero_le _, rfl⟩
  | succ iterations ih =>
      rw [after, Function.iterate_succ_apply']
      exact sound_advance ih

/-- Over any list of tokens, every access is inside the list and the mark of the end is never
taken. The loop has ended after as many iterations as there are entries. -/
theorem cursor_stays_inside (placement : Placement) (length : Nat) (tokens : List Token) :
    (∀ iterations, (after placement (Token.entries tokens length) iterations).Sound placement
      length tokens iterations) ∧
    ∀ groups place, after placement (Token.entries tokens length)
      (Token.entries tokens length).length ≠ .reading groups place := by
  refine ⟨sound_after placement length tokens, fun groups place h => ?_⟩
  have hsound := sound_after placement length tokens (Token.entries tokens length).length
  rw [h] at hsound
  obtain ⟨hiterations, hplace, -⟩ := hsound
  rw [Token.entries, List.length_append, List.length_map, List.length_singleton] at hiterations
  omega

/-- With a bracket left open, the second of two entries takes the last iteration. -/
example : after .last (Token.entries [⟨.opening, 0⟩] 1) 1 = .reading [⟨none, []⟩] 1 := rfl

end Bracketed.Cursor

end Trivar
