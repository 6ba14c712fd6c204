import Trivar.Expr.Walk
import Trivar.Graph
import Trivar.Source

/-!
Sessions. A session keeps expressions in numbered registers, as nodes of one
graph. A step that makes an expression appends a register; a step that fails
leaves the session as it was.
-/

namespace Trivar

inductive Session.Step
  | source (source : Source)
  | make (symbol : String) (registers : List Nat)
  | differentiate (register : Nat) (name : String)
  | expand (register : Nat)
  | argument (register index : Nat)
  | reparse (register : Nat) (form : Form)
  | evaluate (register : Nat) (point : Point)
  | display (register : Nat)
  | compare (left right : Nat)

/-- What a step answers: a new register and its expression, or what was asked about registers. -/
inductive Session.Reply
  | register (index : Nat) (e : Expr)
  | number (n : Number)
  | tree (e : Expr)
  | equal (same : Bool)

/-- The ways in which a step fails; the last one stands for a register or an argument that does
not exist. -/
inductive Session.StepError
  | parse (e : ParseError)
  | evaluation (e : EvalError)
  | missing

structure Session where
  graph : Graph
  registers : Array Nat

namespace Session

def empty : Session := ⟨.empty, #[]⟩

/-- The node in a register. -/
def node (s : Session) (register : Nat) : Except StepError Nat :=
  match s.registers[register]? with
  | none => .error .missing
  | some i => .ok i

def expr (s : Session) (register : Nat) : Except StepError Expr :=
  (s.node register).map s.graph.expr

/-- Appends a register for a node of a graph that extends the present one. -/
def push (s : Session) : Graph × Nat → Session × Reply
  | (graph, i) =>
    (⟨graph, s.registers.push i⟩, .register s.registers.size (graph.expr i))

/-- Carries out a step, which changes the session only when it succeeds. -/
def step? (s : Session) : Step → Except StepError (Session × Reply)
  | .source source => do
    let e ← source.load.mapError .parse
    return s.push (s.graph.ofExpr e)
  | .make symbol registers => do
    let nodes ← registers.mapM s.node
    let ⟨o, args⟩ ← (checkOperation symbol nodes).mapError .parse
    return s.push (s.graph.insert (.apply o args))
  | .differentiate register name => do
    match s.graph.differentiate name (← s.node register) with
    | none => .error .missing
    | some result => return s.push result
  | .expand register => do
    return s.push (s.graph.expand (← s.node register))
  | .argument register index => do
    match (s.graph.arguments (← s.node register))[index]? with
    | none => .error .missing
    | some i => return s.push (s.graph, i)
  | .reparse register form => do
    let e ← (form.parse ((← s.expr register).text form)).mapError .parse
    return s.push (s.graph.ofExpr e)
  | .evaluate register point => do
    let n ← ((← s.expr register).evaluate point).mapError .evaluation
    return (s, .number n)
  | .display register => do
    return (s, .tree (← s.expr register))
  | .compare left right => do
    return (s, .equal ((← s.expr left).sameAs (← s.expr right)))

def step (s : Session) (next : Step) : Session × Except StepError Reply :=
  match s.step? next with
  | .error e => (s, .error e)
  | .ok (s', reply) => (s', .ok reply)

/-- The answers to steps carried out one after the other. -/
def replies (s : Session) : List Step → List (Except StepError Reply)
  | [] => []
  | next :: steps =>
    let (s', reply) := s.step next
    reply :: s'.replies steps

end Session

end Trivar
