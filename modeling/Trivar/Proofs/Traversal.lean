import Trivar.Expr.Walk
import Trivar.Proofs.Leaves
import Trivar.Proofs.Outcome

/-!
The walk calls its functions in post-order. Functions that keep a record of the
nodes at which they are called show that the order of the calls is the
post-order of the tree, every node once, up to the first call that fails
(`walk_calls_in_postorder`). Since the loop has the effects of structural
recursion, it is enough to follow the record along the recursion
(`records_recurse`).
-/

namespace Trivar

namespace Expr

open Outcome

variable {α ε : Type} (leaf : Atom → Except ε α)
  (node : (o : Operator) → Tuple Expr o.arity → List α → Except ε α)

/-- Computations that may fail and keep a record of nodes, also when they fail. -/
abbrev Recorded (ε : Type) := ExceptT ε (StateM (List Expr))

def recorded (s : Expr) (outcome : Except ε α) : Recorded ε α :=
  ExceptT.mk do
    modify (· ++ [s])
    return outcome

def recordedLeaf (a : Atom) : Recorded ε α := recorded (.atom a) (leaf a)

def recordedNode (o : Operator) (args : Tuple Expr o.arity) (values : List α) : Recorded ε α :=
  recorded (.apply o args) (node o args values)

/-- The outcome of the loop, with the nodes at which it called its functions. -/
def trace (e : Expr) : Except ε (List α) × List Expr :=
  (perform (recordedLeaf leaf) (recordedNode node) [.visit e] []).run.run []

inductive Answers : Expr → Except ε α → Prop
  | leaf (a : Atom) : Answers (.atom a) (leaf a)
  | node {o : Operator} {args : Tuple Expr o.arity} {values : List α} :
      args.toList.map (foldM leaf node) = values.map .ok →
      Answers (.apply o args) (node o args values)

/-- Calls at all the nodes in their order, each of which succeeds, or at those up to the first
one that fails, whose failure is the outcome. -/
def CallsInOrder {β : Type} (nodes : List Expr) : Except ε β → List Expr → Prop
  | .ok _, called => called = nodes ∧ ∀ s ∈ nodes, ∃ value, Answers leaf node s (.ok value)
  | .error err, called => ∃ before s after, nodes = before ++ s :: after ∧
      called = before ++ [s] ∧ (∀ t ∈ before, ∃ value, Answers leaf node t (.ok value)) ∧
      Answers leaf node s (.error err)

def Records {β : Type} (nodes : List Expr) (x : Recorded ε β) (outcome : Except ε β) : Prop :=
  ∀ record, ∃ called, x.run.run record = (outcome, record ++ called) ∧
    CallsInOrder leaf node nodes outcome called

variable {leaf node}

theorem CallsInOrder.append {β γ : Type} {nodes more called behind : List Expr} {b : β}
    {outcome : Except ε γ} (h : CallsInOrder leaf node nodes (.ok b) called)
    (hmore : CallsInOrder leaf node more outcome behind) :
    CallsInOrder leaf node (nodes ++ more) outcome (called ++ behind) := by
  obtain ⟨rfl, hnodes⟩ := h
  cases outcome with
  | ok c =>
      obtain ⟨rfl, hlast⟩ := hmore
      exact ⟨rfl, List.forall_mem_append.2 ⟨hnodes, hlast⟩⟩
  | error err =>
      obtain ⟨before, s, after, rfl, rfl, hbefore, hs⟩ := hmore
      exact ⟨called ++ before, s, after, by simp, by simp,
        List.forall_mem_append.2 ⟨hnodes, hbefore⟩, hs⟩

theorem CallsInOrder.failed {β γ : Type} {nodes called : List Expr} {err : ε}
    (h : CallsInOrder leaf node nodes (.error err : Except ε β) called) (more : List Expr) :
    CallsInOrder leaf node (nodes ++ more) (.error err : Except ε γ) called := by
  obtain ⟨before, s, after, rfl, rfl, hbefore, hs⟩ := h
  exact ⟨before, s, after ++ more, by simp, rfl, hbefore, hs⟩

theorem records_recorded {s : Expr} {outcome : Except ε α} (h : Answers leaf node s outcome) :
    Records leaf node [s] (recorded s outcome) outcome := by
  refine fun record => ⟨[s], rfl, ?_⟩
  cases outcome with
  | ok value => exact ⟨rfl, List.forall_mem_singleton.2 ⟨value, h⟩⟩
  | error err => exact ⟨[], s, [], rfl, rfl, List.forall_mem_nil _, h⟩

theorem records_pure {β : Type} (b : β) :
    Records leaf node [] (pure b) (.ok b) :=
  fun record => ⟨[], by rw [List.append_nil]; rfl, rfl, List.forall_mem_nil _⟩

theorem Records.bind {β γ : Type} {nodes more : List Expr} {x : Recorded ε β}
    {f : β → Recorded ε γ} {outcome : Except ε β} {g : β → Except ε γ}
    (hx : Records leaf node nodes x outcome)
    (hf : ∀ b, outcome = .ok b → Records leaf node more (f b) (g b)) :
    Records leaf node (nodes ++ more) (x >>= f) (outcome >>= g) := by
  intro record
  obtain ⟨called, hrun, hcalls⟩ := hx record
  cases outcome with
  | error err =>
      refine ⟨called, ?_, hcalls.failed more⟩
      rw [ExceptT.run_bind, StateT.run_bind, hrun]
      rfl
  | ok b =>
      obtain ⟨behind, hbehind, hmore⟩ := hf b rfl (record ++ called)
      refine ⟨called ++ behind, ?_, hcalls.append hmore⟩
      rw [ExceptT.run_bind, StateT.run_bind, hrun, ← List.append_assoc]
      exact hbehind

theorem records_sequence {n : Nat} {args : Tuple Expr n}
    (h : ∀ e ∈ args.toList, Records leaf node e.subtrees
      (recurse (recordedLeaf leaf) (recordedNode node) e) (recurse leaf node e)) :
    Records leaf node (args.toList.flatMap subtrees)
      (args.map (recurse (recordedLeaf leaf) (recordedNode node))).sequence
      (args.map (recurse leaf node)).sequence := by
  induction args with
  | nil => exact records_pure Tuple.nil
  | cons e es ih =>
      obtain ⟨he, hes⟩ := List.forall_mem_cons.1 h
      rw [Tuple.toList, List.flatMap_cons]
      refine he.bind fun value _ => ?_
      rw [← List.append_nil (es.toList.flatMap subtrees)]
      exact (ih hes).bind fun values _ => records_pure (Tuple.cons value values)

variable (leaf node) in
theorem records_recurse (e : Expr) :
    Records leaf node e.subtrees (recurse (recordedLeaf leaf) (recordedNode node) e)
      (recurse leaf node e) := by
  induction e using induct with
  | atom a => exact records_recorded (.leaf a)
  | apply o args ih =>
      rw [subtrees_apply, recurse_apply, recurse_apply]
      refine (records_sequence ih).bind fun values hvalues => records_recorded (.node ?_)
      have hmapM : (args.map (recurse leaf node)).toList.mapM id = .ok values.toList := by
        rw [Tuple.mapM_id_toList, hvalues]
        rfl
      change args.toList.map (recurse leaf node) = _
      rw [← Tuple.toList_map, ← mapM_eq_ok.1 hmapM, List.map_id]

/-- The walk is structural recursion and leaves nothing but the value on the stack. It calls its
functions once for each node, in post-order, until a call fails, and that failure is its
outcome. -/
theorem walk_calls_in_postorder (leaf : Atom → Except ε α)
    (node : (o : Operator) → Tuple Expr o.arity → List α → Except ε α) (e : Expr) :
    walk leaf node e = foldM leaf node e ∧
    run leaf node [.visit e] [] = (walk leaf node e).map (fun value => [value]) ∧
    ∃ called, trace leaf node e = (run leaf node [.visit e] [], called) ∧
      CallsInOrder leaf node e.subtrees (walk leaf node e) called := by
  have hvalue : walk leaf node e = recurse leaf node e := walk_eq_foldM leaf node e
  have hrun : run leaf node [.visit e] [] = (walk leaf node e).map (fun value => [value]) := by
    rw [run_visit, walk_eq_foldM]
  obtain ⟨called, htrace, hcalls⟩ := records_recurse leaf node e []
  refine ⟨walk_eq_foldM leaf node e, hrun, called, ?_, hvalue ▸ hcalls⟩
  rw [trace, perform_visit_alone, ExceptT.run_map, StateT.run_map, htrace, hrun, hvalue]
  rfl

end Expr

end Trivar
