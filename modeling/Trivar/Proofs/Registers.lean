import Trivar.Proofs.Memoisation
import Trivar.Proofs.Outcome
import Trivar.Session

/-!
What a session keeps. Its graph arises from the empty one by adding nodes and
asking for expansions and derivatives, and its registers hold nodes of this
graph (`Sound`). A step that fails changes nothing. Every other step extends the
graph and leaves the registers that were there before, so these stand for the
same trees to the end of the session (`Continues`).

The nodes may be shared, and their tables may hold something or not: none of
this can be seen. A session answers as one that has nothing but a tree in each
register (`replies_eq`).
-/

namespace Trivar

/-! ### Nodes for trees -/

namespace Graph

variable {g : Graph} {i : Nat}

/-- A reachable graph that extends the present one, with a node that stands for `e`. -/
structure Grows (g : Graph) (result : Graph × Nat) (e : Expr) : Prop where
  reachable : Reachable result.1
  adds : Adds g result e

theorem grows_existing (hg : Reachable g) (hi : i < g.nodes.size) : Grows g (g, i) (g.expr i) :=
  ⟨hg, .refl g, hg.consistent, hi, rfl⟩

theorem grows_apply (hg : Reachable g) {o : Operator} {args : Tuple Nat o.arity}
    (hargs : ∀ j ∈ args.toList, j < g.nodes.size) :
    Grows g (g.insert (.apply o args)) (.apply o (args.map g.expr)) :=
  ⟨hg.insert hargs, (builds_apply hg.consistent hargs).toAdds⟩

theorem grows_buildEach {n : Nat} {args : Tuple Expr n}
    (h : ∀ e ∈ args.toList, ∀ g : Graph, Reachable g → Grows g (g.ofExpr e) e) (hg : Reachable g) :
    let result := Builder.buildEach (args.map Builder.ofExpr) g
    Reachable result.1 ∧ Extends g result.1 ∧ (∀ j ∈ result.2.toList, j < result.1.nodes.size) ∧
      result.2.map result.1.expr = args := by
  induction args generalizing g with
  | nil => exact ⟨hg, .refl g, List.forall_mem_nil _, rfl⟩
  | cons e es ih =>
      obtain ⟨he, hes⟩ := List.forall_mem_cons.1 h
      have hfirst := he g hg
      obtain ⟨hreachable, hext, hlt, hexprs⟩ := ih hes hfirst.reachable
      refine ⟨hreachable, hfirst.adds.extend.trans hext,
        List.forall_mem_cons.2 ⟨hext.lt hfirst.adds.lt, hlt⟩, ?_⟩
      -- The nodes of the other arguments come later and leave that of the first one as it is.
      have hexpr := (hext.expr hfirst.adds.lt).trans hfirst.adds.expr
      exact (congrArg (Tuple.cons · _) hexpr).trans (congrArg (Tuple.cons e) hexprs)

theorem grows_ofExpr (e : Expr) (g : Graph) (hg : Reachable g) : Grows g (g.ofExpr e) e := by
  induction e using Expr.induct generalizing g with
  | atom a => exact ⟨hg.insert trivial, (builds_atom hg.consistent a).toAdds⟩
  | apply o args ih =>
      obtain ⟨hreachable, hext, hlt, hexprs⟩ := grows_buildEach ih hg
      have hlast := grows_apply hreachable hlt
      rw [hexprs] at hlast
      rw [ofExpr, Builder.ofExpr, Expr.fold_apply]
      exact ⟨hlast.reachable, hlast.adds.of_extends hext⟩

theorem grows_expand (hg : Reachable g) (hi : i < g.nodes.size) :
    Grows g (g.expand i) (g.expr i).expansion :=
  ⟨hg.expand i, adds_expand hg.consistent hi⟩

theorem grows_differentiate (hg : Reachable g) (hi : i < g.nodes.size) (name : String) :
    ∃ result, g.differentiate name i = some result ∧
      Grows g result ((g.expr i).derivative name) := by
  obtain ⟨result, hresult, hadds⟩ := adds_differentiate hg.consistent hi name
  exact ⟨result, hresult, hg.differentiate hresult, hadds⟩

end Graph

def Expr.arguments : Expr → List Expr
  | .atom _ => []
  | .apply _ args => args.toList

namespace Graph

theorem lt_of_mem_arguments {g : Graph} (hg : Consistent g) {i j : Nat} (hj : j ∈ g.arguments i) :
    j < g.nodes.size := by
  rw [arguments] at hj
  split at hj
  · next o args hs => exact Nat.lt_trans (hg.below hs j hj) (lt_of_shape? hs)
  · cases hj

theorem map_expr_arguments {g : Graph} (hg : Consistent g) {i : Nat} (hi : i < g.nodes.size) :
    (g.arguments i).map g.expr = (g.expr i).arguments := by
  obtain ⟨s, hs⟩ := exists_shape? hi
  rw [arguments, hs]
  cases s with
  | atom a =>
      rw [expr_of_atom hs]
      rfl
  | apply o args =>
      rw [expr_of_apply hs (hg.below hs), Expr.arguments, Tuple.toList_map]

end Graph

theorem checkOperation_map {α β : Type} (f : α → β) (symbol : String) (args : List α) :
    checkOperation symbol (args.map f) =
      (checkOperation symbol args).map fun ⟨o, tuple⟩ => ⟨o, tuple.map f⟩ := by
  unfold checkOperation
  cases Operator.ofSymbol? symbol with
  | none => rfl
  | some o =>
      simp only [Tuple.ofList?_map, List.length_map]
      cases Tuple.ofList? o.arity args <;> rfl

theorem toList_of_checkOperation {α : Type} {symbol : String} {as : List α} {o : Operator}
    {args : Tuple α o.arity} (h : checkOperation symbol as = .ok ⟨o, args⟩) : args.toList = as := by
  unfold checkOperation at h
  split at h
  · cases h
  · split at h
    · cases h
    · next htuple =>
        cases h
        exact Tuple.ofList?_eq_some_iff.1 htuple

namespace Session

open Outcome

/-! ### Sessions of trees -/

namespace Trees

def tree (es : List Expr) (register : Nat) : Except StepError Expr :=
  match es[register]? with
  | none => .error .missing
  | some e => .ok e

def push (es : List Expr) (e : Expr) : List Expr × Reply := (es ++ [e], .register es.length e)

/-- A step when every register has a tree of its own, which is made anew. -/
def step? (es : List Expr) : Step → Except StepError (List Expr × Reply)
  | .source source => do
    return push es (← source.load.mapError .parse)
  | .make symbol registers => do
    let ⟨o, args⟩ ← (checkOperation symbol (← registers.mapM (tree es))).mapError .parse
    return push es (.apply o args)
  | .differentiate register name => do
    return push es ((← tree es register).derivative name)
  | .expand register => do
    return push es (← tree es register).expansion
  | .argument register index => do
    match (← tree es register).arguments[index]? with
    | none => .error .missing
    | some e => return push es e
  | .reparse register form => do
    return push es (← (form.parse ((← tree es register).text form)).mapError .parse)
  | .evaluate register point => do
    return (es, .number (← ((← tree es register).evaluate point).mapError .evaluation))
  | .display register => do
    return (es, .tree (← tree es register))
  | .compare left right => do
    return (es, .equal ((← tree es left).sameAs (← tree es right)))

def replies (es : List Expr) : List Step → List (Except StepError Reply)
  | [] => []
  | next :: steps =>
    match step? es next with
    | .error e => .error e :: replies es steps
    | .ok (es', reply) => .ok reply :: replies es' steps

end Trees

/-! ### One step -/

structure Sound (s : Session) : Prop where
  reachable : s.graph.Reachable
  lt : ∀ i ∈ s.registers.toList, i < s.graph.nodes.size

/-- The trees in the registers. -/
def trees (s : Session) : List Expr := s.registers.toList.map s.graph.expr

/-- A later state of a session: more nodes and more registers. -/
structure Continues (s s' : Session) : Prop where
  sound : Sound s'
  extend : s.graph.Extends s'.graph
  registers : s.registers.toList <+: s'.registers.toList

variable {s s' s'' : Session} {α : Type}

theorem Continues.refl (hs : Sound s) : Continues s s := ⟨hs, .refl _, List.prefix_refl _⟩

theorem Continues.trans (h : Continues s s') (h' : Continues s' s'') : Continues s s'' :=
  ⟨h'.sound, h.extend.trans h'.extend, h.registers.trans h'.registers⟩

theorem Continues.trees (hs : Sound s) (h : Continues s s') : s.trees <+: s'.trees := by
  obtain ⟨more, hmore⟩ := h.registers
  refine ⟨more.map s'.graph.expr, ?_⟩
  have hkept : s.trees = s.registers.toList.map s'.graph.expr :=
    List.map_congr_left fun i hi => (h.extend.expr (hs.lt i hi)).symm
  rw [hkept, Session.trees, ← hmore, List.map_append]

/-- A step has the outcome that it has on trees, and the session continues. -/
inductive Matches (s : Session) :
    Except StepError (Session × Reply) → Except StepError (List Expr × Reply) → Prop
  | error (e : StepError) : Matches s (.error e) (.error e)
  | ok {s' : Session} (reply : Reply) : Continues s s' →
      Matches s (.ok (s', reply)) (.ok (s'.trees, reply))

theorem Matches.bind {x : Except StepError α} {f : α → Except StepError (Session × Reply)}
    {f' : α → Except StepError (List Expr × Reply)} (h : ∀ a, Matches s (f a) (f' a)) :
    Matches s (x >>= f) (x >>= f') := by
  cases x with
  | error e => exact .error e
  | ok a => exact h a

theorem expr_eq (s : Session) (register : Nat) : s.expr register = Trees.tree s.trees register := by
  rw [expr, node, Trees.tree, trees, List.getElem?_map, Array.getElem?_toList]
  cases s.registers[register]? <;> rfl

theorem lt_of_node (hs : Sound s) {register i : Nat} (h : s.node register = .ok i) :
    i < s.graph.nodes.size := by
  rw [node] at h
  split at h
  · cases h
  · next j hj =>
      cases h
      rw [← Array.getElem?_toList] at hj
      exact hs.lt i (List.mem_of_getElem? hj)

/-- Where a node is looked up, there is a tree. -/
theorem Matches.node (hs : Sound s) {register : Nat}
    {f : Nat → Except StepError (Session × Reply)}
    {f' : Expr → Except StepError (List Expr × Reply)}
    (h : ∀ i < s.graph.nodes.size, Matches s (f i) (f' (s.graph.expr i))) :
    Matches s (s.node register >>= f) (Trees.tree s.trees register >>= f') := by
  rw [← expr_eq, expr]
  cases hnode : s.node register with
  | error e => exact .error e
  | ok i => exact h i (lt_of_node hs hnode)

theorem Matches.push (hs : Sound s) {result : Graph × Nat} {e : Expr}
    (h : s.graph.Grows result e) :
    Matches s (.ok (s.push result)) (.ok (Trees.push s.trees e)) := by
  obtain ⟨graph, i⟩ := result
  obtain ⟨hreachable, hext, -, hi, rfl⟩ := h
  have hcontinues : Continues s ⟨graph, s.registers.push i⟩ := by
    refine ⟨⟨hreachable, ?_⟩, hext, ?_⟩
    · rw [Array.toList_push, List.forall_mem_append, List.forall_mem_singleton]
      exact ⟨fun j hj => hext.lt (hs.lt j hj), hi⟩
    · rw [Array.toList_push]
      exact List.prefix_append ..
  have htrees : Session.trees ⟨graph, s.registers.push i⟩ = s.trees ++ [graph.expr i] := by
    rw [trees, trees, Array.toList_push, List.map_append]
    exact congrArg (· ++ _) (List.map_congr_left fun j hj => hext.expr (hs.lt j hj))
  have hsize : s.trees.length = s.registers.size := by simp [trees]
  rw [Session.push, Trees.push, ← htrees, hsize]
  exact .ok _ hcontinues

theorem mapM_tree (s : Session) (registers : List Nat) :
    registers.mapM (Trees.tree s.trees) = (registers.mapM s.node).map (List.map s.graph.expr) := by
  have htree : Trees.tree s.trees = fun register => (s.node register).map s.graph.expr :=
    funext fun register => (expr_eq s register).symm
  rw [htree, mapM_map_right]

theorem lt_of_mapM_node (hs : Sound s) {registers nodes : List Nat}
    (h : registers.mapM s.node = .ok nodes) : ∀ i ∈ nodes, i < s.graph.nodes.size := by
  intro i hi
  have hmem : Except.ok i ∈ registers.map s.node := mapM_eq_ok.1 h ▸ List.mem_map_of_mem hi
  obtain ⟨register, -, hnode⟩ := List.mem_map.1 hmem
  exact lt_of_node hs hnode

theorem matches_make (hs : Sound s) (symbol : String) (registers : List Nat) :
    Matches s (s.step? (.make symbol registers))
      (Trees.step? s.trees (.make symbol registers)) := by
  rw [step?, Trees.step?, mapM_tree]
  cases hnodes : registers.mapM s.node with
  | error e => exact .error e
  | ok nodes =>
      rw [ok_map, ok_bind, ok_bind, checkOperation_map]
      cases hfound : checkOperation symbol nodes with
      | error err => exact .error _
      | ok found =>
          obtain ⟨o, args⟩ := found
          refine .push hs (Graph.grows_apply hs.reachable ?_)
          rw [toList_of_checkOperation hfound]
          exact lt_of_mapM_node hs hnodes

/-- Whatever the step, it does to the session what it does to the trees. -/
theorem matches_step? (hs : Sound s) (next : Step) :
    Matches s (s.step? next) (Trees.step? s.trees next) := by
  cases next with
  | source source => exact .bind fun e => .push hs (Graph.grows_ofExpr e _ hs.reachable)
  | make symbol registers => exact matches_make hs symbol registers
  | differentiate register name =>
      refine .node hs fun i hi => ?_
      obtain ⟨result, hresult, hgrows⟩ := Graph.grows_differentiate hs.reachable hi name
      simp only [hresult]
      exact .push hs hgrows
  | expand register => exact .node hs fun i hi => .push hs (Graph.grows_expand hs.reachable hi)
  | argument register index =>
      refine .node hs fun i hi => ?_
      rw [← Graph.map_expr_arguments hs.reachable.consistent hi, List.getElem?_map]
      cases harg : (s.graph.arguments i)[index]? with
      | none => exact .error _
      | some j =>
          have hj := Graph.lt_of_mem_arguments hs.reachable.consistent (List.mem_of_getElem? harg)
          exact .push hs (Graph.grows_existing hs.reachable hj)
  | reparse register form =>
      rw [step?, Trees.step?, expr_eq]
      exact .bind fun e => .bind fun e' => .push hs (Graph.grows_ofExpr e' _ hs.reachable)
  | evaluate register point =>
      rw [step?, Trees.step?, expr_eq]
      exact .bind fun e => .bind fun n => .ok _ (.refl hs)
  | display register =>
      rw [step?, Trees.step?, expr_eq]
      exact .bind fun e => .ok _ (.refl hs)
  | compare left right =>
      rw [step?, Trees.step?, expr_eq, expr_eq]
      exact .bind fun e => .bind fun e' => .ok _ (.refl hs)

theorem step_cases (hs : Sound s) (next : Step) :
    (∃ e, s.step next = (s, .error e) ∧ Trees.step? s.trees next = .error e) ∨
      ∃ s' reply, s.step next = (s', .ok reply) ∧
        Trees.step? s.trees next = .ok (s'.trees, reply) ∧ Continues s s' := by
  have hmatches := matches_step? hs next
  rw [step]
  generalize s.step? next = x at hmatches ⊢
  generalize Trees.step? s.trees next = y at hmatches ⊢
  cases hmatches with
  | error e => exact .inl ⟨e, rfl, rfl⟩
  | ok reply hcontinues => exact .inr ⟨_, reply, rfl, rfl, hcontinues⟩

/-- A step keeps the registers and their trees, and one that fails keeps everything. -/
theorem step_continues (hs : Sound s) (next : Step) :
    Continues s (s.step next).1 ∧ ∀ e, (s.step next).2 = .error e → (s.step next).1 = s := by
  obtain ⟨e, hstep, -⟩ | ⟨s', reply, hstep, -, hcontinues⟩ := step_cases hs next
  · rw [hstep]
    exact ⟨.refl hs, fun _ _ => rfl⟩
  · rw [hstep]
    exact ⟨hcontinues, nofun⟩

/-! ### Runs -/

/-- The session after these steps. -/
def after (s : Session) (steps : List Step) : Session :=
  steps.foldl (fun s next => (s.step next).1) s

theorem after_continues (hs : Sound s) (steps : List Step) : Continues s (s.after steps) := by
  induction steps generalizing s with
  | nil => exact .refl hs
  | cons next steps ih =>
      have hstep := (step_continues hs next).1
      exact hstep.trans (ih hstep.sound)

theorem sound_empty : Sound empty := ⟨.empty, nofun⟩

/-- In a session the registers always hold nodes of a graph that arises step by step, and each has
the same tree to the end. -/
theorem registers_kept (before behind : List Step) :
    Sound (empty.after before) ∧
      (empty.after before).trees <+: (empty.after (before ++ behind)).trees := by
  have hbefore := (after_continues sound_empty before).sound
  refine ⟨hbefore, ?_⟩
  have hbehind := (after_continues hbefore behind).trees hbefore
  rwa [after, after, ← List.foldl_append] at hbehind

theorem replies_of_sound (hs : Sound s) (steps : List Step) :
    s.replies steps = Trees.replies s.trees steps := by
  induction steps generalizing s with
  | nil => rfl
  | cons next steps ih =>
      rw [replies, Trees.replies]
      obtain ⟨e, hstep, htrees⟩ | ⟨s', reply, hstep, htrees, hcontinues⟩ := step_cases hs next
      · rw [hstep, htrees]
        exact congrArg (_ :: ·) (ih hs)
      · rw [hstep, htrees]
        exact congrArg (_ :: ·) (ih hcontinues.sound)

/-- A session answers as if each register had a tree of its own. -/
theorem replies_eq (steps : List Step) : empty.replies steps = Trees.replies [] steps :=
  replies_of_sound sound_empty steps

end Session

end Trivar
