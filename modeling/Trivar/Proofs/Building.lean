import Trivar.Graph
import Trivar.Proofs.Arithmetic

/-!
Graphs that grow. `Extends` says that a graph has all nodes of an earlier one
and that its tables hold at least as much, so the earlier nodes stand for the
same expressions (`Extends.expr`). `Consistent` says that nodes refer to earlier
ones and that whatever a table holds is right. Adding a node and filling a table
keep both.

A builder makes an expression when it adds nodes, the last of which stands for
it. Builders make sums, products and so on of what their parts make, so an
operation carried out on builders makes what the same operation on expressions
gives (`related_makes`).
-/

namespace Trivar.Graph

/-- The arguments of an operation are among the first `n` nodes. -/
def Shape.Below (n : Nat) : Shape → Prop
  | .atom _ => True
  | .apply _ args => ∀ j ∈ args.toList, j < n

instance (n : Nat) : (s : Shape) → Decidable (s.Below n)
  | .atom _ => .isTrue trivial
  | .apply _ args => inferInstanceAs (Decidable (∀ j ∈ args.toList, j < n))

def expansion? (g : Graph) (i : Nat) : Option Nat := g.nodes[i]?.bind (·.expansion)

variable {g h k : Graph} {i j d root : Nat} {name : String}

/-! ### Nodes -/

theorem lt_of_shape? {s : Shape} (hs : g.shape? i = some s) : i < g.nodes.size := by
  obtain ⟨node, hnode, -⟩ := Option.map_eq_some_iff.1 hs
  exact (Array.getElem?_eq_some_iff.1 hnode).1

theorem exists_shape? (hi : i < g.nodes.size) : ∃ s, g.shape? i = some s :=
  ⟨g.nodes[i].shape, by rw [shape?, Array.getElem?_eq_getElem hi, Option.map_some]⟩

theorem lt_of_expansion? (hroot : g.expansion? i = some root) : i < g.nodes.size := by
  obtain ⟨node, hnode, -⟩ := Option.bind_eq_some_iff.1 hroot
  exact (Array.getElem?_eq_some_iff.1 hnode).1

theorem lt_of_recorded? (hd : g.recorded? name i = some d) : i < g.nodes.size := by
  obtain ⟨node, hnode, -⟩ := Option.bind_eq_some_iff.1 hd
  exact (Array.getElem?_eq_some_iff.1 hnode).1

theorem expr_of_atom {a : Atom} (hs : g.shape? i = some (.atom a)) : g.expr i = .atom a := by
  rw [expr.eq_def, hs]

theorem expr_of_apply {o : Operator} {args : Tuple Nat o.arity}
    (hs : g.shape? i = some (.apply o args)) (hargs : ∀ j ∈ args.toList, j < i) :
    g.expr i = .apply o (args.map g.expr) := by
  rw [expr.eq_def, hs]
  exact congrArg _ (Tuple.map_congr fun j hj => if_pos (hargs j hj))

/-- What the nodes stand for is in their shapes. -/
theorem expr_eq_of_shape? (hshape : ∀ i, h.shape? i = g.shape? i) (i : Nat) :
    h.expr i = g.expr i := by
  induction i using Nat.strongRecOn with
  | ind i ih =>
      rw [expr.eq_def, expr.eq_def g, hshape]
      match g.shape? i with
      | none => rfl
      | some (.atom a) => rfl
      | some (.apply o args) =>
          refine congrArg _ (Tuple.map_congr fun j _ => ?_)
          split
          · exact ih j ‹_›
          · rfl

/-! ### Growth -/

/-- All nodes and all that their tables hold are in the later graph, too. -/
structure Extends (g h : Graph) : Prop where
  shape : ∀ {i s}, g.shape? i = some s → h.shape? i = some s
  expansion : ∀ {i root}, g.expansion? i = some root → h.expansion? i = some root
  recorded : ∀ {name i}, (g.recorded? name i).isSome → (h.recorded? name i).isSome

/-- Nodes refer to earlier ones, and the tables hold expansions and derivatives. -/
structure Consistent (g : Graph) : Prop where
  below : ∀ {i s}, g.shape? i = some s → s.Below i
  expansion : ∀ {i root}, g.expansion? i = some root →
    root < g.nodes.size ∧ g.expr root = (g.expr i).expansion
  derivative : ∀ {name i d}, g.recorded? name i = some d →
    d < g.nodes.size ∧ g.expr d = (g.expr i).derivative name

namespace Extends

theorem refl (g : Graph) : Extends g g := ⟨id, id, id⟩

theorem trans (hgh : Extends g h) (hhk : Extends h k) : Extends g k :=
  ⟨hhk.shape ∘ hgh.shape, hhk.expansion ∘ hgh.expansion, hhk.recorded ∘ hgh.recorded⟩

theorem lt (hgh : Extends g h) (hi : i < g.nodes.size) : i < h.nodes.size := by
  obtain ⟨s, hs⟩ := exists_shape? hi
  exact lt_of_shape? (hgh.shape hs)

/-- Earlier nodes stand for the same expressions. -/
theorem expr (hgh : Extends g h) (hi : i < g.nodes.size) : h.expr i = g.expr i := by
  induction i using Nat.strongRecOn with
  | ind i ih =>
      obtain ⟨s, hs⟩ := exists_shape? hi
      rw [expr.eq_def, expr.eq_def g, hs, hgh.shape hs]
      match s with
      | .atom a => rfl
      | .apply o args =>
          refine congrArg _ (Tuple.map_congr fun j _ => ?_)
          split
          · exact ih j ‹_› (by omega)
          · rfl

end Extends

/-- A graph that extends the present one, with a node that stands for `e`. -/
structure Adds (g : Graph) (result : Graph × Nat) (e : Expr) : Prop where
  extend : Extends g result.1
  consistent : Consistent result.1
  lt : result.2 < result.1.nodes.size
  expr : result.1.expr result.2 = e

theorem Adds.of_extends {result : Graph × Nat} {e : Expr} (hgh : Extends g h)
    (hadds : Adds h result e) : Adds g result e :=
  { hadds with extend := hgh.trans hadds.extend }

/-- The present graph with new nodes only, one of which stands for `e`. -/
structure Builds (g : Graph) (result : Graph × Nat) (e : Expr) : Prop extends Adds g result e where
  expansion : ∀ i, result.1.expansion? i = g.expansion? i

theorem Builds.trans {first second : Graph × Nat} {e f : Expr} (hfirst : Builds g first e)
    (hsecond : Builds first.1 second f) : Builds g second f :=
  ⟨hsecond.toAdds.of_extends hfirst.extend,
    fun i => (hsecond.expansion i).trans (hfirst.expansion i)⟩

/-! ### A new node -/

section

variable (g) (s : Shape)

theorem shape?_insert (i : Nat) :
    (g.insert s).1.shape? i = if i = g.nodes.size then some s else g.shape? i := by
  simp only [shape?, insert, Array.getElem?_push]
  split <;> rfl

theorem expansion?_insert (i : Nat) : (g.insert s).1.expansion? i = g.expansion? i := by
  simp only [expansion?, insert, Array.getElem?_push]
  split
  · subst i
    simp
  · rfl

theorem recorded?_insert (name : String) (i : Nat) :
    (g.insert s).1.recorded? name i = g.recorded? name i := by
  simp only [recorded?, insert, Array.getElem?_push]
  split
  · subst i
    simp
  · rfl

theorem extends_insert : Extends g (g.insert s).1 where
  shape {i _} hs := by
    rw [shape?_insert, if_neg (Nat.ne_of_lt (lt_of_shape? hs)), hs]
  expansion hroot := by rwa [expansion?_insert]
  recorded hd := by rwa [recorded?_insert]

end

theorem Consistent.insert (hg : Consistent g) {s : Shape} (hs : s.Below g.nodes.size) :
    Consistent (g.insert s).1 where
  below {i t} ht := by
    rw [shape?_insert] at ht
    split at ht
    · subst i
      exact Option.some.inj ht ▸ hs
    · exact hg.below ht
  expansion {i root} hroot := by
    rw [expansion?_insert] at hroot
    obtain ⟨hlt, hexpr⟩ := hg.expansion hroot
    have hext := extends_insert g s
    rw [hext.expr hlt, hext.expr (lt_of_expansion? hroot)]
    exact ⟨hext.lt hlt, hexpr⟩
  derivative {name i d} hd := by
    rw [recorded?_insert] at hd
    obtain ⟨hlt, hexpr⟩ := hg.derivative hd
    have hext := extends_insert g s
    rw [hext.expr hlt, hext.expr (lt_of_recorded? hd)]
    exact ⟨hext.lt hlt, hexpr⟩

theorem shape?_insert_self (g : Graph) (s : Shape) :
    (g.insert s).1.shape? (g.insert s).2 = some s := by
  rw [shape?_insert]
  exact if_pos rfl

theorem builds_atom (hg : Consistent g) (a : Atom) : Builds g (g.insert (.atom a)) (.atom a) where
  extend := extends_insert g _
  expansion := expansion?_insert g _
  consistent := hg.insert trivial
  lt := lt_of_shape? (shape?_insert_self g _)
  expr := expr_of_atom (shape?_insert_self g _)

theorem builds_apply (hg : Consistent g) {o : Operator} {args : Tuple Nat o.arity}
    (hargs : ∀ j ∈ args.toList, j < g.nodes.size) :
    Builds g (g.insert (.apply o args)) (.apply o (args.map g.expr)) where
  extend := extends_insert g _
  expansion := expansion?_insert g _
  consistent := hg.insert hargs
  lt := lt_of_shape? (shape?_insert_self g _)
  expr := by
    rw [expr_of_apply (shape?_insert_self g _) hargs]
    exact congrArg _ (Tuple.map_congr fun j hj => (extends_insert g _).expr (hargs j hj))

/-! ### A filled table -/

theorem getElem?_modify (f : Node → Node) :
    (g.modify i f).nodes[j]? = if i = j then g.nodes[j]?.map f else g.nodes[j]? :=
  Array.getElem?_modify

theorem shape?_modify {f : Node → Node} (hf : ∀ node, (f node).shape = node.shape) (j : Nat) :
    (g.modify i f).shape? j = g.shape? j := by
  rw [shape?, shape?, getElem?_modify]
  split
  · rw [Option.map_map]
    exact congrArg (Option.map · _) (funext hf)
  · rfl

theorem shape?_record (name : String) (i d j : Nat) :
    (g.record name i d).shape? j = g.shape? j := by
  rw [record]
  apply shape?_modify
  exact fun _ => rfl

theorem expansion?_record (name : String) (i d j : Nat) :
    (g.record name i d).expansion? j = g.expansion? j := by
  rw [expansion?, expansion?, record, getElem?_modify]
  split
  · cases g.nodes[j]? <;> rfl
  · rfl

theorem recorded?_record (hi : i < g.nodes.size) (name' : String) (d j : Nat) :
    (g.record name i d).recorded? name' j =
      if i = j ∧ name' = name then some d else g.recorded? name' j := by
  rw [recorded?, recorded?, record, getElem?_modify]
  by_cases hij : i = j
  · subst hij
    rw [if_pos rfl, Array.getElem?_eq_getElem hi]
    by_cases hname : name' = name
    · simp [hname]
    · have hbeq : (name' == name) = false := by simpa using hname
      simp [hname, List.lookup_cons, hbeq]
  · rw [if_neg hij, if_neg fun hand => hij hand.1]

theorem extends_record (hi : i < g.nodes.size) (name : String) (d : Nat) :
    Extends g (g.record name i d) where
  shape hs := by rwa [shape?_record]
  expansion hroot := by rwa [expansion?_record]
  recorded hd := by
    rw [recorded?_record hi]
    split
    · rfl
    · exact hd

theorem Consistent.record (hg : Consistent g) (hi : i < g.nodes.size) (hd : d < g.nodes.size)
    (hderivative : g.expr d = (g.expr i).derivative name) : Consistent (g.record name i d) := by
  have hexpr := expr_eq_of_shape? (shape?_record (g := g) name i d)
  have hext := extends_record hi name d
  refine ⟨fun hs => hg.below (shape?_record name i d _ ▸ hs), fun hroot => ?_, fun hfound => ?_⟩
  · rw [expansion?_record] at hroot
    obtain ⟨hlt, hroot⟩ := hg.expansion hroot
    rw [hexpr, hexpr]
    exact ⟨hext.lt hlt, hroot⟩
  · rw [hexpr, hexpr]
    rw [recorded?_record hi] at hfound
    split at hfound
    · rename_i hentry
      obtain ⟨rfl, rfl⟩ := hentry
      cases hfound
      exact ⟨hext.lt hd, hderivative⟩
    · obtain ⟨hlt, hfound⟩ := hg.derivative hfound
      exact ⟨hext.lt hlt, hfound⟩

/-- The graph with the root of an expansion noted. -/
def noteExpansion (g : Graph) (i root : Nat) : Graph :=
  g.modify i fun node => { node with expansion := some root }

theorem shape?_noteExpansion (i root j : Nat) :
    (g.noteExpansion i root).shape? j = g.shape? j := by
  rw [noteExpansion]
  apply shape?_modify
  exact fun _ => rfl

theorem recorded?_noteExpansion (i root : Nat) (name : String) (j : Nat) :
    (g.noteExpansion i root).recorded? name j = g.recorded? name j := by
  rw [recorded?, recorded?, noteExpansion, getElem?_modify]
  split
  · cases g.nodes[j]? <;> rfl
  · rfl

theorem expansion?_noteExpansion (hi : i < g.nodes.size) (root j : Nat) :
    (g.noteExpansion i root).expansion? j = if i = j then some root else g.expansion? j := by
  rw [expansion?, expansion?, noteExpansion, getElem?_modify]
  split
  · subst i
    rw [Array.getElem?_eq_getElem hi]
    rfl
  · rfl

theorem extends_noteExpansion (hi : i < g.nodes.size) (hnone : g.expansion? i = none)
    (root : Nat) : Extends g (g.noteExpansion i root) where
  shape hs := by rwa [shape?_noteExpansion]
  expansion {j _} hroot := by
    have hij : i ≠ j := by
      rintro rfl
      rw [hnone] at hroot
      cases hroot
    rwa [expansion?_noteExpansion hi, if_neg hij]
  recorded hd := by rwa [recorded?_noteExpansion]

theorem Consistent.noteExpansion (hg : Consistent g) (hi : i < g.nodes.size)
    (hnone : g.expansion? i = none) (hroot : root < g.nodes.size)
    (hexpansion : g.expr root = (g.expr i).expansion) : Consistent (g.noteExpansion i root) := by
  have hexpr := expr_eq_of_shape? (shape?_noteExpansion (g := g) i root)
  have hext := extends_noteExpansion hi hnone root
  refine ⟨fun hs => hg.below (shape?_noteExpansion i root _ ▸ hs), fun hfound => ?_,
    fun hfound => ?_⟩
  · rw [hexpr, hexpr]
    rw [expansion?_noteExpansion hi] at hfound
    split at hfound
    · subst i
      cases hfound
      exact ⟨hext.lt hroot, hexpansion⟩
    · obtain ⟨hlt, hfound⟩ := hg.expansion hfound
      exact ⟨hext.lt hlt, hfound⟩
  · rw [recorded?_noteExpansion] at hfound
    obtain ⟨hlt, hfound⟩ := hg.derivative hfound
    rw [hexpr, hexpr]
    exact ⟨hext.lt hlt, hfound⟩

/-! ### Builders -/

namespace Builder

/-- In the graph and all that extend it, the builder adds nodes for an expression. -/
def Makes (g : Graph) (b : Builder) (e : Expr) : Prop :=
  ∀ h, Extends g h → Consistent h → Builds h (b.build h) e

theorem makes_existing (hi : i < g.nodes.size) : Makes g (existing i) (g.expr i) :=
  fun h hgh hh => ⟨⟨.refl h, hh, hgh.lt hi, hgh.expr hi⟩, fun _ => rfl⟩

theorem makes_leaf (a : Atom) : Makes g (leaf a) (.atom a) := fun _ _ hh => builds_atom hh a

theorem Makes.unary {a : Builder} {e : Expr} {o : Operator} {args : Nat → Tuple Nat o.arity}
    (ha : Makes g a e) (hargs : ∀ i, (args i).toList = [i]) {es : Tuple Expr o.arity}
    (hes : es.toList = [e]) :
    Makes g (Builder.unary (fun i => .apply o (args i)) a) (.apply o es) := by
  intro h hgh hh
  have hbuilds := ha h hgh hh
  have hlt : ∀ j ∈ (args (a.build h).2).toList, j < (a.build h).1.nodes.size := by
    rw [hargs]
    simpa using hbuilds.lt
  have hexprs : (args (a.build h).2).map (a.build h).1.expr = es := by
    refine Tuple.toList_injective ?_
    rw [Tuple.toList_map, hargs, hes, List.map_singleton, hbuilds.expr]
  rw [← hexprs]
  exact hbuilds.trans (builds_apply hbuilds.consistent hlt)

theorem Makes.binary {a b : Builder} {e f : Expr} {o : Operator}
    {args : Nat → Nat → Tuple Nat o.arity} (ha : Makes g a e) (hb : Makes g b f)
    (hargs : ∀ i j, (args i j).toList = [i, j]) {es : Tuple Expr o.arity}
    (hes : es.toList = [e, f]) :
    Makes g (Builder.binary (fun i j => .apply o (args i j)) a b) (.apply o es) := by
  intro h hgh hh
  have hfirst := ha h hgh hh
  have hsecond := hb _ (hgh.trans hfirst.extend) hfirst.consistent
  have hlt : ∀ j ∈ (args (a.build h).2 (b.build (a.build h).1).2).toList,
      j < (b.build (a.build h).1).1.nodes.size := by
    rw [hargs]
    simpa using ⟨hsecond.extend.lt hfirst.lt, hsecond.lt⟩
  have hexprs : (args (a.build h).2 (b.build (a.build h).1).2).map
      (b.build (a.build h).1).1.expr = es := by
    refine Tuple.toList_injective ?_
    rw [Tuple.toList_map, hargs, hes, List.map_cons, List.map_singleton,
      hsecond.extend.expr hfirst.lt, hfirst.expr, hsecond.expr]
  rw [← hexprs]
  exact (hfirst.trans hsecond).trans (builds_apply hsecond.consistent hlt)

theorem related_makes (g : Graph) : Arithmetic.Related (Makes g) where
  add ha hb := ha.binary hb (fun _ _ => rfl) rfl
  sub ha hb := ha.binary hb (fun _ _ => rfl) rfl
  mul ha hb := ha.binary hb (fun _ _ => rfl) rfl
  div ha hb := ha.binary hb (fun _ _ => rfl) rfl
  neg ha := ha.unary (fun _ => rfl) rfl
  natCast n _ := makes_leaf (.number (.int n))

end Builder

end Trivar.Graph
