import Trivar.Expr.Text
import Trivar.Proofs.Building

/-!
Differentiation with tables. Whatever the tables of a graph hold already,
working off an operation ends, records its derivative and leaves all tables
right (`settles`): the derivatives that it rests on are settled first, by
induction along `Expr.differentiationArgs`, and then the rule finds every one of
them in its table. Nothing in this depends on how the nodes are shared or which
derivatives were asked for before.
-/

namespace Trivar

/-! ### What a derivative rests on -/

namespace Expr

theorem derivative_expansion (name : String) (e : Expr) :
    e.expansion.derivative name = e.derivative name := by
  cases e with
  | atom a => rfl
  | apply o args =>
      rw [expansion]
      split
      · exact derivative_combine name o args
      · rfl

/-- Induction along the trees on which derivatives rest, composite operations by way of their
expansions. -/
theorem inductDifferentiation {P : Expr → Prop}
    (h : ∀ e : Expr, (∀ f ∈ e.differentiationArgs, P f) → P e) (e : Expr) : P e := by
  have hclosed : Arithmetic.Closed P := by
    refine closed_of_apply (fun o args ho hargs => h _ ?_) fun n _ => h _ (List.forall_mem_nil _)
    rwa [differentiationArgs, ho]
  induction e using induct with
  | atom a => exact h _ (List.forall_mem_nil _)
  | apply o args ih =>
      refine h _ ?_
      rw [differentiationArgs]
      split
      · exact List.forall_mem_singleton.2 (hclosed.combine o ih)
      · exact ih

/-- The rules of differentiation, one by one. -/
inductive Derives (name : String) : Expr → Expr → Prop
  | number (n : Number) : Derives name (.atom (.number n)) (0 : Nat)
  | same {v : Variable} : v.name = name → Derives name (.atom (.variable v)) (1 : Nat)
  | other {v : Variable} : v.name ≠ name → Derives name (.atom (.variable v)) (0 : Nat)
  | add {a b a' b'} : Derives name a a' → Derives name b b' → Derives name (a + b) (a' + b')
  | sub {a b a' b'} : Derives name a a' → Derives name b b' → Derives name (a - b) (a' - b')
  | mul {a b a' b'} : Derives name a a' → Derives name b b' →
      Derives name (a * b) (a' * b + a * b')
  | div {a b a' b'} : Derives name a a' → Derives name b b' →
      Derives name (a / b) ((a' * b - a * b') / (b * b))
  | neg {a a'} : Derives name a a' → Derives name (-a) (-a')
  | composite {o : Operator} {args : Tuple Expr o.arity} {d} : o.isComposite = true →
      Derives name (o.combine args) d → Derives name (.apply o args) d

theorem derives_derivative (name : String) (e : Expr) : Derives name e (e.derivative name) := by
  induction e using inductDifferentiation with
  | h e ih =>
      match e, ih with
      | .atom (.number n), _ => exact .number n
      | .atom (.variable v), _ =>
          rw [derivative_atom, Atom.derivative]
          split
          · exact .same ‹_›
          · exact .other ‹_›
      | .apply .add (.cons a (.cons b .nil)), ih =>
          obtain ⟨ha, hb⟩ := Tuple.forall_mem_pair.1 ih
          exact .add ha hb
      | .apply .sub (.cons a (.cons b .nil)), ih =>
          obtain ⟨ha, hb⟩ := Tuple.forall_mem_pair.1 ih
          exact .sub ha hb
      | .apply .mul (.cons a (.cons b .nil)), ih =>
          obtain ⟨ha, hb⟩ := Tuple.forall_mem_pair.1 ih
          exact .mul ha hb
      | .apply .div (.cons a (.cons b .nil)), ih =>
          obtain ⟨ha, hb⟩ := Tuple.forall_mem_pair.1 ih
          exact .div ha hb
      | .apply .negate (.cons a .nil), ih => exact .neg (ih a List.mem_cons_self)
      | .apply (.reciprocalSum extra) args, ih =>
          rw [← derivative_combine]
          exact .composite rfl (ih _ List.mem_cons_self)
      | .apply (.harmonicMean extra) args, ih =>
          rw [← derivative_combine]
          exact .composite rfl (ih _ List.mem_cons_self)

/-- The rules give one derivative. -/
theorem derives_iff {name : String} {e d : Expr} : Derives name e d ↔ d = e.derivative name := by
  constructor
  · intro h
    induction h with
    | number n => rfl
    | same hname => exact (if_pos hname).symm
    | other hname => exact (if_neg hname).symm
    | add _ _ ha hb => rw [ha, hb]; rfl
    | sub _ _ ha hb => rw [ha, hb]; rfl
    | mul _ _ ha hb => rw [ha, hb]; rfl
    | div _ _ ha hb => rw [ha, hb]; rfl
    | neg _ ha => rw [ha]; rfl
    | composite _ _ hd => rw [hd, derivative_combine]
  · rintro rfl
    exact derives_derivative name e

/-- Composite operations expand to operations. -/
theorem exists_apply_of_composite {o : Operator} (ho : o.isComposite = true)
    (args : Tuple Expr o.arity) : ∃ p brgs, o.combine args = .apply p brgs := by
  have hsum {n : Nat} (args : Tuple Expr (n + 1)) :
      ∃ p brgs, Operator.sumOfReciprocals args = .apply p brgs := by
    have hfold (bs : List Expr) (s : Expr) (hs : ∃ p brgs, s = .apply p brgs) :
        ∃ p brgs, bs.foldl (fun sum b => sum + ((1 : Nat) : Expr) / b) s = .apply p brgs := by
      induction bs generalizing s with
      | nil => exact hs
      | cons b bs ih => exact ih _ ⟨.add, _, rfl⟩
    cases args with
    | cons a as => exact hfold as.toList _ ⟨.div, _, rfl⟩
  cases o with
  | reciprocalSum extra => exact hsum args
  | harmonicMean extra => exact ⟨.div, _, rfl⟩
  | _ => cases ho

end Expr

namespace Graph

variable {g h k : Graph} {i j root : Nat} {name : String} {o : Operator} {args : Tuple Nat o.arity}

/-! ### Expansions -/

theorem expand_of_expansion? (hroot : g.expansion? i = some root) : g.expand i = (g, root) := by
  obtain ⟨⟨s, e, ds⟩, hnode, rfl⟩ := Option.bind_eq_some_iff.1 hroot
  rw [expand, hnode]
  cases s <;> rfl

theorem expand_of_none (hs : g.shape? i = some (.apply o args)) (ho : o.isComposite = true)
    (hnone : g.expansion? i = none) :
    g.expand i =
      let (h, root) := (o.combine (args.map Builder.existing)).build g
      (h.noteExpansion i root, root) := by
  obtain ⟨⟨s, e, ds⟩, hnode, rfl⟩ := Option.map_eq_some_iff.1 hs
  rw [expansion?, hnode] at hnone
  cases hnone
  rw [expand, hnode]
  exact if_pos ho

theorem expand_of_primitive {s : Shape} (hs : g.shape? i = some s) (hnone : g.expansion? i = none)
    (hprimitive : ∀ o args, s = .apply o args → ¬ o.isComposite) : g.expand i = (g, i) := by
  obtain ⟨⟨s, e, ds⟩, hnode, rfl⟩ := Option.map_eq_some_iff.1 hs
  rw [expansion?, hnode] at hnone
  cases hnone
  rw [expand, hnode]
  cases s with
  | atom a => rfl
  | apply o args => exact if_neg (hprimitive o args rfl)

/-- The graph with an expansion noted, and its root. -/
structure Expands (g : Graph) (i : Nat) (result : Graph × Nat) : Prop where
  adds : Adds g result (g.expr i).expansion
  noted : result.1.expansion? i = some result.2

theorem expands_expand (hg : Consistent g) (hs : g.shape? i = some (.apply o args))
    (ho : o.isComposite = true) : Expands g i (g.expand i) := by
  have hi := lt_of_shape? hs
  cases hroot : g.expansion? i with
  | some root =>
      obtain ⟨hlt, hexpr⟩ := hg.expansion hroot
      rw [expand_of_expansion? hroot]
      exact ⟨⟨.refl g, hg, hlt, hexpr⟩, hroot⟩
  | none =>
      have hargs : (args.map Builder.existing).Forall₂ (Builder.Makes g) (args.map g.expr) :=
        Tuple.forall₂_map.2 fun j hj =>
          Builder.makes_existing (Nat.lt_trans (hg.below hs j hj) hi)
      have hbuilds := (Builder.related_makes g).combine o hargs g (.refl g) hg
      have hexpansion : (g.expr i).expansion = o.combine (args.map g.expr) := by
        rw [expr_of_apply hs (hg.below hs)]
        exact if_pos ho
      rw [expand_of_none hs ho hroot]
      rw [← hexpansion] at hbuilds
      generalize (o.combine (args.map Builder.existing)).build g = built at hbuilds
      obtain ⟨h, root⟩ := built
      have hi' : i < h.nodes.size := hbuilds.extend.lt hi
      have hnone : h.expansion? i = none := (hbuilds.expansion i).trans hroot
      have hnote := extends_noteExpansion hi' hnone root
      have hroot' : h.expr root = (h.expr i).expansion := by
        rw [hbuilds.expr, hbuilds.extend.expr hi]
      refine ⟨⟨hbuilds.extend.trans hnote, ?_, hnote.lt hbuilds.lt, ?_⟩, ?_⟩
      · exact hbuilds.consistent.noteExpansion hi' hnone hbuilds.lt hroot'
      · exact (hnote.expr hbuilds.lt).trans hbuilds.expr
      · exact (expansion?_noteExpansion hi' root i).trans (if_pos rfl)

/-- What the derivative of an operation rests on, in a graph in which this will not change. -/
structure Needs (g : Graph) (i : Nat) (result : Graph × List Nat) : Prop where
  extend : Extends g result.1
  consistent : Consistent result.1
  lt : ∀ j ∈ result.2, j < result.1.nodes.size
  expr : result.2.map result.1.expr = (g.expr i).differentiationArgs
  stable : ∀ h, Extends result.1 h → h.differentiationArgs i = (h, result.2)

theorem differentiationArgs_of_shape? (hs : g.shape? i = some (.apply o args)) :
    g.differentiationArgs i =
      if o.isComposite then ((g.expand i).1, [(g.expand i).2]) else (g, args.toList) := by
  rw [differentiationArgs, hs]

theorem needs_differentiationArgs (hg : Consistent g) (hs : g.shape? i = some (.apply o args)) :
    Needs g i (g.differentiationArgs i) := by
  have hexpr := expr_of_apply hs (hg.below hs)
  have hlater {h : Graph} (hext : Extends g h) := differentiationArgs_of_shape? (hext.shape hs)
  by_cases ho : o.isComposite = true
  · obtain ⟨hadds, hnoted⟩ := expands_expand hg hs ho
    rw [hlater (.refl g), if_pos ho]
    refine ⟨hadds.extend, hadds.consistent, List.forall_mem_singleton.2 hadds.lt, ?_, ?_⟩
    · rw [List.map_singleton, hadds.expr, hexpr, Expr.differentiationArgs, Expr.expansion,
        if_pos ho, if_pos ho]
    · intro h hext
      rw [hlater (hadds.extend.trans hext), if_pos ho,
        expand_of_expansion? (hext.expansion hnoted)]
  · rw [hlater (.refl g), if_neg ho]
    refine ⟨.refl g, hg, fun j hj => Nat.lt_trans (hg.below hs j hj) (lt_of_shape? hs), ?_, ?_⟩
    · rw [hexpr, Expr.differentiationArgs, if_neg ho, Tuple.toList_map]
    · intro h hext
      rw [hlater hext, if_neg ho]

/-! ### The rule -/

/-- The node is a leaf, or its table holds the derivative. -/
def Ready (g : Graph) (name : String) (i : Nat) : Prop :=
  g.isOperation i = true → (g.recorded? name i).isSome

theorem isOperation_eq_true_iff :
    g.isOperation i = true ↔ ∃ o args, g.shape? i = some (.apply o args) := by
  rw [isOperation]
  cases g.shape? i with
  | none => simp
  | some s => cases s <;> simp

theorem Extends.isOperation (hgh : Extends g h) (hi : i < g.nodes.size) :
    h.isOperation i = g.isOperation i := by
  obtain ⟨s, hs⟩ := exists_shape? hi
  rw [Graph.isOperation, Graph.isOperation, hs, hgh.shape hs]

theorem Ready.mono (hgh : Extends g h) (hi : i < g.nodes.size) (hready : g.Ready name i) :
    h.Ready name i :=
  fun hop => hgh.recorded (hready (hgh.isOperation hi ▸ hop))

theorem pending_eq_nil_iff {is : List Nat} :
    g.pending name is = [] ↔ ∀ i ∈ is, g.Ready name i := by
  simp [pending, Ready, Option.isSome_iff_ne_none]

theorem adds_constant (hg : Consistent g) (name : String) (a : Atom) :
    Adds g (g.ofExpr (a.derivative name)) (a.derivative name) := by
  have hleaf (b : Atom) : Adds g (g.ofExpr (.atom b)) (.atom b) := (builds_atom hg b).toAdds
  cases a with
  | number n => exact hleaf _
  | «variable» v =>
      rw [Atom.derivative]
      split <;> exact hleaf _

theorem argumentDerivative_of_ready (hg : Consistent g) (hi : i < g.nodes.size)
    (hready : g.Ready name i) :
    ∃ result, argumentDerivative name i g = some result ∧
      Adds g result ((g.expr i).derivative name) := by
  obtain ⟨s, hs⟩ := exists_shape? hi
  rw [argumentDerivative, hs]
  cases s with
  | atom a =>
      rw [expr_of_atom hs]
      exact ⟨_, rfl, adds_constant hg name a⟩
  | apply o args =>
      obtain ⟨d, hd⟩ := Option.isSome_iff_exists.1 (hready (isOperation_eq_true_iff.2 ⟨o, args, hs⟩))
      obtain ⟨hlt, hexpr⟩ := hg.derivative hd
      exact ⟨(g, d), by rw [hd]; rfl, .refl g, hg, hlt, hexpr⟩

theorem argumentDerivatives_of_ready (hg : Consistent g) {n : Nat} (is : Tuple Nat n)
    (hlt : ∀ i ∈ is.toList, i < g.nodes.size) (hready : ∀ i ∈ is.toList, g.Ready name i) :
    ∃ h ds, argumentDerivatives name is g = some (h, ds) ∧ Extends g h ∧ Consistent h ∧
      (∀ d ∈ ds.toList, d < h.nodes.size) ∧
      ds.map h.expr = is.map fun i => (g.expr i).derivative name := by
  induction is generalizing g with
  | nil => exact ⟨g, .nil, rfl, .refl g, hg, List.forall_mem_nil _, rfl⟩
  | cons i is ih =>
      obtain ⟨hi, his⟩ := List.forall_mem_cons.1 hlt
      obtain ⟨hi', his'⟩ := List.forall_mem_cons.1 hready
      obtain ⟨⟨h, d⟩, hfirst, hadds⟩ := argumentDerivative_of_ready hg hi hi'
      obtain ⟨k, ds, hrest, hext, hk, hds, hexprs⟩ := ih hadds.consistent
        (fun j hj => hadds.extend.lt (his j hj))
        (fun j hj => (his' j hj).mono hadds.extend (his j hj))
      refine ⟨k, .cons d ds, ?_, hadds.extend.trans hext, hk,
        List.forall_mem_cons.2 ⟨hext.lt hadds.lt, hds⟩, ?_⟩
      · rw [argumentDerivatives, hfirst]
        simp only [bind, Option.bind]
        rw [hrest]
        rfl
      · rw [Tuple.map, Tuple.map, hexprs, hext.expr hadds.lt, hadds.expr]
        exact congrArg _ (Tuple.map_congr fun j hj => by rw [hadds.extend.expr (his j hj)])

theorem isOperation_of_expr {p : Operator} {brgs : Tuple Expr p.arity} (hi : i < g.nodes.size)
    (hexpr : g.expr i = .apply p brgs) : g.isOperation i = true := by
  obtain ⟨s, hs⟩ := exists_shape? hi
  cases s with
  | atom a =>
      rw [expr_of_atom hs] at hexpr
      cases hexpr
  | apply o args => exact isOperation_eq_true_iff.2 ⟨o, args, hs⟩

/-- The graph after an operation was differentiated. -/
structure Records (g : Graph) (name : String) (is : List Nat) (h : Graph) : Prop where
  extend : Extends g h
  consistent : Consistent h
  recorded : ∀ i ∈ is, (h.recorded? name i).isSome

theorem records_record (hgh : Extends g h) (hh : Consistent h) (hi : i < g.nodes.size) {d : Nat}
    (hd : d < h.nodes.size) (hderivative : h.expr d = (g.expr i).derivative name) :
    Records g name [i] (h.record name i d) := by
  have hi' := hgh.lt hi
  refine ⟨hgh.trans (extends_record hi' name d), hh.record hi' hd ?_, ?_⟩
  · rw [hderivative, hgh.expr hi]
  · refine List.forall_mem_singleton.2 ?_
    rw [recorded?_record hi', if_pos ⟨rfl, rfl⟩]
    rfl

/-- A rule finds all that it looks up when nothing is missing. -/
theorem applyRule_of_ready {needed : List Nat} (hg : Consistent g)
    (hs : g.shape? i = some (.apply o args)) (hneeded : g.differentiationArgs i = (g, needed))
    (hready : ∀ j ∈ needed, g.Ready name j) :
    ∃ h, g.applyRule name i = some h ∧ Records g name [i] h := by
  have hi := lt_of_shape? hs
  have hexpr := expr_of_apply hs (hg.below hs)
  rw [differentiationArgs_of_shape? hs] at hneeded
  by_cases ho : o.isComposite = true
  · obtain ⟨hadds, -⟩ := expands_expand hg hs ho
    rw [if_pos ho] at hneeded
    obtain ⟨hkept, rfl⟩ := Prod.mk.inj hneeded
    have hexpand : g.expand i = (g, (g.expand i).2) := Prod.ext hkept rfl
    generalize (g.expand i).2 = root at hexpand hready
    rw [hexpand] at hadds
    obtain ⟨p, brgs, happly⟩ := Expr.exists_apply_of_composite ho (args.map g.expr)
    have hroot : g.expr root = .apply p brgs := by
      rw [hadds.expr, hexpr, Expr.expansion, if_pos ho, happly]
    obtain ⟨d, hd⟩ := Option.isSome_iff_exists.1
      (List.forall_mem_singleton.1 hready (isOperation_of_expr hadds.lt hroot))
    obtain ⟨hlt, hderivative⟩ := hg.derivative hd
    refine ⟨g.record name i d, ?_, records_record (.refl g) hg hi hlt ?_⟩
    · simp only [applyRule, hs, ho, if_true, hexpand, hd]
      rfl
    · rw [hderivative, hadds.expr, Expr.derivative_expansion]
  · rw [if_neg ho] at hneeded
    obtain ⟨-, rfl⟩ := Prod.mk.inj hneeded
    have hlt (j : Nat) (hj : j ∈ args.toList) : j < g.nodes.size :=
      Nat.lt_trans (hg.below hs j hj) hi
    obtain ⟨h, ds, hslopes, hext, hh, hds, hexprs⟩ := argumentDerivatives_of_ready hg args hlt hready
    have hargs : (args.map Builder.existing).Forall₂ (Builder.Makes h) (args.map h.expr) :=
      Tuple.forall₂_map.2 fun j hj => Builder.makes_existing (hext.lt (hlt j hj))
    have hrule := (Builder.related_makes h).derivative o hargs
      (Tuple.forall₂_map.2 fun d hd => Builder.makes_existing (hds d hd)) h (.refl h) hh
    have hderivative : o.derivative (args.map h.expr) (ds.map h.expr) =
        (g.expr i).derivative name := by
      rw [hexprs, hexpr, Expr.derivative_apply, Tuple.map_map,
        Tuple.map_congr fun j hj => hext.expr (hlt j hj)]
    rw [hderivative] at hrule
    refine ⟨_, ?_, records_record (hext.trans hrule.extend) hrule.consistent hi hrule.lt hrule.expr⟩
    simp only [applyRule, hs, ho, hslopes]
    rfl

/-! ### The stack -/

theorem workOff_nil (name : String) (g : Graph) : workOff name [] g = some g := by
  rw [workOff.eq_def]

theorem workOff_cons {needed : List Nat} (hneeded : g.differentiationArgs i = (h, needed))
    (below : List Nat) :
    workOff name (i :: below) g =
      if h.pending name needed = [] then
        (if (h.recorded? name i).isSome then some h else h.applyRule name i) >>=
          workOff name below
      else workOff name ((h.pending name needed).reverse ++ i :: below) h := by
  rw [workOff.eq_def]
  simp only [hneeded]
  split
  · rename_i hpending
    rw [if_pos hpending]
    split <;> rfl
  · rename_i j js hpending
    rw [if_neg (by simp [hpending]), hpending]

/-- Working off these operations ends and records their derivatives. -/
def Settles (g : Graph) (name : String) (is : List Nat) : Prop :=
  ∃ h, Records g name is h ∧ ∀ below, workOff name (is ++ below) g = workOff name below h

theorem settles_each {is : List Nat} (hg : Consistent g) (his : ∀ i ∈ is, i < g.nodes.size)
    (hsettles : ∀ i ∈ is, ∀ h, Extends g h → Consistent h → Settles h name [i]) :
    Settles g name is := by
  induction is generalizing g with
  | nil => exact ⟨g, ⟨.refl g, hg, List.forall_mem_nil _⟩, fun _ => rfl⟩
  | cons i is ih =>
      obtain ⟨hi, his⟩ := List.forall_mem_cons.1 his
      obtain ⟨hsettle, hrest⟩ := List.forall_mem_cons.1 hsettles
      obtain ⟨h, hfirst, hrun⟩ := hsettle g (.refl g) hg
      obtain ⟨k, hothers, hrun'⟩ := ih hfirst.consistent (fun j hj => hfirst.extend.lt (his j hj))
        fun j hj k hhk => hrest j hj k (hfirst.extend.trans hhk)
      refine ⟨k, ⟨hfirst.extend.trans hothers.extend, hothers.consistent, ?_⟩, fun below => ?_⟩
      · refine List.forall_mem_cons.2 ⟨?_, hothers.recorded⟩
        exact hothers.extend.recorded (hfirst.recorded i List.mem_cons_self)
      · rw [← hrun']
        exact hrun (is ++ below)

/-- Once nothing that it rests on is missing, an operation is worked off. -/
theorem settles_of_ready {needed : List Nat} (hg : Consistent g)
    (hs : g.shape? i = some (.apply o args)) (hneeded : g.differentiationArgs i = (g, needed))
    (hready : ∀ j ∈ needed, g.Ready name j) : Settles g name [i] := by
  have hpending : g.pending name needed = [] := pending_eq_nil_iff.2 hready
  have hrecords : ∃ h, (if (g.recorded? name i).isSome then some g else g.applyRule name i) =
      some h ∧ Records g name [i] h := by
    split
    · exact ⟨g, rfl, .refl g, hg, List.forall_mem_singleton.2 ‹_›⟩
    · exact applyRule_of_ready hg hs hneeded hready
  obtain ⟨h, hrule, hrecords⟩ := hrecords
  refine ⟨h, hrecords, fun below => ?_⟩
  rw [List.singleton_append, workOff_cons hneeded, if_pos hpending, hrule]
  rfl

/-- Every operation is worked off, whatever the tables hold before. -/
theorem settles (e : Expr) (g : Graph) (hg : Consistent g) (i : Nat)
    (hop : g.isOperation i = true) (hexpr : g.expr i = e) : Settles g name [i] := by
  induction e using Expr.inductDifferentiation generalizing g i with
  | h e ih =>
      obtain ⟨o, args, hs⟩ := isOperation_eq_true_iff.1 hop
      obtain ⟨hext, hh, hlt, hexprs, hstable⟩ := needs_differentiationArgs hg hs
      generalize hneeded : g.differentiationArgs i = result at hext hh hlt hexprs hstable
      obtain ⟨h, needed⟩ := result
      simp only at hext hh hlt hexprs hstable
      -- What is missing gets settled, and nothing is missing when the operation is met again.
      have hmem : ∀ j ∈ h.pending name needed, j ∈ needed ∧ h.isOperation j = true := by
        intro j hj
        obtain ⟨hj, hfound⟩ := List.mem_filter.1 hj
        exact ⟨hj, (Bool.and_eq_true_iff.1 hfound).1⟩
      have hmissing : Settles h name (h.pending name needed).reverse := by
        refine settles_each hh (fun j hj => hlt j (hmem j (List.mem_reverse.1 hj)).1) ?_
        intro j hj k hhk hk
        obtain ⟨hj, hop⟩ := hmem j (List.mem_reverse.1 hj)
        refine ih (h.expr j) ?_ k hk j (hhk.isOperation (hlt j hj) ▸ hop) (hhk.expr (hlt j hj))
        rw [← hexpr, ← hexprs]
        exact List.mem_map_of_mem hj
      obtain ⟨k, hothers, hrun⟩ := hmissing
      have hready : ∀ j ∈ needed, k.Ready name j := by
        intro j hj hop
        by_cases hfound : (h.recorded? name j).isSome
        · exact hothers.extend.recorded hfound
        · rw [hothers.extend.isOperation (hlt j hj)] at hop
          refine hothers.recorded j (List.mem_reverse.2 (List.mem_filter.2 ⟨hj, ?_⟩))
          simpa [hop] using hfound
      obtain ⟨l, hlast, hrun'⟩ := settles_of_ready hothers.consistent
        (hothers.extend.shape (hext.shape hs)) (hstable k hothers.extend) hready
      have hfirst (below : List Nat) : workOff name (i :: below) g =
          workOff name ((h.pending name needed).reverse ++ i :: below) h := by
        rw [workOff_cons hneeded]
        split
        · rename_i hnil
          rw [hnil, List.reverse_nil, List.nil_append, workOff_cons (hstable h (.refl h)),
            if_pos hnil]
        · rfl
      have hextend := hext.trans (hothers.extend.trans hlast.extend)
      refine ⟨l, ⟨hextend, hlast.consistent, hlast.recorded⟩, fun below => ?_⟩
      calc workOff name (i :: below) g
          _ = workOff name ((h.pending name needed).reverse ++ i :: below) h := hfirst below
          _ = workOff name (i :: below) k := hrun (i :: below)
          _ = workOff name below l := hrun' below

/-- Differentiation succeeds and adds the derivative, whatever the tables hold before. -/
theorem adds_differentiate (hg : Consistent g) (hi : i < g.nodes.size) (name : String) :
    ∃ result, g.differentiate name i = some result ∧
      Adds g result ((g.expr i).derivative name) := by
  have hworked : ∃ h, workOff name (g.pending name [i]) g = some h ∧ Extends g h ∧ Consistent h ∧
      h.Ready name i := by
    by_cases hready : g.Ready name i
    · rw [pending_eq_nil_iff.2 (List.forall_mem_singleton.2 hready)]
      exact ⟨g, workOff_nil name g, .refl g, hg, hready⟩
    · obtain ⟨hop, hmissing⟩ := Classical.not_imp.1 hready
      have hsettles : Settles g name [i] := settles (g.expr i) g hg i hop rfl
      obtain ⟨h, hrecords, hrun⟩ := hsettles
      have hpending : g.pending name [i] = [i] := by
        simpa [pending, hop] using hmissing
      rw [hpending]
      have hend := hrun []
      rw [List.append_nil, workOff_nil] at hend
      exact ⟨h, hend, hrecords.extend, hrecords.consistent,
        fun _ => hrecords.recorded i List.mem_cons_self⟩
  obtain ⟨h, hrun, hext, hh, hready⟩ := hworked
  obtain ⟨result, hresult, hadds⟩ := argumentDerivative_of_ready hh (hext.lt hi) hready
  refine ⟨result, ?_, ?_⟩
  · rw [differentiate, hrun]
    exact hresult
  · rw [hext.expr hi] at hadds
    exact hadds.of_extends hext

/-! ### Graphs as they arise -/

/-- Graphs that are made by adding nodes with empty tables on earlier nodes, asking nodes for
their expansions and differentiating nodes, in any order. -/
inductive Reachable : Graph → Prop
  | empty : Reachable empty
  | insert {g : Graph} {s : Shape} : Reachable g → s.Below g.nodes.size → Reachable (g.insert s).1
  | expand {g : Graph} (i : Nat) : Reachable g → Reachable (g.expand i).1
  | differentiate {g : Graph} {name : String} {i : Nat} {result : Graph × Nat} : Reachable g →
      g.differentiate name i = some result → Reachable result.1

theorem consistent_empty : Consistent empty where
  below hs := absurd (lt_of_shape? hs) (Nat.not_lt_zero _)
  expansion hroot := absurd (lt_of_expansion? hroot) (Nat.not_lt_zero _)
  derivative hd := absurd (lt_of_recorded? hd) (Nat.not_lt_zero _)

theorem adds_expand (hg : Consistent g) (hi : i < g.nodes.size) :
    Adds g (g.expand i) (g.expr i).expansion := by
  obtain ⟨s, hs⟩ := exists_shape? hi
  cases hroot : g.expansion? i with
  | some root =>
      obtain ⟨hlt, hexpr⟩ := hg.expansion hroot
      rw [expand_of_expansion? hroot]
      exact ⟨.refl g, hg, hlt, hexpr⟩
  | none =>
      cases s with
      | atom a =>
          rw [expand_of_primitive hs hroot nofun, expr_of_atom hs]
          exact ⟨.refl g, hg, hi, expr_of_atom hs⟩
      | apply o args =>
          by_cases ho : o.isComposite = true
          · exact (expands_expand hg hs ho).adds
          · have hprimitive : ∀ p brgs, Shape.apply o args = .apply p brgs → ¬ p.isComposite := by
              rintro p brgs ⟨⟩
              exact ho
            have hexpr := expr_of_apply hs (hg.below hs)
            rw [expand_of_primitive hs hroot hprimitive, hexpr, Expr.expansion, if_neg ho]
            exact ⟨.refl g, hg, hi, hexpr⟩

theorem Consistent.expand (hg : Consistent g) (i : Nat) : Consistent (g.expand i).1 := by
  by_cases hi : i < g.nodes.size
  · exact (adds_expand hg hi).consistent
  · rw [Graph.expand, Array.getElem?_eq_none (Nat.le_of_not_lt hi)]
    exact hg

theorem lt_of_differentiate {result : Graph × Nat} (h : g.differentiate name i = some result) :
    i < g.nodes.size := by
  cases hs : g.shape? i with
  | some s => exact lt_of_shape? hs
  | none =>
      have hpending : g.pending name [i] = [] :=
        pending_eq_nil_iff.2 (List.forall_mem_singleton.2 fun hop => by
          rw [isOperation, hs] at hop
          cases hop)
      rw [differentiate, hpending, workOff_nil] at h
      simp [argumentDerivative, hs] at h

theorem Reachable.consistent (hg : Reachable g) : Consistent g := by
  induction hg with
  | empty => exact consistent_empty
  | insert _ hs ih => exact ih.insert hs
  | expand i _ ih => exact ih.expand i
  | differentiate _ hresult ih =>
      obtain ⟨result, hadded, hadds⟩ := adds_differentiate ih (lt_of_differentiate hresult) _
      cases hadded.symm.trans hresult
      exact hadds.consistent

/-- Differentiation is right in every state of the tables. It ends without missing an entry, and
what it returns is the derivative that the rules give; the nodes stand for the same expressions as
before, and every entry of every table is the derivative that the rules give for its node. -/
theorem differentiate_derives (hg : Reachable g) (hi : i < g.nodes.size) (name : String) :
    ∃ h d, g.differentiate name i = some (h, d) ∧ d < h.nodes.size ∧
      (h.expr d = (g.expr i).derivative name ∧ Expr.Derives name (g.expr i) (h.expr d)) ∧
      (∀ j < g.nodes.size, j < h.nodes.size ∧ h.expr j = g.expr j) ∧
      ∀ name' j d', h.recorded? name' j = some d' →
        d' < h.nodes.size ∧ Expr.Derives name' (h.expr j) (h.expr d') := by
  obtain ⟨⟨h, d⟩, hresult, hadds⟩ := adds_differentiate hg.consistent hi name
  refine ⟨h, d, hresult, hadds.lt, ⟨hadds.expr, Expr.derives_iff.2 hadds.expr⟩,
    fun j hj => ⟨hadds.extend.lt hj, hadds.extend.expr hj⟩, fun name' j d' hentry => ?_⟩
  obtain ⟨hlt, hderivative⟩ := hadds.consistent.derivative hentry
  exact ⟨hlt, Expr.derives_iff.2 hderivative⟩

/-- The square of a sum of reciprocals, along `x` when the table of the sum holds its derivative
along `y` already. The sum is one node, and so is its argument. -/
theorem differentiate_derives_shared :
    let g := (((empty.insert (.atom (.variable .x))).1.insert
      (.apply (.reciprocalSum 0) (.cons 0 (.cons 0 .nil)))).1.insert
      (.apply .mul (.cons 1 (.cons 1 .nil)))).1
    Reachable g ∧ 2 < g.nodes.size ∧ ∃ h d, g.differentiate "y" 1 = some (h, d) ∧
      ∃ k d, h.differentiate "x" 2 = some (k, d) ∧ (k.expr d).flatText =
        "0 x * 1 1 * - x x * / 0 x * 1 1 * - x x * / + x x sumrec2 * " ++
        "x x sumrec2 0 x * 1 1 * - x x * / 0 x * 1 1 * - x x * / + * +" := by
  intro g
  have hg : Reachable g := by
    refine .insert (.insert (.insert .empty trivial) ?_) ?_ <;> decide
  have hlt : 2 < g.nodes.size := by decide
  obtain ⟨h, c, hfirst, -, -, hkept, -⟩ := differentiate_derives hg (Nat.lt_of_succ_lt hlt) "y"
  obtain ⟨hsize, hexpr⟩ := hkept 2 hlt
  obtain ⟨k, d, hsecond, -, ⟨hderivative, -⟩, -⟩ :=
    differentiate_derives (hg.differentiate hfirst) hsize "x"
  refine ⟨hg, hlt, h, c, hfirst, k, d, hsecond, ?_⟩
  rw [hderivative, hexpr]
  decide +kernel

end Graph

end Trivar
