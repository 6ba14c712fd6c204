import Trivar.Exact
import Trivar.Expr.Derivative

/-!
Relations that respect the primitive operations. What an operation does is
written once, in `Operator.combine`, for all structures that have the primitive
ones. A relation between two such structures that these preserve is therefore
preserved by every operation, and it passes to jets, so from values to slopes.
A map that carries the operations over and a property that they keep are the
two common cases.

Exact values are such a map on expressions. The slope that a jet of exact
values computes is therefore the exact value of the symbolic derivative
(`exactSlope_eq_exact`).
-/

namespace Trivar

namespace Tuple

variable {α β γ : Type} {n : Nat}

theorem forall_mem_single {P : α → Prop} {a : α} :
    (∀ b ∈ (cons a nil).toList, P b) ↔ P a := by
  simp [toList]

theorem forall_mem_pair {P : α → Prop} {a b : α} :
    (∀ c ∈ (cons a (cons b nil)).toList, P c) ↔ P a ∧ P b := by
  simp [toList]

theorem exists_mem_pair {P : α → Prop} {a b : α} :
    (∃ c ∈ (cons a (cons b nil)).toList, P c) ↔ P a ∨ P b := by
  simp [toList]

/-- Two tuples whose entries are related one by one. -/
def Forall₂ {n : Nat} (R : α → β → Prop) : Tuple α n → Tuple β n → Prop
  | .nil, .nil => True
  | .cons a as, .cons b bs => R a b ∧ as.Forall₂ R bs

theorem forall₂_map {R : β → γ → Prop} {f : α → β} {g : α → γ} {t : Tuple α n} :
    (t.map f).Forall₂ R (t.map g) ↔ ∀ a ∈ t.toList, R (f a) (g a) := by
  induction t with
  | nil => simp [map, Forall₂, toList]
  | cons a as ih => rw [map, map, Forall₂, ih, toList, List.forall_mem_cons]

theorem forall₂_map_right {R : α → β → Prop} {f : α → β} {t : Tuple α n} :
    t.Forall₂ R (t.map f) ↔ ∀ a ∈ t.toList, R a (f a) := by
  induction t with
  | nil => simp [map, Forall₂, toList]
  | cons a as ih => rw [map, Forall₂, ih, toList, List.forall_mem_cons]

theorem Forall₂.zipWith {α' β' γ' : Type} {R : α → α' → Prop} {S : β → β' → Prop}
    {T : γ → γ' → Prop} {f : α → β → γ} {f' : α' → β' → γ'}
    (hf : ∀ {a a' b b'}, R a a' → S b b' → T (f a b) (f' a' b')) {as : Tuple α n}
    {as' : Tuple α' n} {bs : Tuple β n} {bs' : Tuple β' n} (ha : as.Forall₂ R as')
    (hb : bs.Forall₂ S bs') : (as.zipWith f bs).Forall₂ T (as'.zipWith f' bs') := by
  induction n with
  | zero =>
      match as, as', bs, bs' with
      | .nil, .nil, .nil, .nil => trivial
  | succ n ih =>
      match as, as', bs, bs', ha, hb with
      | .cons _ _, .cons _ _, .cons _ _, .cons _ _, ha, hb =>
          exact ⟨hf ha.1 hb.1, ih ha.2 hb.2⟩

theorem map_map (f : α → β) (g : β → γ) (t : Tuple α n) :
    (t.map f).map g = t.map fun a => g (f a) := by
  induction t with
  | nil => rfl
  | cons a as ih => rw [map, map, ih, map]

theorem map_id (t : Tuple α n) : (t.map fun a => a) = t := by
  induction t with
  | nil => rfl
  | cons a as ih => rw [map, ih]

theorem map_congr {f g : α → β} {t : Tuple α n} (h : ∀ a ∈ t.toList, f a = g a) :
    t.map f = t.map g := by
  induction t with
  | nil => rfl
  | cons a as ih =>
      rw [toList, List.forall_mem_cons] at h
      rw [map, map, h.1, ih h.2]

theorem zipWith_map_right (f : α → β → γ) (g : α → β) (t : Tuple α n) :
    t.zipWith f (t.map g) = t.map fun a => f a (g a) := by
  induction t with
  | nil => rfl
  | cons a as ih => rw [map, zipWith, ih, map]

end Tuple

namespace Arithmetic

/-- A relation that the primitive operations preserve. Of the constants only those matter that
operations bring in. -/
structure Related {α β : Type} [Arithmetic α] [Arithmetic β] (R : α → β → Prop) : Prop where
  add : ∀ {a b a' b'}, R a a' → R b b' → R (a + b) (a' + b')
  sub : ∀ {a b a' b'}, R a a' → R b b' → R (a - b) (a' - b')
  mul : ∀ {a b a' b'}, R a a' → R b b' → R (a * b) (a' * b')
  div : ∀ {a b a' b'}, R a a' → R b b' → R (a / b) (a' / b')
  neg : ∀ {a a'}, R a a' → R (-a) (-a')
  natCast : ∀ n : Nat, n ≤ 5 → R n n

namespace Related

variable {α β : Type} [Arithmetic α] [Arithmetic β] {R : α → β → Prop}

theorem sumOfReciprocals (h : Related R) {n : Nat} {as : Tuple α (n + 1)} {bs : Tuple β (n + 1)}
    (hargs : as.Forall₂ R bs) :
    R (Operator.sumOfReciprocals as) (Operator.sumOfReciprocals bs) := by
  have hone := h.natCast 1 (by omega)
  have hfold {m : Nat} (as : Tuple α m) (bs : Tuple β m) (hargs : as.Forall₂ R bs) (s : α) (s' : β)
      (hs : R s s') :
      R (as.toList.foldl (fun sum a => sum + ((1 : Nat) : α) / a) s)
        (bs.toList.foldl (fun sum b => sum + ((1 : Nat) : β) / b) s') := by
    induction as generalizing s s' with
    | nil =>
        cases bs
        exact hs
    | cons a as ih =>
        cases bs with
        | cons b bs => exact ih bs hargs.2 _ _ (h.add hs (h.div hone hargs.1))
  match as, bs, hargs with
  | .cons _ as, .cons _ bs, hargs => exact hfold as bs hargs.2 _ _ (h.div hone hargs.1)

theorem combine (h : Related R) (o : Operator) {as : Tuple α o.arity} {bs : Tuple β o.arity}
    (hargs : as.Forall₂ R bs) : R (o.combine as) (o.combine bs) := by
  match o, as, bs, hargs with
  | .add, .cons _ (.cons _ .nil), .cons _ (.cons _ .nil), hargs => exact h.add hargs.1 hargs.2.1
  | .sub, .cons _ (.cons _ .nil), .cons _ (.cons _ .nil), hargs => exact h.sub hargs.1 hargs.2.1
  | .mul, .cons _ (.cons _ .nil), .cons _ (.cons _ .nil), hargs => exact h.mul hargs.1 hargs.2.1
  | .div, .cons _ (.cons _ .nil), .cons _ (.cons _ .nil), hargs => exact h.div hargs.1 hargs.2.1
  | .negate, .cons _ .nil, .cons _ .nil, hargs => exact h.neg hargs.1
  | .reciprocalSum _, _, _, hargs => exact h.sumOfReciprocals hargs
  | .harmonicMean _, _, _, hargs =>
      exact h.div (h.natCast _ (by omega)) (h.sumOfReciprocals hargs)

/-- Jets are related when their values and their slopes are. -/
theorem jet (h : Related R) :
    Related fun (J : Jet α) (K : Jet β) => R J.value K.value ∧ R J.slope K.slope where
  add hJ hK := ⟨h.add hJ.1 hK.1, h.add hJ.2 hK.2⟩
  sub hJ hK := ⟨h.sub hJ.1 hK.1, h.sub hJ.2 hK.2⟩
  mul hJ hK := ⟨h.mul hJ.1 hK.1, h.add (h.mul hJ.2 hK.1) (h.mul hJ.1 hK.2)⟩
  div hJ hK := ⟨h.div hJ.1 hK.1,
    h.div (h.sub (h.mul hJ.2 hK.1) (h.mul hJ.1 hK.2)) (h.mul hK.1 hK.1)⟩
  neg hJ := ⟨h.neg hJ.1, h.neg hJ.2⟩
  natCast n hn := ⟨h.natCast n hn, h.natCast 0 (by omega)⟩

theorem derivative (h : Related R) (o : Operator) {as slopes : Tuple α o.arity}
    {bs slopes' : Tuple β o.arity} (hargs : as.Forall₂ R bs) (hslopes : slopes.Forall₂ R slopes') :
    R (o.derivative as slopes) (o.derivative bs slopes') :=
  (h.jet.combine o (hargs.zipWith (fun ha hb => ⟨ha, hb⟩) hslopes)).2

end Related

section

variable {α β : Type} [Arithmetic α] [Arithmetic β]

/-- Carries the primitive operations over. -/
def Hom (f : α → β) : Prop := Related fun a b => f a = b

theorem Hom.of_map {f : α → β} (add : ∀ a b, f (a + b) = f a + f b)
    (sub : ∀ a b, f (a - b) = f a - f b) (mul : ∀ a b, f (a * b) = f a * f b)
    (div : ∀ a b, f (a / b) = f a / f b) (neg : ∀ a, f (-a) = -f a)
    (natCast : ∀ n : Nat, f n = n) : Hom f where
  add := by rintro a b _ _ rfl rfl; exact add a b
  sub := by rintro a b _ _ rfl rfl; exact sub a b
  mul := by rintro a b _ _ rfl rfl; exact mul a b
  div := by rintro a b _ _ rfl rfl; exact div a b
  neg := by rintro a _ rfl; exact neg a
  natCast n _ := natCast n

theorem Hom.sumOfReciprocals {f : α → β} (h : Hom f) {n : Nat} (args : Tuple α (n + 1)) :
    f (Operator.sumOfReciprocals args) = Operator.sumOfReciprocals (args.map f) :=
  Related.sumOfReciprocals h (Tuple.forall₂_map_right.2 fun _ _ => rfl)

theorem Hom.combine {f : α → β} (h : Hom f) (o : Operator) (args : Tuple α o.arity) :
    f (o.combine args) = o.combine (args.map f) :=
  Related.combine h o (Tuple.forall₂_map_right.2 fun _ _ => rfl)

/-- Closed under the primitive operations. -/
def Closed (P : α → Prop) : Prop := Related fun a b => P a ∧ a = b

theorem Closed.combine {P : α → Prop} (h : Closed P) (o : Operator) {args : Tuple α o.arity}
    (hargs : ∀ a ∈ args.toList, P a) : P (o.combine args) := by
  have hself : args.Forall₂ (fun a b => P a ∧ a = b) args := by
    have hmap := Tuple.forall₂_map_right (R := fun a b => P a ∧ a = b) (f := fun a => a) (t := args)
    rw [Tuple.map_id] at hmap
    exact hmap.2 fun a ha => ⟨hargs a ha, rfl⟩
  exact (Related.combine h o hself).1

theorem Closed.slope_combine {P : α → Prop} (h : Closed P) (o : Operator) {γ : Type}
    {f g : γ → α} {args : Tuple γ o.arity} (hargs : ∀ c ∈ args.toList, P (f c) ∧ P (g c)) :
    P (o.combine (args.map fun c => Jet.mk (f c) (g c))).slope :=
  (h.jet.combine o (Tuple.forall₂_map.2 fun c hc =>
    ⟨⟨(hargs c hc).1, rfl⟩, (hargs c hc).2, rfl⟩)).2.1

end

end Arithmetic

namespace Jet

variable {α : Type} [Arithmetic α]

theorem hom_value : Arithmetic.Hom (Jet.value : Jet α → α) :=
  .of_map (fun _ _ => rfl) (fun _ _ => rfl) (fun _ _ => rfl) (fun _ _ => rfl) (fun _ => rfl)
    fun _ => rfl

theorem value_combine {β : Type} (f g : β → α) (o : Operator) (args : Tuple β o.arity) :
    (o.combine (args.map fun b => Jet.mk (f b) (g b))).value = o.combine (args.map f) := by
  rw [hom_value.combine, Tuple.map_map]

end Jet

namespace Expr

/-- A property that passes from the arguments to a primitive operation on them. -/
theorem closed_of_apply {P : Expr → Prop}
    (apply : ∀ o args, o.isComposite = false → (∀ e ∈ args.toList, P e) → P (.apply o args))
    (natCast : ∀ n : Nat, n ≤ 5 → P n) : Arithmetic.Closed P where
  add := by
    rintro a b _ _ ⟨ha, rfl⟩ ⟨hb, rfl⟩
    exact ⟨apply .add _ rfl (Tuple.forall_mem_pair.2 ⟨ha, hb⟩), rfl⟩
  sub := by
    rintro a b _ _ ⟨ha, rfl⟩ ⟨hb, rfl⟩
    exact ⟨apply .sub _ rfl (Tuple.forall_mem_pair.2 ⟨ha, hb⟩), rfl⟩
  mul := by
    rintro a b _ _ ⟨ha, rfl⟩ ⟨hb, rfl⟩
    exact ⟨apply .mul _ rfl (Tuple.forall_mem_pair.2 ⟨ha, hb⟩), rfl⟩
  div := by
    rintro a b _ _ ⟨ha, rfl⟩ ⟨hb, rfl⟩
    exact ⟨apply .div _ rfl (Tuple.forall_mem_pair.2 ⟨ha, hb⟩), rfl⟩
  neg := by
    rintro a _ ⟨ha, rfl⟩
    exact ⟨apply .negate _ rfl (Tuple.forall_mem_single.2 ha), rfl⟩
  natCast n hn := ⟨natCast n hn, rfl⟩

/-- The derivative of an operation is the slope of the operation on jets. -/
theorem derivative_apply_eq_slope (name : String) (o : Operator) (args : Tuple Expr o.arity) :
    derivative name (.apply o args) =
      (o.combine (args.map fun e => Jet.mk e (derivative name e))).slope := by
  rw [derivative_apply, Operator.derivative, Tuple.zipWith_map_right]

/-- Differentiation carries the primitive operations over to jets. -/
theorem hom_derivative (name : String) :
    Arithmetic.Hom fun e : Expr => Jet.mk e (e.derivative name) :=
  .of_map (fun _ _ => rfl) (fun _ _ => rfl) (fun _ _ => rfl) (fun _ _ => rfl) (fun _ => rfl)
    fun _ => rfl

/-- An operation carried out on expressions has the derivative of the operation itself. -/
theorem derivative_combine (name : String) (o : Operator) (args : Tuple Expr o.arity) :
    derivative name (o.combine args) = derivative name (.apply o args) := by
  rw [derivative_apply_eq_slope, ← (hom_derivative name).combine]

variable (p : Variable → Rat)

theorem exact_apply (o : Operator) (args : Tuple Expr o.arity) :
    exact p (.apply o args) = o.combine (args.map (exact p)) :=
  fold_apply ..

theorem hom_exact : Arithmetic.Hom (exact p) :=
  .of_map (fun _ _ => rfl) (fun _ _ => rfl) (fun _ _ => rfl) (fun _ _ => rfl) (fun _ => rfl)
    fun _ => rfl

/-- Differentiating along with the values gives the exact value of the symbolic derivative. -/
theorem exactSlope_eq_exact (name : String) (e : Expr) :
    exactSlope p name e = exact p (derivative name e) := by
  have hjet (e : Expr) : fold (atomJet p name) (fun o _ args => o.combine args) e =
      ⟨exact p e, exact p (derivative name e)⟩ := by
    induction e using induct with
    | atom a =>
        match a with
        | .number n => rfl
        | .variable v =>
            simp only [fold_atom, atomJet, derivative_atom, Atom.derivative]
            split <;> rfl
    | apply o args ih =>
        have hpairs : (args.map fun e => Jet.mk e (derivative name e)).Forall₂
            (fun J K => exact p J.value = K.value ∧ exact p J.slope = K.slope)
            (args.map fun e => Jet.mk (exact p e) (exact p (derivative name e))) :=
          Tuple.forall₂_map.2 fun e _ => ⟨rfl, rfl⟩
        have hslope := ((hom_exact p).jet.combine o hpairs).2
        rw [derivative_apply_eq_slope, hslope, exact_apply, ← Jet.value_combine, fold_apply,
          Tuple.map_congr ih]
  rw [exactSlope, hjet]

end Expr

end Trivar
