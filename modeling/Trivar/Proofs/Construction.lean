import Trivar.Expr.Raw
import Trivar.Proofs.Arithmetic
import Trivar.Proofs.Outcome

/-!
Writing trees down and checking them. The rules of differentiation and the
expansions of composite operations are carried out on raw trees, too: there
they write symbols and lists of arguments, which nothing keeps from being
wrong. What they write has the structure of the expression that they make
(`rawDerivative_eq`, `rawExpansion_eq`), so it is valid and passes the check
(`valid_raw`, `check_raw`).
-/

namespace Trivar

namespace Raw

/-- Every symbol is that of an operation with as many arguments as there are, and every name is
that of a variable. -/
inductive Valid : Raw → Prop
  | number (n : Number) : Valid (.number n)
  | variable {name : String} {v : Variable} : Variable.ofName? name = some v →
      Valid (.variable name)
  | operation {symbol : String} {args : List Raw} {o : Operator} :
      Operator.ofSymbol? symbol = some o → args.length = o.arity → (∀ a ∈ args, Valid a) →
      Valid (.operation symbol args)

instance : Arithmetic Raw where
  add a b := .operation "+" [a, b]
  sub a b := .operation "-" [a, b]
  mul a b := .operation "*" [a, b]
  div a b := .operation "/" [a, b]
  neg a := .operation "negate" [a]
  natCast n := .number (.int n)

end Raw

def Atom.raw : Atom → Raw
  | .number n => .number n
  | .variable v => .variable v.name

namespace Expr

/-- The raw tree of the same structure. -/
def raw : Expr → Raw := fold Atom.raw fun o _ args => .operation o.symbol args.toList

@[simp] theorem raw_atom (a : Atom) : raw (.atom a) = a.raw := rfl

@[simp] theorem raw_apply (o : Operator) (args : Tuple Expr o.arity) :
    raw (.apply o args) = .operation o.symbol (args.toList.map raw) := by
  rw [raw, fold_apply, Tuple.toList_map]

theorem valid_raw (e : Expr) : e.raw.Valid := by
  induction e using induct with
  | atom a =>
      cases a with
      | number n => exact .number n
      | «variable» v => exact .variable (Variable.ofName?_eq_some_iff.2 rfl)
  | apply o args ih =>
      rw [raw_apply]
      refine .operation (Operator.ofSymbol?_eq_some_iff.2 rfl) ?_ (List.forall_mem_map.2 ih)
      rw [List.length_map, Tuple.length_toList]

theorem checkOperation_symbol {α : Type} (o : Operator) (args : Tuple α o.arity) :
    checkOperation o.symbol args.toList = .ok ⟨o, args⟩ := by
  rw [checkOperation, Operator.ofSymbol?_eq_some_iff.2 rfl]
  simp only [Tuple.ofList?_toList]

theorem checkEach_raw {es : List Expr} (h : ∀ e ∈ es, e.raw.check = .ok e) :
    Raw.checkEach (es.map raw) = .ok es := by
  induction es with
  | nil => rfl
  | cons e es ih =>
      obtain ⟨he, hes⟩ := List.forall_mem_cons.1 h
      rw [List.map_cons, Raw.checkEach, he, ih hes]
      rfl

/-- Checking gives an expression back. -/
theorem check_raw (e : Expr) : e.raw.check = .ok e := by
  induction e using induct with
  | atom a =>
      cases a with
      | number n => rfl
      | «variable» v =>
          rw [raw_atom, Atom.raw, Raw.check, checkVariable, Variable.ofName?_eq_some_iff.2 rfl]
          rfl
  | apply o args ih =>
      rw [raw_apply, Raw.check, checkEach_raw ih, Outcome.ok_bind, checkOperation_symbol]
      rfl

/-! ### What the rules write -/

theorem hom_raw : Arithmetic.Hom raw :=
  .of_map (fun _ _ => rfl) (fun _ _ => rfl) (fun _ _ => rfl) (fun _ _ => rfl) (fun _ => rfl)
    fun _ => rfl

/-- The derivative as the rules write it down. -/
def rawDerivative (name : String) : Expr → Raw :=
  fold (fun a => (a.derivative name).raw) fun o args slopes => o.derivative (args.map raw) slopes

theorem rawDerivative_eq (name : String) (e : Expr) :
    e.rawDerivative name = (e.derivative name).raw := by
  induction e using induct with
  | atom a => rfl
  | apply o args ih =>
      have hargs : args.Forall₂ (fun e r => e.raw = r) (args.map raw) :=
        Tuple.forall₂_map_right.2 fun _ _ => rfl
      have hslopes : (args.map (derivative name)).Forall₂ (fun e r => e.raw = r)
          (args.map (rawDerivative name)) :=
        Tuple.forall₂_map.2 fun e he => (ih e he).symm
      rw [derivative_apply, Arithmetic.Related.derivative hom_raw o hargs hslopes]
      exact fold_apply ..

/-- The expansion as it is written down. -/
def rawExpansion : Expr → Raw
  | .atom a => a.raw
  | .apply o args =>
    if o.isComposite then o.combine (args.map raw) else .operation o.symbol (args.toList.map raw)

theorem rawExpansion_eq (e : Expr) : e.rawExpansion = e.expansion.raw := by
  cases e with
  | atom a => rfl
  | apply o args =>
      rw [rawExpansion, expansion]
      split
      · rw [hom_raw.combine]
      · rw [raw_apply]

end Expr

end Trivar
