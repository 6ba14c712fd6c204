import Trivar.Proofs.Construction

/-!
What the check of a raw tree reports. A node has a fault of its own, whatever its
arguments are, if its name is not that of a variable, if its symbol is not that
of an operation, or if it has not as many arguments as the operation takes. A
tree in which no node has a fault is that of an expression; in every other tree
the first fault in post-order is what the check reports (`check_cases`).

A raw tree that is written down as a tuple is constructed exactly if it passes
the check, and otherwise the fault is the same (`construct_item`).
-/

namespace Trivar

namespace Raw

mutual

theorem induct {P : Raw → Prop} (number : ∀ n, P (.number n))
    («variable» : ∀ name, P (.variable name))
    (operation : ∀ symbol args, (∀ a ∈ args, P a) → P (.operation symbol args)) : ∀ r, P r
  | .number n => number n
  | .variable name => «variable» name
  | .operation symbol args => operation symbol args (inductEach number «variable» operation args)

theorem inductEach {P : Raw → Prop} (number : ∀ n, P (.number n))
    («variable» : ∀ name, P (.variable name))
    (operation : ∀ symbol args, (∀ a ∈ args, P a) → P (.operation symbol args)) :
    ∀ args : List Raw, ∀ a ∈ args, P a
  | [], _, h => nomatch h
  | r :: rs, _, h =>
    (List.mem_cons.1 h).elim (fun h => h ▸ induct number «variable» operation r)
      (inductEach number «variable» operation rs _)

end

mutual

/-- The tree itself and all trees inside it, in post-order. -/
def subtrees : Raw → List Raw
  | .number n => [.number n]
  | .variable name => [.variable name]
  | .operation symbol args => subtreesEach args ++ [.operation symbol args]

def subtreesEach : List Raw → List Raw
  | [] => []
  | r :: rs => subtrees r ++ subtreesEach rs

end

/-- What is wrong with the root. -/
def fault? : Raw → Option Fault
  | .number _ => none
  | .variable name =>
    match Variable.ofName? name with
    | none => some (.invalidVariableName name)
    | some _ => none
  | .operation symbol args =>
    match Operator.ofSymbol? symbol with
    | none => some (.unknownOperation symbol)
    | some o =>
      if args.length = o.arity then none
      else some (.arityMismatch symbol o.arity args.length)

def firstFault? (r : Raw) : Option Fault := r.subtrees.findSome? fault?

theorem findSome?_subtreesEach (rs : List Raw) :
    (subtreesEach rs).findSome? fault? = rs.findSome? firstFault? := by
  induction rs with
  | nil => rfl
  | cons r rs ih =>
      rw [subtreesEach, List.findSome?_append, ih, List.findSome?_cons, firstFault?]
      cases r.subtrees.findSome? fault? <;> rfl

/-- An operation is blamed only if none of its arguments is. -/
theorem firstFault?_operation (symbol : String) (args : List Raw) :
    firstFault? (.operation symbol args) =
      (args.findSome? firstFault?).or (fault? (.operation symbol args)) := by
  rw [firstFault?, subtrees, List.findSome?_append, findSome?_subtreesEach,
    List.findSome?_singleton]

theorem checkOperation_cases (symbol : String) (es : List Expr) :
    (fault? (.operation symbol (es.map Expr.raw)) = none ∧
      ∃ e : Expr, Raw.operation symbol (es.map Expr.raw) = e.raw) ∨
    ∃ f, fault? (.operation symbol (es.map Expr.raw)) = some f ∧
      checkOperation symbol es = .error ⟨f, none⟩ := by
  rw [fault?, checkOperation]
  cases hsymbol : Operator.ofSymbol? symbol with
  | none => exact .inr ⟨_, rfl, rfl⟩
  | some o =>
      obtain rfl := Operator.ofSymbol?_eq_some_iff.1 hsymbol
      cases htuple : Tuple.ofList? o.arity es with
      | none =>
          have hlength := Tuple.ofList?_eq_none_iff.1 htuple
          rw [List.length_map]
          exact .inr ⟨_, if_neg hlength, by simp only [htuple]⟩
      | some args =>
          rw [Tuple.ofList?_eq_some_iff] at htuple
          subst htuple
          exact .inl ⟨by simp, .apply o args, (Expr.raw_apply o args).symm⟩

theorem checkEach_cases {rs : List Raw}
    (h : ∀ r ∈ rs, (firstFault? r = none ∧ ∃ e : Expr, r = e.raw) ∨
      ∃ f, firstFault? r = some f ∧ r.check = .error ⟨f, none⟩) :
    (rs.findSome? firstFault? = none ∧ ∃ es : List Expr, rs = es.map Expr.raw) ∨
      ∃ f, rs.findSome? firstFault? = some f ∧ checkEach rs = .error ⟨f, none⟩ := by
  induction rs with
  | nil => exact .inl ⟨rfl, [], rfl⟩
  | cons r rs ih =>
      obtain ⟨hr, hrs⟩ := List.forall_mem_cons.1 h
      rw [List.findSome?_cons, checkEach]
      obtain ⟨hnone, e, rfl⟩ | ⟨f, hf, herror⟩ := hr
      · rw [hnone, Expr.check_raw, Outcome.ok_bind]
        obtain ⟨hnones, es, rfl⟩ | ⟨f, hf, herror⟩ := ih hrs
        · exact .inl ⟨hnones, e :: es, rfl⟩
        · exact .inr ⟨f, hf, by rw [herror, Outcome.error_bind]⟩
      · exact .inr ⟨f, by rw [hf], by rw [herror, Outcome.error_bind]⟩

/-- Either no node has a fault and the tree is that of an expression, or the first fault is
reported. -/
theorem check_cases (r : Raw) :
    (firstFault? r = none ∧ ∃ e : Expr, r = e.raw) ∨
      ∃ f, firstFault? r = some f ∧ r.check = .error ⟨f, none⟩ := by
  induction r using induct with
  | number n => exact .inl ⟨rfl, .atom (.number n), rfl⟩
  | «variable» name =>
      rw [firstFault?, subtrees, List.findSome?_singleton, fault?, check, checkVariable]
      cases hname : Variable.ofName? name with
      | none => exact .inr ⟨_, rfl, rfl⟩
      | some v =>
          obtain rfl := Variable.ofName?_eq_some_iff.1 hname
          exact .inl ⟨rfl, .atom (.variable v), rfl⟩
  | operation symbol args ih =>
      rw [firstFault?_operation, check]
      obtain ⟨hnone, es, rfl⟩ | ⟨f, hf, herror⟩ := checkEach_cases ih
      · rw [hnone, Expr.checkEach_raw fun e _ => e.check_raw, Outcome.ok_bind, Option.none_or]
        obtain hvalid | ⟨f, hf, herror⟩ := checkOperation_cases symbol es
        · exact .inl hvalid
        · exact .inr ⟨f, hf, by rw [herror, Outcome.error_bind]⟩
      · exact .inr ⟨f, by rw [hf, Option.some_or], by rw [herror, Outcome.error_bind]⟩

theorem check_eq_ok_iff {r : Raw} {e : Expr} : r.check = .ok e ↔ r = e.raw := by
  constructor
  · intro h
    obtain ⟨-, e', rfl⟩ | ⟨f, -, herror⟩ := check_cases r
    · rw [Expr.check_raw] at h
      rw [Except.ok.inj h]
    · rw [h] at herror
      cases herror
  · rintro rfl
    exact e.check_raw

theorem check_eq_error_iff {r : Raw} {err : ParseError} :
    r.check = .error err ↔ ∃ f, firstFault? r = some f ∧ err = ⟨f, none⟩ := by
  constructor
  · intro h
    obtain ⟨-, e, rfl⟩ | ⟨f, hf, herror⟩ := check_cases r
    · rw [Expr.check_raw] at h
      cases h
    · rw [h] at herror
      exact ⟨f, hf, Except.error.inj herror⟩
  · rintro ⟨f, hf, rfl⟩
    obtain ⟨hnone, -⟩ | ⟨f', hf', herror⟩ := check_cases r
    · rw [hf] at hnone
      cases hnone
    · rw [hf] at hf'
      rw [herror, Option.some.inj hf']

theorem firstFault?_of_valid {r : Raw} (h : r.Valid) : firstFault? r = none := by
  induction h with
  | number n => rfl
  | «variable» hname =>
      rw [firstFault?, subtrees, List.findSome?_singleton, fault?, hname]
  | operation hsymbol hlength _ ih =>
      rw [firstFault?_operation, List.findSome?_eq_none_iff.2 ih, Option.none_or, fault?, hsymbol]
      exact if_pos hlength

theorem valid_iff {r : Raw} : r.Valid ↔ ∃ e : Expr, r = e.raw := by
  constructor
  · intro h
    obtain ⟨-, he⟩ | ⟨f, hf, -⟩ := check_cases r
    · exact he
    · rw [firstFault?_of_valid h] at hf
      cases hf
  · rintro ⟨e, rfl⟩
    exact e.valid_raw

/-- A raw tree is checked successfully exactly if all of it is valid, and the expression has the
structure that was given. In all other cases the fault reported is that of the first node in
post-order that has one. -/
theorem check_reports_first_fault (r : Raw) :
    ((∃ e, r.check = .ok e) ↔ r.Valid) ∧ (∀ e, r.check = .ok e ↔ r = e.raw) ∧
      ∀ err, r.check = .error err ↔
        ∃ f, r.subtrees.findSome? fault? = some f ∧ err = ⟨f, none⟩ := by
  refine ⟨?_, fun e => check_eq_ok_iff, fun err => check_eq_error_iff⟩
  rw [valid_iff]
  exact exists_congr fun e => check_eq_ok_iff

/-- The unknown symbol is not reached, and the sum is not either. -/
example : (operation "+" [operation "negate" [], .variable "?", operation "?" []]).check =
    .error ⟨.arityMismatch "negate" 1 0, none⟩ := by rfl

end Raw

/-! ### Trees as tuples -/

namespace Raw

mutual

/-- The tuple of the node form, those of the arguments inside it. -/
def item : Raw → Item
  | .number n => .tuple [.text Tag.number.text, .number n]
  | .variable name => .tuple [.text Tag.variable.text, .text name]
  | .operation symbol args =>
    .tuple [.text Tag.operation.text, .text symbol, .tuple (items args)]

def items : List Raw → List Item
  | [] => []
  | r :: rs => item r :: items rs

end

end Raw

def Atom.item : Atom → Item
  | .number n => .node (some .number) [.text Tag.number.text, .number n]
  | .variable v => .node (some .variable) [.text Tag.variable.text, .text v.name]

def Expr.item : Expr → Item :=
  fold Atom.item fun o _ args =>
    .node (some .operation) [.text Tag.operation.text, .text o.symbol, .node none args.toList]

theorem Expr.item_apply (o : Operator) (args : Tuple Expr o.arity) :
    item (.apply o args) = .node (some .operation)
      [.text Tag.operation.text, .text o.symbol, .node none (args.toList.map item)] := by
  rw [item, fold_apply, Tuple.toList_map]

namespace Item

def Failure.ofParseError (err : ParseError) : Failure := .fault err.fault

def ofOutcome (x : Except ParseError Expr) : Except Failure Item :=
  (x.map Expr.item).mapError Failure.ofParseError

/-- Expressions in a row are no node form, since the first one is no text. -/
theorem assemble_items (es : List Expr) :
    assemble (es.map Expr.item) = .ok (.node none (es.map Expr.item)) := by
  match es with
  | [] => rfl
  | .atom (.number n) :: es | .atom (.variable v) :: es | .apply o args :: es => rfl

theorem constructEach_items {rs : List Raw}
    (h : ∀ r ∈ rs, construct r.item = ofOutcome r.check) :
    constructEach (Raw.items rs) =
      ((Raw.checkEach rs).map (·.map Expr.item)).mapError Failure.ofParseError := by
  induction rs with
  | nil => rfl
  | cons r rs ih =>
      obtain ⟨hr, hrs⟩ := List.forall_mem_cons.1 h
      rw [Raw.items, constructEach, hr, ih hrs, Raw.checkEach]
      cases r.check with
      | error err => rfl
      | ok e => cases Raw.checkEach rs <;> rfl

theorem assemble_operation (symbol : String) (es : List Expr) :
    assemble [.text Tag.operation.text, .text symbol, .node none (es.map Expr.item)] =
      ofOutcome (checkOperation symbol es >>= fun ⟨o, args⟩ => .ok (.apply o args)) := by
  rw [assemble, Tag.ofText?_text, checkOperation]
  simp only [validate, length?, List.length_map]
  cases hsymbol : Operator.ofSymbol? symbol with
  | none => rfl
  | some o =>
      obtain rfl := Operator.ofSymbol?_eq_some_iff.1 hsymbol
      cases htuple : Tuple.ofList? o.arity es with
      | none =>
          have hlength := Tuple.ofList?_eq_none_iff.1 htuple
          simp only [htuple, if_neg hlength]
          rfl
      | some args =>
          rw [Tuple.ofList?_eq_some_iff] at htuple
          subst htuple
          simp only [Tuple.ofList?_toList, Tuple.length_toList, if_true, ← Expr.item_apply]
          rfl

/-- The constructor and the check agree on the three node forms. -/
theorem construct_item (r : Raw) : construct r.item = ofOutcome r.check := by
  induction r using Raw.induct with
  | number n => rfl
  | «variable» name =>
      change assemble [.text Tag.variable.text, .text name] = _
      rw [assemble, Tag.ofText?_text, Raw.check, checkVariable]
      simp only [validate]
      cases hname : Variable.ofName? name with
      | none => rfl
      | some v =>
          obtain rfl := Variable.ofName?_eq_some_iff.1 hname
          rfl
  | operation symbol args ih =>
      -- The two texts stay what they are, so only the tuple of the arguments is constructed first.
      have htuple : construct (Raw.operation symbol args).item =
          construct (.tuple (Raw.items args)) >>= fun found =>
            assemble [.text Tag.operation.text, .text symbol, found] := by
        rw [Raw.item, construct, constructEach, constructEach, constructEach, constructEach]
        cases construct (.tuple (Raw.items args)) <;> rfl
      rw [htuple, construct, constructEach_items ih, Raw.check]
      cases Raw.checkEach args with
      | error err => rfl
      | ok es =>
          change assemble (es.map Expr.item) >>= _ = ofOutcome (checkOperation symbol es >>= _)
          rw [assemble_items]
          exact assemble_operation symbol es

end Item

end Trivar
