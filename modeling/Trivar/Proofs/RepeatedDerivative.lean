import Trivar.Proofs.BracketedRoundTrip
import Trivar.Proofs.Construction
import Trivar.Proofs.FlatRoundTrip
import Trivar.Proofs.Memoisation
import Trivar.Source

/-!
Differentiating again and again. One step passes every property of leaves on
that the integers up to five have (`forall_leaves_derivative`), so any number of
steps does. Two such properties matter: to be a leaf of the first expression, or
a small constant; and to be plain, that is what the readers of all notations
accept. Whatever was read is plain, so all its derivatives can be rendered and
read again.
-/

namespace Trivar

/-! ### What was read is plain -/

theorem Lexeme.Spells.plain {lexeme : Lexeme} {a : Atom} (h : lexeme.Spells (.leaf a)) :
    a.Plain := by
  cases h with
  | «variable» v => exact ⟨rfl, rfl, Nat.zero_le _⟩
  | @numeral text n hnumeral hlength =>
      have hsign : ¬ (n : Int) < 0 := by omega
      rw [← String.length_toList] at hlength
      exact ⟨rfl, decide_eq_false hsign, hnumeral.length_toDigits_le.trans hlength⟩

theorem Atom.plain_small (k : Nat) (hk : k ≤ 5) : Atom.Plain (.number (.int k)) := by
  revert k
  unfold Atom.Plain
  decide

theorem Bracketed.plain_of_parse {placement : Placement} {text : String} {e : Expr}
    (h : parse placement text = .ok e) : ∀ a ∈ e.leaves, a.Plain := by
  obtain ⟨tokens, -, hspell⟩ := parse_eq_ok_iff.1 h
  intro a ha
  obtain ⟨t, hspells⟩ := exists_of_forall₂ hspell.flip _ (Expr.leaf_mem_terminals.2 ha)
  exact hspells.plain

/-- An expression of plain leaves is read back in every notation. -/
theorem Form.parse_text {e : Expr} (h : ∀ a ∈ e.leaves, a.Plain) (form : Form) :
    form.parse (e.text form) = .ok e := by
  have hintegral : e.Integral := fun a ha => (h a ha).1
  have hshort : e.Short := fun a ha => (h a ha).2.2
  cases form with
  | bracketed placement =>
      exact Bracketed.parse_bracketedText hintegral (fun a ha => (h a ha).2.1) hshort
  | flat =>
      change Flat.parseExpr e.flatText = .ok e
      rw [Flat.parseExpr_of_writes (Flat.writes_flatText hintegral),
        (Flat.firstLong?_flatText hintegral).2 hshort]

/-! ### One derivative after the other -/

namespace Expr

def repeatedDerivative (e : Expr) (names : List String) : Expr :=
  names.foldl (fun e name => e.derivative name) e

variable {e : Expr} (names : List String)

theorem forall_leaves_repeatedDerivative {P : Atom → Prop}
    (hP : ∀ n : Nat, n ≤ 5 → P (.number (.int n))) (he : ∀ a ∈ e.leaves, P a) :
    ∀ a ∈ (e.repeatedDerivative names).leaves, P a := by
  induction names generalizing e with
  | nil => exact he
  | cons name names ih => exact ih (forall_leaves_derivative hP name he)

/-- Repeated differentiation adds no leaves but small constants. -/
theorem mem_leaves_repeatedDerivative {a : Atom} (ha : a ∈ (e.repeatedDerivative names).leaves) :
    a ∈ e.leaves ∨ ∃ k : Nat, k ≤ 5 ∧ a = .number (.int k) := by
  refine forall_leaves_repeatedDerivative
    (P := fun a => a ∈ e.leaves ∨ ∃ k : Nat, k ≤ 5 ∧ a = .number (.int k)) names ?_ ?_ a ha
  · exact fun k hk => .inr ⟨k, hk, rfl⟩
  · exact fun b hb => .inl hb

theorem foldlM_check_rawDerivative (e : Expr) :
    names.foldlM (fun e name => (e.rawDerivative name).check) e =
      .ok (e.repeatedDerivative names) := by
  induction names generalizing e with
  | nil => rfl
  | cons name names ih =>
      rw [List.foldlM_cons, rawDerivative_eq, check_raw]
      exact ih (e.derivative name)

theorem foldlM_differentiate {g : Graph} {i : Nat} (hg : g.Consistent) (hi : i < g.nodes.size) :
    ∃ result : Graph × Nat,
      names.foldlM (fun found name => found.1.differentiate name found.2) (g, i) = some result ∧
        result.1.expr result.2 = (g.expr i).repeatedDerivative names := by
  induction names generalizing g i with
  | nil => exact ⟨(g, i), rfl, rfl⟩
  | cons name names ih =>
      obtain ⟨next, hnext, hadds⟩ := Graph.adds_differentiate hg hi name
      obtain ⟨result, hresult, hexpr⟩ := ih hadds.consistent hadds.lt
      refine ⟨result, ?_, ?_⟩
      · rw [List.foldlM_cons, hnext]
        exact hresult
      · rw [hexpr, hadds.expr]
        rfl

/-- Repeated derivatives are well formed and readable, along any list of names. Checking what the
rules write never fails, nor does a graph, whatever nodes its expressions share; and if the first
expression was read from bracketed notation, its derivatives are read back in every notation. -/
theorem repeatedDerivative_wellFormed (e : Expr) (names : List String) :
    let d := e.repeatedDerivative names
    names.foldlM (fun e name => (e.rawDerivative name).check) e = .ok d ∧
    (∀ (g : Graph) (i : Nat), g.Reachable → i < g.nodes.size → g.expr i = e →
      ∃ result : Graph × Nat,
        names.foldlM (fun found name => found.1.differentiate name found.2) (g, i) = some result ∧
          result.1.expr result.2 = d) ∧
    (∀ f ∈ d.subtrees, f.raw.Valid ∧ f.rawExpansion.Valid ∧
      f.rawExpansion.check = .ok f.expansion) ∧
    (∀ v ∈ d.freeVariables, v ∈ e.freeVariables) ∧
    (∀ n, .number n ∈ d.leaves → .number n ∈ e.leaves ∨ ∃ k : Nat, k ≤ 5 ∧ n = .int k) ∧
    ∀ placement text, Bracketed.parse placement text = .ok e →
      ∀ form : Form, form.parse (d.text form) = .ok d := by
  intro d
  refine ⟨foldlM_check_rawDerivative names e, ?_, ?_, ?_, ?_, ?_⟩
  · rintro g i hg hi rfl
    exact foldlM_differentiate names hg.consistent hi
  · intro f _
    rw [rawExpansion_eq]
    exact ⟨valid_raw f, valid_raw f.expansion, check_raw f.expansion⟩
  · intro v hv
    rw [mem_freeVariables] at hv ⊢
    obtain hleaf | ⟨k, -, hk⟩ := mem_leaves_repeatedDerivative names hv
    · exact hleaf
    · cases hk
  · intro n hn
    obtain hleaf | ⟨k, hk, hnumber⟩ := mem_leaves_repeatedDerivative names hn
    · exact .inl hleaf
    · exact .inr ⟨k, hk, Atom.number.inj hnumber⟩
  · intro placement text hparse
    exact Form.parse_text
      (forall_leaves_repeatedDerivative names Atom.plain_small (Bracketed.plain_of_parse hparse))

/-- A harmonic mean with the literal twelve, along `x`, along a name that no variable has, and along
`y`. -/
theorem repeatedDerivative_harmonicMean :
    let g := (((Graph.empty.insert (.atom (.variable .x))).1.insert
      (.atom (.number (.int 12)))).1.insert (.apply (.harmonicMean 0) (.cons 0 (.cons 1 .nil)))).1
    let e : Expr := .apply (.harmonicMean 0)
      (.cons (.atom (.variable .x)) (.cons (.integer 12) .nil))
    let d := e.repeatedDerivative ["x", "q", "y"]
    g.Reachable ∧ 2 < g.nodes.size ∧ g.expr 2 = e ∧
      Bracketed.parse .last "(x 012 hmean2)" = .ok e ∧
      (∃ result : Graph × Nat, ["x", "q", "y"].foldlM
          (fun found name => found.1.differentiate name found.2) (g, 2) = some result ∧
        result.1.expr result.2 = d) ∧
      ∀ form : Form, form.parse (d.text form) = .ok d := by
  intro g e d
  have hg : g.Reachable := by
    refine .insert (.insert (.insert .empty trivial) trivial) ?_
    decide
  have hlt : 2 < g.nodes.size := by decide
  have hx : g.expr 0 = .atom (.variable .x) := Graph.expr_of_atom rfl
  have htwelve : g.expr 1 = .integer 12 := Graph.expr_of_atom rfl
  have hexpr : g.expr 2 = e := by
    rw [Graph.expr_of_apply rfl (by decide), Tuple.map, Tuple.map, Tuple.map, hx, htwelve]
  have hnumeral : Text.Numeral "012".toList 12 :=
    Text.numeral_of_all (by decide) (by decide +kernel) (by decide +kernel)
  have hparse : Bracketed.parse .last "(x 012 hmean2)" = .ok e :=
    Bracketed.parse_eq_ok_iff.2 ⟨[⟨.opening, 0⟩, ⟨.variable .x, 1⟩, ⟨.digits "012", 3⟩,
      ⟨.operator (.harmonicMean 0), 7⟩, ⟨.closing, 13⟩], by decide +kernel,
      .cons .opening (.cons (.variable .x) (.cons (.numeral hnumeral (by decide))
        (.cons (.operator _) (.cons .closing .nil))))⟩
  obtain ⟨-, hgraph, -, -, -, hread⟩ := repeatedDerivative_wellFormed e ["x", "q", "y"]
  exact ⟨hg, hlt, hexpr, hparse, hgraph g 2 hg hlt hexpr, hread .last _ hparse⟩

end Expr

end Trivar
