import Mathlib.Data.List.Forall2
import Trivar.Expr.Text
import Trivar.Flat
import Trivar.Proofs.Leaves
import Trivar.Proofs.Numeral
import Trivar.Token

/-!
The grammar of the three notations. In each of them an expression has exactly
one sentence, a list of terminals: brackets, operations and leaves in the order
in which they are written. A token of bracketed notation and a word of flat
notation may spell a terminal in several ways, since a number has many numerals.
-/

namespace Trivar

inductive Terminal
  | opening
  | closing
  | operator (o : Operator)
  | leaf (a : Atom)
  deriving DecidableEq

/-- The sentence of an operation whose arguments have the sentences `inner`, one after the
other. -/
def Form.enclose : Form → Operator → List Terminal → List Terminal
  | .bracketed .first, o, inner => .opening :: .operator o :: (inner ++ [.closing])
  | .bracketed .last, o, inner => .opening :: (inner ++ [.operator o, .closing])
  | .flat, o, inner => inner ++ [.operator o]

theorem Form.enclose_ne_nil (form : Form) (o : Operator) (inner : List Terminal) :
    form.enclose o inner ≠ [] := by
  cases form with
  | bracketed placement => cases placement <;> simp [enclose]
  | flat => simp [enclose]

theorem Form.leaf_mem_enclose {form : Form} {o : Operator} {inner : List Terminal} {a : Atom} :
    .leaf a ∈ form.enclose o inner ↔ .leaf a ∈ inner := by
  cases form with
  | bracketed placement => cases placement <;> simp [enclose]
  | flat => simp [enclose]

namespace Expr

def terminals (form : Form) : Expr → List Terminal :=
  fold (fun a => [.leaf a]) fun o _ parts => form.enclose o parts.toList.flatten

@[simp] theorem terminals_atom (form : Form) (a : Atom) : terminals form (.atom a) = [.leaf a] :=
  rfl

@[simp] theorem terminals_apply (form : Form) (o : Operator) (args : Tuple Expr o.arity) :
    terminals form (.apply o args) = form.enclose o (args.toList.flatMap (terminals form)) := by
  rw [terminals, fold_apply, Tuple.toList_map, List.flatMap_def]

theorem terminals_ne_nil (form : Form) (e : Expr) : terminals form e ≠ [] := by
  cases e with
  | atom a => simp
  | apply o args =>
      rw [terminals_apply]
      exact Form.enclose_ne_nil form o _

theorem leaf_mem_terminals {form : Form} {a : Atom} {e : Expr} :
    .leaf a ∈ e.terminals form ↔ a ∈ e.leaves := by
  induction e using induct with
  | atom b => simp
  | apply o args ih =>
      rw [terminals_apply, Form.leaf_mem_enclose, leaves_apply, List.mem_flatMap, List.mem_flatMap]
      exact exists_congr fun e => and_congr_right fun he => ih e he

end Expr

/-- What a token may stand for. A number has at most so many digits. -/
inductive Lexeme.Spells : Lexeme → Terminal → Prop
  | opening : Spells .opening .opening
  | closing : Spells .closing .closing
  | operator (o : Operator) : Spells (.operator o) (.operator o)
  | variable (v : Variable) : Spells (.variable v) (.leaf (.variable v))
  | numeral {text : String} {n : Nat} : Text.Numeral text.toList n →
      text.length ≤ maxLiteralDigits → Spells (.digits text) (.leaf (.number (.int n)))

/-- The digits of a lexeme, if it has any, are a numeral. -/
def Lexeme.WellFormed : Lexeme → Prop
  | .digits text => ∃ n, Text.Numeral text.toList n
  | _ => True

theorem Lexeme.Spells.wellFormed {lexeme : Lexeme} {terminal : Terminal}
    (h : lexeme.Spells terminal) : lexeme.WellFormed := by
  cases h with
  | numeral hnumeral => exact ⟨_, hnumeral⟩
  | _ => trivial

/-- A token of digits spells the number that is read from it. -/
theorem Lexeme.spells_digits_iff {text : String} (h : WellFormed (.digits text)) {n : Int} :
    Spells (.digits text) (.leaf (.number (.int n))) ↔ Literal.read text = .ok n := by
  obtain ⟨m, hnumeral⟩ := h
  have hread := Literal.read_numeral hnumeral
  rw [String.ofList_toList, String.length_toList] at hread
  rw [hread]
  constructor
  · rintro (_ | _ | _ | _ | ⟨hspelled, hlength⟩)
    rw [if_neg (by omega), ← hspelled.value, ← hnumeral.value]
  · intro h
    split at h
    · cases h
    · cases h
      exact .numeral hnumeral (by omega)

theorem forall₂_append_right_iff {α β : Type} {R : α → β → Prop} {as : List α}
    {first second : List β} :
    List.Forall₂ R as (first ++ second) ↔
      ∃ before after, as = before ++ after ∧ List.Forall₂ R before first ∧
        List.Forall₂ R after second := by
  constructor
  · intro h
    exact ⟨_, _, (List.take_append_drop first.length as).symm,
      List.forall₂_take_append as first second h, List.forall₂_drop_append as first second h⟩
  · rintro ⟨before, after, rfl, hbefore, hafter⟩
    exact List.rel_append hbefore hafter

theorem exists_of_forall₂ {α β : Type} {R : α → β → Prop} {as : List α} {bs : List β}
    (h : List.Forall₂ R as bs) : ∀ a ∈ as, ∃ b, R a b := by
  induction h with
  | nil => exact List.forall_mem_nil _
  | @cons a b _ _ hab _ ih => exact List.forall_mem_cons.2 ⟨⟨b, hab⟩, ih⟩

/-- Tokens that spell a sentence, one for each terminal. -/
def Token.Spell (tokens : List Token) (sentence : List Terminal) : Prop :=
  List.Forall₂ (fun t terminal => t.lexeme.Spells terminal) tokens sentence

namespace Token

theorem spell_cons {tokens : List Token} {terminal : Terminal} {sentence : List Terminal} :
    Spell tokens (terminal :: sentence) ↔
      ∃ t rest, t.lexeme.Spells terminal ∧ Spell rest sentence ∧ tokens = t :: rest :=
  List.forall₂_cons_right_iff

theorem spell_append {tokens : List Token} {first second : List Terminal} :
    Spell tokens (first ++ second) ↔
      ∃ before after, tokens = before ++ after ∧ Spell before first ∧ Spell after second :=
  forall₂_append_right_iff

theorem Spell.wellFormed {tokens : List Token} {sentence : List Terminal}
    (h : Spell tokens sentence) : ∀ t ∈ tokens, t.lexeme.WellFormed := by
  intro t ht
  obtain ⟨terminal, hspells⟩ := exists_of_forall₂ h t ht
  exact hspells.wellFormed

theorem eq_of_spells_opening {t : Token} (h : t.lexeme.Spells .opening) :
    ∃ p, t = ⟨.opening, p⟩ := by
  obtain ⟨lexeme, p⟩ := t
  cases h
  exact ⟨p, rfl⟩

theorem eq_of_spells_closing {t : Token} (h : t.lexeme.Spells .closing) :
    ∃ p, t = ⟨.closing, p⟩ := by
  obtain ⟨lexeme, p⟩ := t
  cases h
  exact ⟨p, rfl⟩

theorem eq_of_spells_operator {t : Token} {o : Operator} (h : t.lexeme.Spells (.operator o)) :
    ∃ p, t = ⟨.operator o, p⟩ := by
  obtain ⟨lexeme, p⟩ := t
  cases h
  exact ⟨p, rfl⟩

theorem spell_enclose_first {tokens : List Token} {o : Operator} {inner : List Terminal}
    (h : Spell tokens (Form.enclose (.bracketed .first) o inner)) :
    ∃ p q r between, tokens = ⟨.opening, p⟩ :: ⟨.operator o, q⟩ :: (between ++ [⟨.closing, r⟩]) ∧
      Spell between inner := by
  obtain ⟨t, _, ht, h₁, rfl⟩ := spell_cons.1 h
  obtain ⟨u, _, hu, h₂, rfl⟩ := spell_cons.1 h₁
  obtain ⟨between, _, rfl, hbetween, h₃⟩ := spell_append.1 h₂
  obtain ⟨w, _, hw, hnil, rfl⟩ := spell_cons.1 h₃
  obtain ⟨p, rfl⟩ := eq_of_spells_opening ht
  obtain ⟨q, rfl⟩ := eq_of_spells_operator hu
  obtain ⟨r, rfl⟩ := eq_of_spells_closing hw
  cases hnil
  exact ⟨p, q, r, between, rfl, hbetween⟩

theorem spell_enclose_last {tokens : List Token} {o : Operator} {inner : List Terminal}
    (h : Spell tokens (Form.enclose (.bracketed .last) o inner)) :
    ∃ p q r between, tokens = ⟨.opening, p⟩ :: (between ++ [⟨.operator o, q⟩, ⟨.closing, r⟩]) ∧
      Spell between inner := by
  obtain ⟨t, _, ht, h₁, rfl⟩ := spell_cons.1 h
  obtain ⟨between, _, rfl, hbetween, h₂⟩ := spell_append.1 h₁
  obtain ⟨u, _, hu, h₃, rfl⟩ := spell_cons.1 h₂
  obtain ⟨w, _, hw, hnil, rfl⟩ := spell_cons.1 h₃
  obtain ⟨p, rfl⟩ := eq_of_spells_opening ht
  obtain ⟨q, rfl⟩ := eq_of_spells_operator hu
  obtain ⟨r, rfl⟩ := eq_of_spells_closing hw
  cases hnil
  exact ⟨p, q, r, between, rfl, hbetween⟩

end Token

namespace Flat.Word

/-- What a word of flat notation may stand for, however long it is. -/
inductive Writes : String → Terminal → Prop
  | operator (o : Operator) : Writes o.symbol (.operator o)
  | variable (v : Variable) : Writes v.name (.leaf (.variable v))
  | numeral {digits : List Char} {n : Nat} : Text.Numeral digits n →
      Writes (String.ofList digits) (.leaf (.number (.int n)))
  | negated {digits : List Char} {n : Nat} : Text.Numeral digits n →
      Writes (String.ofList ('-' :: digits)) (.leaf (.number (.int (-n))))

/-- Whether a word has more characters than a number may have digits. Signs at the front do not
count. -/
def isLong (text : String) : Bool := maxLiteralDigits < (text.toList.dropWhile (· = '-')).length

/-- The word may be read as the terminal. -/
def Spells (text : String) (terminal : Terminal) : Prop :=
  Writes text terminal ∧ isLong text = false

end Flat.Word

end Trivar
