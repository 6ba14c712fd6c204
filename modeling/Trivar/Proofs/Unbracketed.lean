import Trivar.Proofs.BracketedRoundTrip
import Trivar.Proofs.FlatRoundTrip

/-!
Leaving out the brackets. With its symbols last, the bracketed sentence of an
expression is its flat sentence with a pair of brackets around every operation
(`Expr.filter_terminals`), and a token that is no bracket is also a word. So the
tokens of a bracketed text, without the brackets, are flat notation for the same
expression. In the other direction an expression that was read from flat
notation can be rendered with brackets unless it has a negative literal, and the
tokens of what was rendered are the words of the text again, with their numbers
in decimal.
-/

namespace Trivar

def Terminal.isBracket : Terminal → Bool
  | .opening | .closing => true
  | _ => false

def Lexeme.isBracket : Lexeme → Bool
  | .opening | .closing => true
  | _ => false

/-- The texts of the tokens that are no brackets. -/
def Token.unbracketed (tokens : List Token) : List String :=
  (tokens.filter fun t => !t.lexeme.isBracket).map fun t => t.lexeme.text

theorem Expr.filter_terminals (e : Expr) :
    (e.terminals (.bracketed .last)).filter (!·.isBracket) = e.terminals .flat := by
  induction e using Expr.induct with
  | atom a => rfl
  | apply o args ih =>
      have hinner : (args.toList.flatMap (terminals (.bracketed .last))).filter (!·.isBracket) =
          args.toList.flatMap (terminals .flat) := by
        rw [List.filter_flatMap]
        exact List.flatMap_congr ih
      rw [terminals_apply, terminals_apply, Form.enclose, Form.enclose,
        List.filter_cons_of_neg (by simp [Terminal.isBracket]), List.filter_append, hinner]
      rfl

/-! ### Tokens as words -/

theorem Lexeme.Spells.isBracket_eq {lexeme : Lexeme} {terminal : Terminal}
    (h : lexeme.Spells terminal) : lexeme.isBracket = terminal.isBracket := by
  cases h <;> rfl

/-- What is no bracket is written in the same way with brackets around it and without. -/
theorem Lexeme.Spells.word {lexeme : Lexeme} {terminal : Terminal} (h : lexeme.Spells terminal)
    (hbracket : terminal.isBracket = false) : Flat.Word.Spells lexeme.text terminal := by
  cases h with
  | opening => cases hbracket
  | closing => cases hbracket
  | operator o => exact ⟨.operator o, Flat.isLong_symbol o⟩
  | «variable» v => exact ⟨.variable v, Flat.isLong_name v⟩
  | @numeral text n hnumeral hlength =>
      have hwrites := Flat.Word.Writes.numeral hnumeral
      rw [String.ofList_toList] at hwrites
      refine ⟨hwrites, ?_⟩
      rw [Lexeme.text, Flat.Word.isLong, Literal.dropWhile_minus_numeral hnumeral,
        String.length_toList, decide_eq_false_iff_not]
      omega

theorem Token.Spell.unbracketed {tokens : List Token} {sentence : List Terminal}
    (h : Spell tokens sentence) :
    List.Forall₂ Flat.Word.Spells (unbracketed tokens) (sentence.filter (!·.isBracket)) := by
  rw [Token.unbracketed, List.forall₂_map_left_iff]
  induction h with
  | nil => exact .nil
  | @cons t terminal tokens sentence hspells _ ih =>
      cases hbracket : terminal.isBracket with
      | true =>
          rw [List.filter_cons_of_neg (by simp [hspells.isBracket_eq, hbracket]),
            List.filter_cons_of_neg (by simp [hbracket])]
          exact ih
      | false =>
          rw [List.filter_cons_of_pos (by simp [hspells.isBracket_eq, hbracket]),
            List.filter_cons_of_pos (by simp [hbracket])]
          exact .cons (hspells.word hbracket) ih

namespace Flat

open Word

theorem parseExpr_spaced {texts : List String} {e : Expr}
    (h : List.Forall₂ Spells texts (e.terminals .flat)) : parseExpr (spaced texts) = .ok e := by
  have htexts : ∀ text ∈ texts, IsWord text.toList := by
    intro text htext
    obtain ⟨terminal, hspells⟩ := exists_of_forall₂ h text htext
    exact hspells.1.isWord
  have hwords : (words (spaced texts)).map Word.text = texts := wordsFrom_spaced htexts 0
  rw [← hwords, List.forall₂_map_left_iff] at h
  exact parseExpr_eq_ok_iff.2 h

/-- A literal that is read has no more digits than the word for it. -/
theorem Word.Spells.readable {text : String} {a : Atom} (h : Spells text (.leaf a)) :
    a.isIntegral = true ∧ a.digitCount ≤ maxLiteralDigits := by
  obtain ⟨hwrites, hlong⟩ := h
  rw [isLong, decide_eq_false_iff_not, Nat.not_lt] at hlong
  cases hwrites with
  | «variable» v => exact ⟨rfl, Nat.zero_le _⟩
  | @numeral digits n hnumeral =>
      rw [String.toList_ofList, Literal.dropWhile_minus_numeral hnumeral] at hlong
      exact ⟨rfl, hnumeral.length_toDigits_le.trans hlong⟩
  | @negated digits n hnumeral =>
      rw [String.toList_ofList, List.dropWhile_cons_of_pos (by simp),
        Literal.dropWhile_minus_numeral hnumeral] at hlong
      rw [Atom.digitCount, Int.natAbs_neg]
      exact ⟨rfl, hnumeral.length_toDigits_le.trans hlong⟩

theorem readable_of_parseExpr {text : String} {e : Expr} (h : parseExpr text = .ok e) :
    e.Integral ∧ e.Short := by
  have hleaves : ∀ a ∈ e.leaves, a.isIntegral = true ∧ a.digitCount ≤ maxLiteralDigits := by
    intro a ha
    obtain ⟨w, hspells⟩ :=
      exists_of_forall₂ (parseExpr_eq_ok_iff.1 h).flip _ (Expr.leaf_mem_terminals.2 ha)
    exact Word.Spells.readable hspells
  exact ⟨fun a ha => (hleaves a ha).1, fun a ha => (hleaves a ha).2⟩

end Flat

/-! ### Tokens of rendered expressions -/

theorem Terminal.text_lexemes {t : Terminal}
    (h : ∀ a, t = .leaf a → a.isIntegral = true ∧ a.isNegative = false) :
    (t.lexemes.filter (!·.isBracket)).map Lexeme.text =
      ([t].filter (!·.isBracket)).map Terminal.text := by
  match t with
  | .opening | .closing | .operator _ | .leaf (.variable _) => rfl
  | .leaf (.number (.double d)) => exact absurd (h _ rfl).1 Bool.false_ne_true
  | .leaf (.number (.int n)) =>
      have hsign : ¬ n < 0 := of_decide_eq_false (h _ rfl).2
      have hlexemes : (Terminal.leaf (.number (.int n))).lexemes =
          [.digits (String.ofList (Nat.toDigits 10 n.natAbs))] := if_neg hsign
      have htext : Decimal.integer n = String.ofList (Nat.toDigits 10 n.natAbs) := by
        rw [Decimal.integer, Decimal.integerDigits, if_neg hsign]
      rw [hlexemes]
      exact congrArg (fun text => [text]) htext.symm

theorem Expr.unbracketed_scan {e : Expr} (h : e.Integral) (hsign : e.Unsigned) :
    ∃ tokens, Token.scan (e.bracketedText .last) = .ok tokens ∧
      Token.unbracketed tokens = (e.terminals .flat).map Terminal.text := by
  obtain ⟨tokens, hscan, hlexemes⟩ := e.scans_bracketedText .last h 0
  refine ⟨tokens, hscan, ?_⟩
  have hunbracketed : Token.unbracketed tokens =
      ((tokens.map Token.lexeme).filter (!·.isBracket)).map Lexeme.text := by
    rw [List.filter_map, List.map_map]
    rfl
  have hsentence (sentence : List Terminal)
      (hleaves : ∀ a, .leaf a ∈ sentence → a.isIntegral = true ∧ a.isNegative = false) :
      ((sentence.flatMap Terminal.lexemes).filter (!·.isBracket)).map Lexeme.text =
        (sentence.filter (!·.isBracket)).map Terminal.text := by
    induction sentence with
    | nil => rfl
    | cons t sentence ih =>
        have hfirst := Terminal.text_lexemes fun a ht =>
          hleaves a (ht ▸ List.mem_cons_self)
        have hrest := ih fun a ha => hleaves a (List.mem_cons_of_mem t ha)
        rw [List.flatMap_cons, List.filter_append, List.map_append, hfirst, hrest,
          ← List.map_append, ← List.filter_append, List.singleton_append]
  rw [hunbracketed, hlexemes, hsentence _ fun a ha => ?_, filter_terminals]
  have hmem := leaf_mem_terminals.1 ha
  exact ⟨h a hmem, hsign a hmem⟩

namespace Bracketed

open Flat

/-- With the symbols last, the two notations differ in nothing but the brackets. The tokens of a
text that is read, without the brackets and with single spaces between them, are read as the same
expression in flat notation; and an expression that was read from flat notation and has no negative
literal is read back from its rendering with brackets, whose tokens are the words of the text with
their numbers in decimal. -/
theorem parse_last_agrees_parseExpr :
    (∀ text e, parse .last text = .ok e → ∃ tokens, Token.scan text = .ok tokens ∧
      parseExpr (spaced (Token.unbracketed tokens)) = .ok e) ∧
    ∀ text e, parseExpr text = .ok e → e.Unsigned →
      parse .last (e.bracketedText .last) = .ok e ∧
      ∃ tokens, Token.scan (e.bracketedText .last) = .ok tokens ∧
        Token.unbracketed tokens = (words text).map fun w => Word.canonical w.text := by
  constructor
  · intro text e hparse
    obtain ⟨tokens, hscan, hspell⟩ := parse_eq_ok_iff.1 hparse
    have hwords := hspell.unbracketed
    rw [Expr.filter_terminals] at hwords
    exact ⟨tokens, hscan, parseExpr_spaced hwords⟩
  · intro text e hparse hsign
    obtain ⟨hintegral, hshort⟩ := readable_of_parseExpr hparse
    have hwrites := (parseExpr_eq_ok_iff.1 hparse).imp fun _ _ hspells => hspells.1
    obtain ⟨tokens, hscan, htexts⟩ := Expr.unbracketed_scan hintegral hsign
    refine ⟨parse_bracketedText hintegral hsign hshort, tokens, hscan, ?_⟩
    rw [htexts, text_terminals_of_writes hwrites]

/-- A leading zero of another script comes through to flat notation; coming back, it is gone. -/
theorem parse_last_agrees_parseExpr_negation :
    let e : Expr := .apply .add (.cons (.integer 7)
      (.cons (.apply .negate (.cons (.atom (.variable .x)) .nil)) .nil))
    parse .last "(٠7(x negate)+)" = .ok e ∧ parseExpr "٠7 x negate +" = .ok e ∧ e.Unsigned ∧
      parse .last (e.bracketedText .last) = .ok e ∧
      ∃ tokens, Token.scan (e.bracketedText .last) = .ok tokens ∧
        Token.unbracketed tokens = ["7", "x", "negate", "+"] := by
  intro e
  obtain ⟨hflat, hbracketed⟩ := parse_last_agrees_parseExpr
  have hnumeral : Text.Numeral "٠7".toList 7 :=
    Text.numeral_of_all (by decide) (by decide +kernel) (by decide +kernel)
  have hscan : Token.scan "(٠7(x negate)+)" = .ok [⟨.opening, 0⟩, ⟨.digits "٠7", 1⟩,
      ⟨.opening, 3⟩, ⟨.variable .x, 4⟩, ⟨.operator .negate, 6⟩, ⟨.closing, 12⟩,
      ⟨.operator .add, 13⟩, ⟨.closing, 14⟩] := by decide +kernel
  have hparse : parse .last "(٠7(x negate)+)" = .ok e :=
    parse_eq_ok_iff.2 ⟨_, hscan, .cons .opening (.cons (.numeral hnumeral (by decide))
      (.cons .opening (.cons (.variable .x) (.cons (.operator .negate) (.cons .closing
        (.cons (.operator .add) (.cons .closing .nil)))))))⟩
  obtain ⟨tokens, htokens, hread⟩ := hflat _ e hparse
  obtain rfl := Except.ok.inj (hscan.symm.trans htokens)
  have hsign : e.Unsigned := by decide
  obtain ⟨hback, tokens, hrescan, htexts⟩ := hbracketed _ e hread hsign
  exact ⟨hparse, hread, hsign, hback, tokens, hrescan, htexts.trans (by decide +kernel)⟩

end Bracketed

end Trivar
