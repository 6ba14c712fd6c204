import Mathlib.Data.List.TakeWhile
import Trivar.Proofs.BracketedGrammar

/-!
Reading what was rendered in bracketed notation. Scanning a rendered expression
gives the lexemes of its sentence, one for each terminal but two for a negative
literal, since a sign is an operation to the scanner. Such a literal is never
read back: a sentence has as many operations as opening brackets, and the sign
is an operation too many.
-/

namespace Trivar

namespace Token

/-! ### Scanning rendered words -/

/-- Scanning the text gives these lexemes, wherever it begins. -/
def Scans (text : List Char) (lexemes : List Lexeme) : Prop :=
  ∀ position, ∃ tokens, scanFrom position text = .ok tokens ∧ tokens.map lexeme = lexemes

variable {text after : List Char} {lexemes more : List Lexeme}

theorem Scans.append (h : Scans text lexemes) (hafter : Scans after more)
    (hends : EndsToken after) : Scans (text ++ after) (lexemes ++ more) := by
  intro position
  obtain ⟨tokens, hscan, rfl⟩ := h position
  obtain ⟨others, hothers, rfl⟩ := hafter (position + text.length)
  refine ⟨tokens ++ others, ?_, List.map_append⟩
  rw [scanFrom_append hends, hscan]
  simp only [bind, Except.bind, hothers]
  rfl

theorem scans_nil : Scans [] [] := fun position => ⟨[], by rw [scanFrom], rfl⟩

theorem Scans.space (h : Scans text lexemes) : Scans (' ' :: text) lexemes := by
  intro position
  obtain ⟨tokens, hscan, rfl⟩ := h (position + 1)
  exact ⟨tokens, by rw [scanFrom_space, hscan], rfl⟩

/-- A token in front of a text takes as many characters as it has. -/
theorem Scans.cons {c : Char} {lexeme : Lexeme} (h : Scans text lexemes) (front : List Char)
    (hc : c ≠ ' ') (hfirst : firstLexeme c (front ++ text) = .ok (lexeme, front.length + 1)) :
    Scans (c :: (front ++ text)) (lexeme :: lexemes) := by
  intro position
  obtain ⟨tokens, hscan, rfl⟩ := h (position + (front.length + 1))
  refine ⟨⟨lexeme, position⟩ :: tokens, ?_, rfl⟩
  rw [scanFrom_ok hc hfirst, Nat.add_sub_cancel, List.drop_left, hscan]
  rfl

/-- A text that is one token. -/
def IsLexeme (lexeme : Lexeme) : List Char → Prop
  | [] => False
  | c :: rest => c ≠ ' ' ∧ firstLexeme c rest = .ok (lexeme, rest.length + 1)

instance (lexeme : Lexeme) : (text : List Char) → Decidable (IsLexeme lexeme text)
  | [] => inferInstanceAs (Decidable False)
  | _ :: _ => inferInstanceAs (Decidable (_ ∧ _))

theorem IsLexeme.scans {lexeme : Lexeme} (h : IsLexeme lexeme text) : Scans text [lexeme] := by
  match text, h with
  | c :: rest, ⟨hc, hfirst⟩ =>
      have hcons := scans_nil.cons rest hc (by rwa [List.append_nil])
      rwa [List.append_nil] at hcons

theorem isLexeme_symbol : ∀ o : Operator, IsLexeme (.operator o) o.symbol.toList :=
  Operator.forall_of_all (by decide +kernel)

theorem isLexeme_name : ∀ v : Variable, IsLexeme (.variable v) v.name.toList :=
  Variable.forall_of_all (by decide +kernel)

theorem isLexeme_numeral {digits : List Char} {n : Nat} (h : Text.Numeral digits n) :
    IsLexeme (.digits (String.ofList digits)) digits := by
  cases digits with
  | nil => exact absurd rfl h.ne_nil
  | cons c rest =>
      obtain ⟨hdigit, hrest⟩ := List.forall_mem_cons.1 h.isDigit
      have htake : rest.takeWhile Text.isDigit = rest := List.takeWhile_eq_self_iff.2 hrest
      refine ⟨Text.of_isDigit (· ≠ ' ') hdigit (by decide +kernel), ?_⟩
      rw [firstLexeme_digit hdigit, htake]
      rfl

/-- Words with single spaces between them are scanned one after the other. -/
theorem scans_spaced {words : List String} {parts : List (List Lexeme)}
    (h : List.Forall₂ (fun word lexemes => Scans word.toList lexemes) words parts) :
    Scans (spaced words).toList parts.flatten := by
  rw [spaced, String.toList_intercalate]
  induction h with
  | nil => exact scans_nil
  | @cons word lexemes words parts hword hwords ih =>
      cases hwords with
      | nil => simpa using hword
      | cons hnext hrest =>
          rw [List.map_cons, List.intercalate_cons_of_ne_nil (by simp), List.append_assoc]
          exact hword.append ih.space (endsToken_space _)

theorem Scans.enclosed (h : Scans text lexemes) :
    Scans ('(' :: (text ++ [')'])) (.opening :: (lexemes ++ [.closing])) := by
  have hclosing : IsLexeme .closing [')'] := by decide +kernel
  have hends : EndsToken [')'] := by
    rintro c ⟨⟩
    exact ⟨by decide +kernel, by decide⟩
  exact (h.append hclosing.scans hends).cons [] (by decide) rfl

end Token

/-! ### Rendered expressions -/

/-- The lexemes that a rendered terminal has for the scanner. Doubles have none: they are no
words of the grammar. -/
def Terminal.lexemes : Terminal → List Lexeme
  | .opening => [.opening]
  | .closing => [.closing]
  | .operator o => [.operator o]
  | .leaf (.variable v) => [.variable v]
  | .leaf (.number (.int n)) =>
    let digits := Lexeme.digits (String.ofList (Nat.toDigits 10 n.natAbs))
    if n < 0 then [.operator .sub, digits] else [digits]
  | .leaf (.number (.double _)) => []

theorem scans_integer (n : Int) :
    Token.Scans (Decimal.integer n).toList (Terminal.lexemes (.leaf (.number (.int n)))) := by
  have hdigits := (Token.isLexeme_numeral (Text.numeral_toDigits n.natAbs)).scans
  rw [Decimal.integer, String.toList_ofList, Decimal.integerDigits, Terminal.lexemes]
  split
  · exact hdigits.cons [] (by decide) rfl
  · exact hdigits

theorem Expr.bracketedText_apply (placement : Placement) (o : Operator)
    (args : Tuple Expr o.arity) :
    bracketedText placement (.apply o args) =
      match placement with
      | .first => "(" ++ spaced (o.symbol :: args.toList.map (bracketedText .first)) ++ ")"
      | .last => "(" ++ spaced (args.toList.map (bracketedText .last) ++ [o.symbol]) ++ ")" := by
  rw [bracketedText, fold_apply, Tuple.toList_map]
  cases placement <;> rfl

/-- Scanning a rendered expression gives the lexemes of its sentence. -/
theorem Expr.scans_bracketedText (placement : Placement) {e : Expr} (h : e.Integral) :
    Token.Scans (e.bracketedText placement).toList
      ((e.terminals (.bracketed placement)).flatMap Terminal.lexemes) := by
  induction e using Expr.induct with
  | atom a =>
      rw [terminals_atom, List.flatMap_singleton]
      match a with
      | .number (.int n) => exact scans_integer n
      | .number (.double d) => exact absurd (h _ List.mem_cons_self) Bool.false_ne_true
      | .variable v => exact (Token.isLexeme_name v).scans
  | apply o args ih =>
      rw [Integral, forall_leaves_apply] at h
      have hsymbol := (Token.isLexeme_symbol o).scans
      have hargs : List.Forall₂ (fun word lexemes => Token.Scans word.toList lexemes)
          (args.toList.map (bracketedText placement))
          (args.toList.map fun e =>
            (e.terminals (.bracketed placement)).flatMap Terminal.lexemes) := by
        rw [List.forall₂_map_left_iff, List.forall₂_map_right_iff, List.forall₂_same]
        exact fun e he => ih e he (h e he)
      have hparts : (args.toList.map fun e =>
          (e.terminals (.bracketed placement)).flatMap Terminal.lexemes).flatten =
            (args.toList.flatMap (terminals (.bracketed placement))).flatMap Terminal.lexemes := by
        rw [List.flatMap_assoc, List.flatMap_def]
      rw [bracketedText_apply, terminals_apply]
      cases placement with
      | first =>
          have hwords := (Token.scans_spaced (.cons hsymbol hargs)).enclosed
          rw [List.flatten_cons, hparts] at hwords
          simpa [Form.enclose, Terminal.lexemes] using hwords
      | last =>
          have hwords :=
            (Token.scans_spaced (List.rel_append hargs (.cons hsymbol .nil))).enclosed
          rw [List.flatten_append, hparts] at hwords
          simpa [Form.enclose, Terminal.lexemes] using hwords

/-! ### Which lexemes are a sentence -/

/-- A leaf that is a single lexeme. -/
def Atom.Plain (a : Atom) : Prop :=
  a.isIntegral = true ∧ a.isNegative = false ∧ a.digitCount ≤ maxLiteralDigits

theorem Atom.Plain.spells {a : Atom} (h : a.Plain) :
    ∃ lexeme : Lexeme, (Terminal.leaf a).lexemes = [lexeme] ∧ lexeme.Spells (.leaf a) := by
  match a with
  | .variable v => exact ⟨.variable v, rfl, .variable v⟩
  | .number (.double d) => exact absurd h.1 Bool.false_ne_true
  | .number (.int n) =>
      obtain ⟨-, hsign, hcount⟩ := h
      have hsign : ¬ n < 0 := of_decide_eq_false hsign
      refine ⟨_, if_neg hsign, ?_⟩
      have hspells : (Lexeme.digits (String.ofList (Nat.toDigits 10 n.natAbs))).Spells
          (.leaf (.number (.int n.natAbs))) := by
        refine .numeral ?_ (by rwa [String.length_ofList])
        rw [String.toList_ofList]
        exact Text.numeral_toDigits n.natAbs
      rwa [show (n.natAbs : Int) = n by omega] at hspells

theorem spells_lexemes {sentence : List Terminal} (h : ∀ a, .leaf a ∈ sentence → a.Plain) :
    List.Forall₂ Lexeme.Spells (sentence.flatMap Terminal.lexemes) sentence := by
  induction sentence with
  | nil => exact .nil
  | cons t sentence ih =>
      have hrest := ih fun a ha => h a (List.mem_cons_of_mem t ha)
      rw [List.flatMap_cons]
      match t with
      | .opening => exact .cons .opening hrest
      | .closing => exact .cons .closing hrest
      | .operator o => exact .cons (.operator o) hrest
      | .leaf a =>
          obtain ⟨lexeme, hlexemes, hspells⟩ := (h a List.mem_cons_self).spells
          rw [hlexemes]
          exact .cons hspells hrest

namespace Lexeme

def isOpening : Lexeme → Bool
  | .opening => true
  | _ => false

def isOperator : Lexeme → Bool
  | .operator _ => true
  | _ => false

end Lexeme

namespace Terminal

def isOpening : Terminal → Bool
  | .opening => true
  | _ => false

def isOperator : Terminal → Bool
  | .operator _ => true
  | _ => false

def isNegative : Terminal → Bool
  | .leaf a => a.isNegative
  | _ => false

end Terminal

/-- A sentence has as many operations as opening brackets. -/
theorem Expr.countP_terminals (placement : Placement) (e : Expr) :
    (e.terminals (.bracketed placement)).countP Terminal.isOperator =
      (e.terminals (.bracketed placement)).countP Terminal.isOpening := by
  induction e using Expr.induct with
  | atom a => rfl
  | apply o args ih =>
      have hinner : (args.toList.flatMap (terminals (.bracketed placement))).countP
            Terminal.isOperator =
          (args.toList.flatMap (terminals (.bracketed placement))).countP Terminal.isOpening := by
        rw [List.countP_flatMap, List.countP_flatMap]
        exact congrArg List.sum (List.map_congr_left ih)
      rw [terminals_apply]
      cases placement with
      | first =>
          simp [Form.enclose, List.countP_cons, Terminal.isOperator, Terminal.isOpening, hinner]
      | last =>
          simp [Form.enclose, List.countP_cons, Terminal.isOperator, Terminal.isOpening, hinner]

theorem countP_of_spells {p : Lexeme → Bool} {q : Terminal → Bool}
    (hpq : ∀ lexeme terminal, lexeme.Spells terminal → p lexeme = q terminal)
    {lexemes : List Lexeme} {sentence : List Terminal}
    (h : List.Forall₂ Lexeme.Spells lexemes sentence) :
    lexemes.countP p = sentence.countP q := by
  induction h with
  | nil => rfl
  | cons hspells _ ih => rw [List.countP_cons, List.countP_cons, ih, hpq _ _ hspells]

/-- The sign of every negative literal is an operation without a bracket. -/
theorem countP_lexemes (sentence : List Terminal) :
    (sentence.flatMap Terminal.lexemes).countP Lexeme.isOperator =
        sentence.countP Terminal.isOperator + sentence.countP Terminal.isNegative ∧
      (sentence.flatMap Terminal.lexemes).countP Lexeme.isOpening =
        sentence.countP Terminal.isOpening := by
  induction sentence with
  | nil => exact ⟨rfl, rfl⟩
  | cons t sentence ih =>
      have hfirst : t.lexemes.countP Lexeme.isOperator =
            [t].countP Terminal.isOperator + [t].countP Terminal.isNegative ∧
          t.lexemes.countP Lexeme.isOpening = [t].countP Terminal.isOpening := by
        cases t with
        | leaf a =>
            match a with
            | .variable v => exact ⟨rfl, rfl⟩
            | .number (.double d) => exact ⟨rfl, rfl⟩
            | .number (.int n) =>
                by_cases hn : n < 0 <;>
                  simp [Terminal.lexemes, List.countP_cons, Terminal.isOperator,
                    Terminal.isNegative, Terminal.isOpening, Atom.isNegative, Lexeme.isOperator,
                    Lexeme.isOpening, hn]
        | _ => exact ⟨rfl, rfl⟩
      obtain ⟨hoperator, hopening⟩ := hfirst
      have hsplit (q : Terminal → Bool) :
          (t :: sentence).countP q = [t].countP q + sentence.countP q := by
        rw [← List.countP_append, List.singleton_append]
      rw [List.flatMap_cons, List.countP_append, List.countP_append, hoperator, hopening, ih.1,
        ih.2, hsplit, hsplit, hsplit]
      omega

theorem length_le_of_spells {lexemes : List Lexeme} {sentence : List Terminal} {text : String}
    (h : List.Forall₂ Lexeme.Spells lexemes sentence) (hmem : .digits text ∈ lexemes) :
    text.length ≤ maxLiteralDigits := by
  obtain ⟨terminal, hspells⟩ := exists_of_forall₂ h _ hmem
  cases hspells with
  | numeral _ hlength => exact hlength

section

variable {placement : Placement} {e e' : Expr}

/-- An expression has no negative literal if its lexemes are a sentence, of whatever expression. -/
theorem Expr.unsigned_of_spells
    (h : List.Forall₂ Lexeme.Spells ((e.terminals (.bracketed placement)).flatMap Terminal.lexemes)
      (e'.terminals (.bracketed placement))) : e.Unsigned := by
  have hoperators := countP_of_spells (p := Lexeme.isOperator) (q := Terminal.isOperator)
    (by rintro _ _ ⟨⟩ <;> rfl) h
  have hopenings := countP_of_spells (p := Lexeme.isOpening) (q := Terminal.isOpening)
    (by rintro _ _ ⟨⟩ <;> rfl) h
  rw [(countP_lexemes _).1, countP_terminals, countP_terminals] at hoperators
  rw [(countP_lexemes _).2] at hopenings
  -- Brackets pay for all operations of both expressions, so there is none left for a sign.
  have hcount : (e.terminals (.bracketed placement)).countP Terminal.isNegative = 0 := by omega
  intro a ha
  have hleaf := List.countP_eq_zero.1 hcount (.leaf a) (leaf_mem_terminals.2 ha)
  exact Bool.not_eq_true _ ▸ hleaf

theorem Expr.short_of_spells {sentence : List Terminal}
    (h : List.Forall₂ Lexeme.Spells ((e.terminals (.bracketed placement)).flatMap Terminal.lexemes)
      sentence) : e.Short := by
  intro a ha
  match a with
  | .variable _ | .number (.double _) => exact Nat.zero_le _
  | .number (.int n) =>
      have hdigits : .digits (String.ofList (Nat.toDigits 10 n.natAbs)) ∈
          (Terminal.leaf (.number (.int n))).lexemes := by
        rw [Terminal.lexemes]
        split <;> simp
      have hlength := length_le_of_spells h
        (List.mem_flatMap.2 ⟨_, leaf_mem_terminals.2 ha, hdigits⟩)
      rwa [String.length_ofList] at hlength

end

namespace Bracketed

theorem parse_bracketedText_eq_ok_iff {placement : Placement} {e e' : Expr} (h : e.Integral) :
    parse placement (e.bracketedText placement) = .ok e' ↔
      List.Forall₂ Lexeme.Spells
        ((e.terminals (.bracketed placement)).flatMap Terminal.lexemes)
        (e'.terminals (.bracketed placement)) := by
  obtain ⟨tokens, hscan, hlexemes⟩ := e.scans_bracketedText placement h 0
  rw [parse_eq_ok_iff, ← hlexemes, List.forall₂_map_left_iff]
  constructor
  · rintro ⟨tokens', hscan', hspell⟩
    obtain rfl := Except.ok.inj (hscan.symm.trans hscan')
    exact hspell
  · intro hspell
    exact ⟨tokens, hscan, hspell⟩

theorem parse_bracketedText {placement : Placement} {e : Expr} (h : e.Integral)
    (hsign : e.Unsigned) (hshort : e.Short) :
    parse placement (e.bracketedText placement) = .ok e := by
  rw [parse_bracketedText_eq_ok_iff h]
  refine spells_lexemes fun a ha => ?_
  have hmem := Expr.leaf_mem_terminals.1 ha
  exact ⟨h a hmem, hsign a hmem, hshort a hmem⟩

/-- A rendered expression is read back exactly if no literal of it is negative or too long. It is
never read as another one. -/
theorem parse_bracketedText_characterised (placement : Placement) (e : Expr) (h : e.Integral) :
    (e.Unsigned ∧ e.Short → parse placement (e.bracketedText placement) = .ok e) ∧
    (¬ (e.Unsigned ∧ e.Short) →
      ∃ err, parse placement (e.bracketedText placement) = .error err) ∧
    ∀ e', parse placement (e.bracketedText placement) = .ok e' → e' = e := by
  have hplain (e' : Expr) (hparse : parse placement (e.bracketedText placement) = .ok e') :
      e.Unsigned ∧ e.Short := by
    have hspells := (parse_bracketedText_eq_ok_iff h).1 hparse
    exact ⟨Expr.unsigned_of_spells hspells, Expr.short_of_spells hspells⟩
  refine ⟨fun hread => parse_bracketedText h hread.1 hread.2, fun hnot => ?_, fun e' hparse => ?_⟩
  · cases hparse : parse placement (e.bracketedText placement) with
    | error err => exact ⟨err, rfl⟩
    | ok e' => exact absurd (hplain e' hparse) hnot
  · obtain ⟨hsign, hshort⟩ := hplain e' hparse
    rw [parse_bracketedText h hsign hshort] at hparse
    exact (Except.ok.inj hparse).symm

/-- With its symbol last, a difference is read back, and fails to be when the literal gets a
sign. -/
theorem parse_bracketedText_difference :
    let e (n : Int) : Expr := .apply .sub (.cons (.atom (.variable .x)) (.cons (.integer n) .nil))
    parse .last ((e 3).bracketedText .last) = .ok (e 3) ∧
      ∃ err, parse .last ((e (-3)).bracketedText .last) = .error err := by
  intro e
  obtain ⟨hread, -, -⟩ := parse_bracketedText_characterised .last (e 3) (by decide)
  obtain ⟨-, hfail, -⟩ := parse_bracketedText_characterised .last (e (-3)) (by decide)
  exact ⟨hread (by decide), hfail (by decide)⟩

end Bracketed

end Trivar
