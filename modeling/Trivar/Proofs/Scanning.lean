import Trivar.Proofs.Grammar
import Trivar.Proofs.Outcome
import Trivar.Token.Scan

/-!
What the scanner makes of a text. A character that is neither letter nor digit
ends the token before it, so a text that begins with such a character is
scanned independently of what stands before it (`scanFrom_append`). The digits
of a token are a numeral (`wellFormed_of_scanFrom`).
-/

namespace Trivar

namespace Token

open Text

/-- No token goes on over the beginning of the text. -/
def EndsToken (text : List Char) : Prop :=
  ∀ c ∈ text.head?, isDigit c = false ∧ isLetter c = false

theorem endsToken_space (rest : List Char) : EndsToken (' ' :: rest) := by
  rintro c ⟨⟩
  exact ⟨by decide +kernel, by decide⟩

theorem takeWhile_append_of_head {p : Char → Bool} {after : List Char}
    (h : ∀ c ∈ after.head?, p c = false) (cs : List Char) :
    (cs ++ after).takeWhile p = cs.takeWhile p := by
  induction cs with
  | nil =>
      cases after with
      | nil => rfl
      | cons c after =>
          have hc : p c = false := h c rfl
          rw [List.nil_append, List.takeWhile_cons_of_neg (by simp [hc]), List.takeWhile_nil]
  | cons c cs ih => rw [List.cons_append, List.takeWhile_cons, List.takeWhile_cons, ih]

theorem dropWhile_append_of_head {p : Char → Bool} {after : List Char}
    (h : ∀ c ∈ after.head?, p c = false) (cs : List Char) :
    (cs ++ after).dropWhile p = cs.dropWhile p ++ after := by
  induction cs with
  | nil =>
      cases after with
      | nil => rfl
      | cons c after =>
          have hc : p c = false := h c rfl
          rw [List.nil_append, List.dropWhile_cons_of_neg (by simp [hc]), List.dropWhile_nil,
            List.nil_append]
  | cons c cs ih =>
      rw [List.cons_append, List.dropWhile_cons, List.dropWhile_cons, ih]
      split <;> rfl

/-! ### The first token -/

theorem firstLexeme_digit {c : Char} (hc : isDigit c = true) (rest : List Char) :
    firstLexeme c rest =
      .ok (.digits (String.ofList (c :: rest.takeWhile isDigit)),
        (c :: rest.takeWhile isDigit).length) := by
  have hsign : c ≠ '(' ∧ c ≠ ')' ∧ c ≠ '+' ∧ c ≠ '-' ∧ c ≠ '*' ∧ c ≠ '/' :=
    of_isDigit (fun c => c ≠ '(' ∧ c ≠ ')' ∧ c ≠ '+' ∧ c ≠ '-' ∧ c ≠ '*' ∧ c ≠ '/') hc
      (by decide +kernel)
  unfold firstLexeme
  split
  all_goals simp_all

theorem isLetter_iff {c : Char} :
    isLetter c = true ↔ 65 ≤ c.toNat ∧ c.toNat ≤ 90 ∨ 97 ≤ c.toNat ∧ c.toNat ≤ 122 := by
  change (decide (65 ≤ c.val ∧ c.val ≤ 90) ||
    (decide (97 ≤ c.val) && decide (c.val ≤ 122))) = true ↔ _
  rw [Bool.or_eq_true, Bool.and_eq_true, decide_eq_true_eq, decide_eq_true_eq, decide_eq_true_eq]
  rfl

theorem firstLexeme_blank {c : Char} (hc : isBlank c = true) (rest : List Char) :
    firstLexeme c rest = .error (.unexpectedCharacter (some (String.singleton c))) := by
  have hdigit : isDigit c = false := by
    rw [← Bool.not_eq_true]
    intro h
    rw [isBlank_of_isDigit h] at hc
    cases hc
  have hletter : isLetter c = false := by
    rw [← Bool.not_eq_true]
    intro h
    have hrange := isLetter_iff.1 h
    simp only [isBlank, Bool.or_eq_true, Bool.and_eq_true, decide_eq_true_eq, beq_iff_eq] at hc
    omega
  unfold firstLexeme
  split
  case h_7 => rw [if_neg (by simp [hdigit]), if_neg (by simp [hletter])]
  all_goals exact absurd hc (by decide)

theorem wellFormed_of_wordLexeme {letters digits : List Char} {lexeme : Lexeme} {length : Nat}
    (h : wordLexeme letters digits = .ok (lexeme, length)) :
    lexeme.WellFormed ∧ letters.length ≤ length ∧ length ≤ letters.length + digits.length := by
  unfold wordLexeme at h
  split at h
  · obtain ⟨rfl, rfl⟩ := Prod.mk.inj (Except.ok.inj h)
    exact ⟨trivial, by omega, Nat.le_refl _⟩
  · split at h
    · obtain ⟨rfl, rfl⟩ := Prod.mk.inj (Except.ok.inj h)
      exact ⟨trivial, Nat.le_refl _, by omega⟩
    · obtain ⟨rfl, rfl⟩ := Prod.mk.inj (Except.ok.inj h)
      exact ⟨trivial, Nat.le_refl _, by omega⟩
    · cases h

/-- The digits of the first token are a numeral, and it takes at least one character. -/
theorem wellFormed_of_firstLexeme {c : Char} {rest : List Char} {lexeme : Lexeme} {length : Nat}
    (h : firstLexeme c rest = .ok (lexeme, length)) :
    lexeme.WellFormed ∧ 1 ≤ length ∧ length ≤ rest.length + 1 := by
  by_cases hdigit : isDigit c = true
  · rw [firstLexeme_digit hdigit] at h
    obtain ⟨rfl, rfl⟩ := Prod.mk.inj (Except.ok.inj h)
    have hall : ∀ d ∈ c :: rest.takeWhile isDigit, isDigit d = true :=
      List.forall_mem_cons.2 ⟨hdigit, List.all_eq_true.1 List.all_takeWhile⟩
    have hlength := (List.takeWhile_prefix isDigit (l := rest)).length_le
    refine ⟨⟨digitsValue (c :: rest.takeWhile isDigit), ?_⟩, by simp, by simpa using hlength⟩
    rw [String.toList_ofList]
    exact ⟨by simp, hall, rfl⟩
  · unfold firstLexeme at h
    split at h
    case h_7 =>
      rw [if_neg hdigit] at h
      split at h
      · have hword := wellFormed_of_wordLexeme h
        have hletters := (List.takeWhile_prefix isLetter (l := rest)).length_le
        have hsplit := congrArg List.length (List.takeWhile_append_dropWhile (p := isLetter) (l := rest))
        have hdigits :=
          (List.takeWhile_prefix isDigit (l := rest.dropWhile isLetter)).length_le
        simp only [List.length_cons, List.length_append] at hword hsplit
        exact ⟨hword.1, by omega, by omega⟩
      · cases h
    all_goals
      obtain ⟨rfl, rfl⟩ := Prod.mk.inj (Except.ok.inj h)
      exact ⟨trivial, by omega, by omega⟩

theorem firstLexeme_append {after : List Char} (hafter : EndsToken after) (c : Char)
    (rest : List Char) : firstLexeme c (rest ++ after) = firstLexeme c rest := by
  have hdigits (cs : List Char) := takeWhile_append_of_head (fun d hd => (hafter d hd).1) cs
  have hletters (cs : List Char) := takeWhile_append_of_head (fun d hd => (hafter d hd).2) cs
  have hdropped (cs : List Char) := dropWhile_append_of_head (fun d hd => (hafter d hd).2) cs
  unfold firstLexeme
  split
  all_goals simp only [hdigits, hletters, hdropped]

/-! ### All tokens -/

theorem scanFrom_space (position : Nat) (rest : List Char) :
    scanFrom position (' ' :: rest) = scanFrom (position + 1) rest := by
  rw [scanFrom, if_pos rfl]

theorem scanFrom_error {c : Char} {rest : List Char} {fault : Fault} (hc : c ≠ ' ')
    (h : firstLexeme c rest = .error fault) (position : Nat) :
    scanFrom position (c :: rest) = .error ⟨fault, some position⟩ := by
  rw [scanFrom, if_neg hc, h]

theorem scanFrom_ok {c : Char} {rest : List Char} {lexeme : Lexeme} {length : Nat} (hc : c ≠ ' ')
    (h : firstLexeme c rest = .ok (lexeme, length)) (position : Nat) :
    scanFrom position (c :: rest) =
      (scanFrom (position + length) (rest.drop (length - 1))).map (⟨lexeme, position⟩ :: ·) := by
  rw [scanFrom, if_neg hc, h]

/-- A text and one that no token of it runs into are scanned one after the other. -/
theorem scanFrom_append {after : List Char} (hafter : EndsToken after) (position : Nat)
    (text : List Char) :
    scanFrom position (text ++ after) = do
      let tokens ← scanFrom position text
      let more ← scanFrom (position + text.length) after
      return tokens ++ more := by
  fun_induction scanFrom position text with
  | case1 position =>
      change scanFrom position after = scanFrom position after >>= fun more => pure more
      rw [bind_pure]
  | case2 position rest ih =>
      rw [List.cons_append, scanFrom_space, ih, List.length_cons]
      simp only [Nat.add_assoc, Nat.add_comm 1]
  | case3 position c rest hc fault hfirst =>
      rw [List.cons_append, scanFrom_error hc (firstLexeme_append hafter c rest ▸ hfirst)]
      rfl
  | case4 position c rest hc lexeme length hfirst ih =>
      obtain ⟨-, hone, hlength⟩ := wellFormed_of_firstLexeme hfirst
      have hdrop : (rest ++ after).drop (length - 1) = rest.drop (length - 1) ++ after :=
        List.drop_append_of_le_length (by omega)
      have hplace : position + length + (rest.drop (length - 1)).length =
          position + (c :: rest).length := by
        rw [List.length_drop, List.length_cons]
        omega
      rw [List.cons_append, scanFrom_ok hc (firstLexeme_append hafter c rest ▸ hfirst), hdrop, ih,
        hplace]
      cases scanFrom (position + length) (rest.drop (length - 1)) with
      | error e => rfl
      | ok tokens => cases scanFrom (position + (c :: rest).length) after <;> rfl

/-- Blanks have no tokens, whether the scanner takes them or not. -/
theorem eq_nil_of_scanFrom_blanks {position : Nat} {text : List Char} {tokens : List Token}
    (hblank : ∀ c ∈ text, isBlank c = true) (h : scanFrom position text = .ok tokens) :
    tokens = [] := by
  fun_induction scanFrom position text generalizing tokens with
  | case1 position =>
      cases h
      rfl
  | case2 position rest ih => exact ih (List.forall_mem_cons.1 hblank).2 h
  | case3 position c rest hc fault hfirst => cases h
  | case4 position c rest hc lexeme length hfirst ih =>
      rw [firstLexeme_blank (List.forall_mem_cons.1 hblank).1] at hfirst
      cases hfirst

theorem wellFormed_of_scanFrom {position : Nat} {text : List Char} {tokens : List Token}
    (h : scanFrom position text = .ok tokens) : ∀ t ∈ tokens, t.lexeme.WellFormed := by
  fun_induction scanFrom position text generalizing tokens with
  | case1 position =>
      cases h
      simp
  | case2 position rest ih => exact ih h
  | case3 position c rest hc fault hfirst => cases h
  | case4 position c rest hc lexeme length hfirst ih =>
      obtain ⟨more, hmore, rfl⟩ := Outcome.map_eq_ok.1 h
      exact List.forall_mem_cons.2 ⟨(wellFormed_of_firstLexeme hfirst).1, ih hmore⟩

/-! ### The mark of the end -/

/-- What a reader comes upon: a token, or the mark behind the last one. -/
structure Entry where
  lexeme : Option Lexeme
  position : Nat
  deriving DecidableEq

def Entry.ofToken (t : Token) : Entry := ⟨some t.lexeme, t.position⟩

/-- The tokens of a text of the given length, with the mark of its end. -/
def entries (tokens : List Token) (length : Nat) : List Entry :=
  tokens.map Entry.ofToken ++ [⟨none, length⟩]

def scanEntries (text : String) : Except ParseError (List Entry) :=
  (scan text).map (entries · text.length)

end Token

end Trivar
