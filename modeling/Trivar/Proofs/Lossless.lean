import Mathlib.Data.List.TakeWhile
import Trivar.Proofs.Located

/-!
Scanning loses nothing. The scanner goes over a text from left to right, and at
every place that it reaches (`Reaches`) the tokens found so far, with spaces
between them, are exactly the part of the text before that place, each of them
as long as it can be (`Account`). It stops at the end of the text, or at the
first place where no token begins (`StopsAt`); then the text cut off there has
the same tokens.

A word takes the digits after it only if it names an operation together with
them, so the end of a token depends on characters behind it. A cut does not
change the token all the same, since no keyword or variable with digits added
is a keyword (`not_isKeyword_append`).
-/

namespace Trivar.Token

open Text

/-! ### What the text before a place and behind it must satisfy -/

/-- The characters with the property that begin at the place, all of them and at least one. No
such character comes right before them. -/
structure RunAt (p : Char → Bool) (text : List Char) (place : Nat) (run : List Char) : Prop where
  ne_nil : run ≠ []
  eq_takeWhile : run = (text.drop place).takeWhile p
  before : ∀ c ∈ (text.take place).getLast?, p c = false

/-- The word of an operation that is not written as a sign. -/
def IsKeyword (word : List Char) : Prop := ∃ o : Operator, o.isWord = true ∧ o.symbol.toList = word

def IsVariable (word : List Char) : Prop := ∃ v : Variable, v.name.toList = word

/-- The lexeme of letters with digits behind them. The digits belong to it if they give a keyword
together with the letters. -/
inductive Names (letters digits : List Char) : Lexeme → Prop
  | withDigits {o : Operator} : o.isWord = true → o.symbol.toList = letters ++ digits →
      Names letters digits (.operator o)
  | operator {o : Operator} : ¬ IsKeyword (letters ++ digits) → o.isWord = true →
      o.symbol.toList = letters → Names letters digits (.operator o)
  | name {v : Variable} : ¬ IsKeyword (letters ++ digits) → v.name.toList = letters →
      Names letters digits (.variable v)

/-- The digits behind the letters that begin at the place. -/
def digitsBehind (text : List Char) (place : Nat) (letters : List Char) : List Char :=
  (text.drop (place + letters.length)).takeWhile isDigit

/-- The place behind the last character of the token. -/
def stop (t : Token) : Nat := t.position + t.lexeme.text.toList.length

/-- A number has all digits where it stands, and a token that begins with a letter is named by all
letters there, alone or with the digits behind them. -/
structure Maximal (text : List Char) (t : Token) : Prop where
  digits : ∀ digits, t.lexeme = .digits digits → RunAt isDigit text t.position digits.toList
  word : ∀ c ∈ t.lexeme.text.toList.head?, isLetter c = true →
    ∃ letters, RunAt isLetter text t.position letters ∧
      Names letters (digitsBehind text t.position letters) t.lexeme

/-- The tokens are those of the first `place` characters of the text: parts of it in their order,
with nothing but spaces between them. -/
structure Account (text : List Char) (place : Nat) (tokens : List Token) : Prop where
  located : ∀ t ∈ tokens, t.Located text
  apart : tokens.Pairwise fun t u => t.stop ≤ u.position
  stop_le : ∀ t ∈ tokens, t.stop ≤ place
  spaces : ∀ i < place, (∀ t ∈ tokens, i < t.position ∨ t.stop ≤ i) → text[i]? = some ' '
  maximal : ∀ t ∈ tokens, t.Maximal text

/-- No token begins at the place: because of a character that occurs in none, or because of
letters that have no meaning, alone or with the digits behind them. -/
inductive StopsAt (text : List Char) (place : Nat) : Fault → Prop
  | character {c : Char} : text[place]? = some c → isLetter c = false → isDigit c = false →
      c ∉ ['(', ')', '+', '-', '*', '/', ' '] →
      StopsAt text place (.unexpectedCharacter (some (String.singleton c)))
  | word {letters : List Char} : RunAt isLetter text place letters → ¬ IsVariable letters →
      ¬ IsKeyword letters → ¬ IsKeyword (letters ++ digitsBehind text place letters) →
      StopsAt text place (.invalidOperationToken (String.ofList letters))

/-- The scanner comes to the place, with these tokens found on the way. -/
inductive Reaches (text : List Char) : Nat → List Token → Prop
  | start : Reaches text 0 []
  | space {place : Nat} {tokens : List Token} {rest : List Char} : Reaches text place tokens →
      text.drop place = ' ' :: rest → Reaches text (place + 1) tokens
  | token {place length : Nat} {tokens : List Token} {c : Char} {rest : List Char}
      {lexeme : Lexeme} : Reaches text place tokens → text.drop place = c :: rest → c ≠ ' ' →
      firstLexeme c rest = .ok (lexeme, length) →
      Reaches text (place + length) (tokens ++ [⟨lexeme, place⟩])

/-! ### The vocabulary -/

theorem ofWord?_eq_some_iff {word : List Char} {o : Operator} :
    Operator.ofWord? (String.ofList word) = some o ↔ o.isWord = true ∧ o.symbol.toList = word := by
  rw [Operator.ofWord?, Option.filter_eq_some_iff, Operator.ofSymbol?_eq_some_iff,
    String.ext_iff, String.toList_ofList, and_comm]

theorem ofWord?_eq_none_iff {word : List Char} :
    Operator.ofWord? (String.ofList word) = none ↔ ¬ IsKeyword word := by
  simp only [Option.eq_none_iff_forall_ne_some, ne_eq, ofWord?_eq_some_iff, IsKeyword, not_exists]

theorem ofName?_eq_none_iff {word : List Char} :
    Variable.ofName? (String.ofList word) = none ↔ ¬ IsVariable word := by
  simp only [Option.eq_none_iff_forall_ne_some, ne_eq, Variable.ofName?_eq_some_iff, IsVariable,
    not_exists, String.ext_iff, String.toList_ofList]

theorem isLetter_of_isDigit {c : Char} (hc : isDigit c = true) : isLetter c = false :=
  of_isDigit (isLetter · = false) hc (by decide +kernel)

theorem isDigit_of_isLetter {c : Char} (hc : isLetter c = true) : isDigit c = false := by
  rw [← Bool.not_eq_true]
  intro h
  rw [isLetter_of_isDigit h] at hc
  cases hc

theorem not_isKeyword_name (v : Variable) : ¬ IsKeyword v.name.toList := by
  rw [← ofWord?_eq_none_iff, String.ofList_toList]
  revert v
  exact Variable.forall_of_all (by decide +kernel)

/-- The letters of a keyword are no word of their own if digits follow them in it. -/
theorem letters_of_symbol : ∀ o : Operator,
    o.symbol.toList.takeWhile isLetter = o.symbol.toList ∨
      Operator.ofWord? (String.ofList (o.symbol.toList.takeWhile isLetter)) = none ∧
        Variable.ofName? (String.ofList (o.symbol.toList.takeWhile isLetter)) = none :=
  Operator.forall_of_all (by decide +kernel)

theorem not_isKeyword_append {letters digits : List Char}
    (hletters : ∀ c ∈ letters, isLetter c = true) (hdigits : ∀ d ∈ digits, isDigit d = true)
    (hne : digits ≠ []) (h : IsKeyword letters ∨ IsVariable letters) :
    ¬ IsKeyword (letters ++ digits) := by
  rintro ⟨o, -, hsymbol⟩
  have hnone : digits.takeWhile isLetter = [] := by
    cases digits with
    | nil => rfl
    | cons d ds =>
        rw [List.takeWhile_cons_of_neg]
        simp [isLetter_of_isDigit (hdigits d List.mem_cons_self)]
  have htake : o.symbol.toList.takeWhile isLetter = letters := by
    rw [hsymbol, List.takeWhile_append_of_pos hletters, hnone, List.append_nil]
  have hcases := letters_of_symbol o
  rw [htake, ofWord?_eq_none_iff, ofName?_eq_none_iff] at hcases
  obtain hsame | ⟨hkeyword, hvariable⟩ := hcases
  · rw [hsymbol] at hsame
    exact hne (List.append_right_eq_self.1 hsame.symm)
  · exact h.elim hkeyword hvariable

/-! ### Words -/

theorem wordLexeme_eq_ok_iff {letters digits : List Char} {lexeme : Lexeme} {length : Nat} :
    wordLexeme letters digits = .ok (lexeme, length) ↔
      Names letters digits lexeme ∧ length = lexeme.text.toList.length := by
  constructor
  · intro h
    refine ⟨?_, (text_of_wordLexeme h).2.symm⟩
    unfold wordLexeme at h
    split at h
    · rename_i o hwhole
      cases h
      obtain ⟨hword, hsymbol⟩ := ofWord?_eq_some_iff.1 hwhole
      exact .withDigits hword hsymbol
    · rename_i hwhole
      split at h
      · rename_i o hletters
        cases h
        obtain ⟨hword, hsymbol⟩ := ofWord?_eq_some_iff.1 hletters
        exact .operator (ofWord?_eq_none_iff.1 hwhole) hword hsymbol
      · rename_i v hname
        cases h
        rw [Variable.ofName?_eq_some_iff] at hname
        exact .name (ofWord?_eq_none_iff.1 hwhole) (by rw [hname, String.toList_ofList])
      · cases h
  · rintro ⟨hnames, rfl⟩
    unfold wordLexeme
    cases hnames with
    | @withDigits o hword hsymbol =>
        rw [ofWord?_eq_some_iff.2 ⟨hword, hsymbol⟩, Lexeme.text, hsymbol, List.length_append]
    | @operator o hwhole hword hsymbol =>
        rw [ofWord?_eq_none_iff.2 hwhole, ofWord?_eq_some_iff.2 ⟨hword, hsymbol⟩, Lexeme.text,
          hsymbol]
    | @name v hwhole hname =>
        have hletters : ¬ IsKeyword letters := hname ▸ not_isKeyword_name v
        have hvariable : Variable.ofName? (String.ofList letters) = some v := by
          rw [Variable.ofName?_eq_some_iff, ← hname, String.ofList_toList]
        rw [ofWord?_eq_none_iff.2 hwhole, ofWord?_eq_none_iff.2 hletters, hvariable, Lexeme.text,
          hname]

theorem wordLexeme_eq_error {letters digits : List Char} {fault : Fault}
    (h : wordLexeme letters digits = .error fault) :
    fault = .invalidOperationToken (String.ofList letters) ∧ ¬ IsVariable letters ∧
      ¬ IsKeyword letters ∧ ¬ IsKeyword (letters ++ digits) := by
  refine ⟨fault_of_wordLexeme h, ?_⟩
  unfold wordLexeme at h
  split at h
  · cases h
  · rename_i hwhole
    split at h
    · cases h
    · cases h
    · rename_i hletters hname
      exact ⟨ofName?_eq_none_iff.1 hname, ofWord?_eq_none_iff.1 hletters,
        ofWord?_eq_none_iff.1 hwhole⟩

/-- A lexeme keeps its name when the digits behind it are cut off. -/
theorem Names.take {letters digits : List Char} {lexeme : Lexeme}
    (h : Names letters digits lexeme) (hletters : ∀ c ∈ letters, isLetter c = true)
    (hdigits : ∀ d ∈ digits, isDigit d = true) {k : Nat}
    (hk : lexeme.text.toList.length ≤ letters.length + k) :
    Names letters (digits.take k) lexeme := by
  have hcut (hword : IsKeyword letters ∨ IsVariable letters) (hne : digits.take k ≠ []) :
      ¬ IsKeyword (letters ++ digits.take k) :=
    not_isKeyword_append hletters (fun d hd => hdigits d (List.mem_of_mem_take hd)) hne hword
  cases h with
  | @withDigits o hword hsymbol =>
      rw [Lexeme.text, hsymbol, List.length_append] at hk
      rw [List.take_of_length_le (by omega)]
      exact .withDigits hword hsymbol
  | @operator o hwhole hword hsymbol =>
      by_cases hne : digits.take k = []
      · rw [hne]
        exact .withDigits hword (by rw [hsymbol, List.append_nil])
      · exact .operator (hcut (.inl ⟨o, hword, hsymbol⟩) hne) hword hsymbol
  | @name v hwhole hname =>
      refine .name ?_ hname
      by_cases hne : digits.take k = []
      · rw [hne, List.append_nil, ← hname]
        exact not_isKeyword_name v
      · exact hcut (.inr ⟨v, hname⟩) hne

/-! ### The first token -/

/-- All that can stand at the beginning of a text. -/
inductive Begins (text : List Char) : Except Fault (Lexeme × Nat) → Prop
  | sign {c : Char} {rest : List Char} {lexeme : Lexeme} : text = c :: rest →
      isLetter c = false → isDigit c = false → lexeme.text = String.singleton c →
      (∀ digits, lexeme ≠ .digits digits) → Begins text (.ok (lexeme, 1))
  | digits : text.takeWhile isDigit ≠ [] →
      Begins text (.ok (.digits (String.ofList (text.takeWhile isDigit)),
        (text.takeWhile isDigit).length))
  | word {letters digits : List Char} {outcome : Except Fault (Lexeme × Nat)} :
      letters = text.takeWhile isLetter → letters ≠ [] →
      digits = (text.dropWhile isLetter).takeWhile isDigit →
      wordLexeme letters digits = outcome → Begins text outcome
  | foreign {c : Char} {rest : List Char} : text = c :: rest → isLetter c = false →
      isDigit c = false → c ∉ ['(', ')', '+', '-', '*', '/'] →
      Begins text (.error (.unexpectedCharacter (some (String.singleton c))))

theorem firstLexeme_letter {c : Char} (hc : isLetter c = true) (rest : List Char) :
    firstLexeme c rest =
      wordLexeme (c :: rest.takeWhile isLetter) ((rest.dropWhile isLetter).takeWhile isDigit) := by
  unfold firstLexeme
  split
  case h_7 => rw [if_neg (by simp [isDigit_of_isLetter hc]), if_pos hc]
  all_goals exact absurd hc (by decide)

theorem begins_firstLexeme (c : Char) (rest : List Char) :
    Begins (c :: rest) (firstLexeme c rest) := by
  by_cases hletter : isLetter c = true
  · rw [firstLexeme_letter hletter]
    refine .word ?_ (List.cons_ne_nil _ _) ?_ rfl
    · rw [List.takeWhile_cons_of_pos hletter]
    · rw [List.dropWhile_cons_of_pos hletter]
  · by_cases hdigit : isDigit c = true
    · rw [firstLexeme_digit hdigit, ← List.takeWhile_cons_of_pos hdigit]
      refine .digits ?_
      rw [List.takeWhile_cons_of_pos hdigit]
      exact List.cons_ne_nil _ _
    · rw [Bool.not_eq_true] at hletter hdigit
      unfold firstLexeme
      split
      case h_7 =>
        rw [if_neg (by simp [hdigit]), if_neg (by simp [hletter])]
        exact .foreign rfl hletter hdigit (by simp_all)
      all_goals exact .sign rfl hletter hdigit rfl nofun

theorem dropWhile_take (p : Char → Bool) (text : List Char) (k : Nat) :
    (text.take k).dropWhile p = (text.dropWhile p).take (k - (text.takeWhile p).length) := by
  induction text generalizing k with
  | nil => simp
  | cons c text ih =>
      cases k with
      | zero => simp
      | succ k => by_cases hc : p c = true <;> simp [hc, ih]

/-- A cut behind the first token does not change it. -/
theorem firstLexeme_take {c : Char} {rest : List Char} {lexeme : Lexeme} {length : Nat}
    (h : firstLexeme c rest = .ok (lexeme, length)) {k : Nat} (hk : length ≤ k + 1) :
    firstLexeme c (rest.take k) = .ok (lexeme, length) := by
  have hkept {p : Char → Bool} (hlength : (c :: rest.takeWhile p).length ≤ length) :
      (rest.take k).takeWhile p = rest.takeWhile p := by
    rw [List.length_cons] at hlength
    rw [← List.take_takeWhile, List.take_of_length_le (by omega)]
  by_cases hletter : isLetter c = true
  · rw [firstLexeme_letter hletter] at h ⊢
    obtain ⟨-, hletters, -⟩ := wellFormed_of_wordLexeme h
    obtain ⟨hnames, rfl⟩ := wordLexeme_eq_ok_iff.1 h
    rw [hkept hletters, dropWhile_take, ← List.take_takeWhile]
    rw [List.length_cons] at hletters
    refine wordLexeme_eq_ok_iff.2 ⟨hnames.take ?_ (fun _ => List.mem_takeWhile_imp) ?_, rfl⟩
    · exact List.forall_mem_cons.2 ⟨hletter, fun _ => List.mem_takeWhile_imp⟩
    · rw [List.length_cons]
      omega
  · by_cases hdigit : isDigit c = true
    · rw [firstLexeme_digit hdigit] at h ⊢
      cases h
      rw [hkept (Nat.le_refl _)]
    · rw [← h]
      unfold firstLexeme
      split <;> simp [hletter, hdigit]

/-! ### Ends of tokens -/

/-- The characters are not two letters, and not two digits either. -/
def Apart (c d : Char) : Prop :=
  ¬ (isLetter c = true ∧ isLetter d = true) ∧ ¬ (isDigit c = true ∧ isDigit d = true)

theorem apart_of_letter {c d : Char} (hc : isLetter c = true) (hd : isLetter d = false) :
    Apart c d := by
  simp [Apart, isDigit_of_isLetter hc, hd]

theorem apart_of_digit {c d : Char} (hc : isDigit c = true) (hd : isDigit d = false) :
    Apart c d := by
  simp [Apart, isLetter_of_isDigit hc, hd]

theorem head_of_takeWhile_append {p : Char → Bool} {text after : List Char}
    (h : text = text.takeWhile p ++ after) : ∀ d ∈ after.head?, p d = false := by
  have hafter : after = text.dropWhile p :=
    List.append_cancel_left (h.symm.trans List.takeWhile_append_dropWhile.symm)
  intro d hd
  have hhead := List.head?_dropWhile_not p text
  rwa [← hafter, hd] at hhead

/-- The first token does not end between two letters or two digits. -/
theorem apart_of_firstLexeme {c : Char} {rest after : List Char} {lexeme : Lexeme} {length : Nat}
    (h : firstLexeme c rest = .ok (lexeme, length))
    (hsplit : c :: rest = lexeme.text.toList ++ after) :
    ∀ a ∈ lexeme.text.toList.getLast?, ∀ d ∈ after.head?, Apart a d := by
  intro a ha d hd
  have hmem := List.mem_of_getLast? ha
  have hbegins := begins_firstLexeme c rest
  rw [h] at hbegins
  cases hbegins with
  | sign htext hletter hdigit hsign _ =>
      rw [hsign, String.toList_singleton, List.mem_singleton] at hmem
      cases htext
      simp [Apart, hmem, hletter, hdigit]
  | digits hne =>
      rw [Lexeme.text, String.toList_ofList] at hmem hsplit
      exact apart_of_digit (List.mem_takeWhile_imp hmem) (head_of_takeWhile_append hsplit d hd)
  | @word letters digits _ hletters hne hdigits hword =>
      have hsome : c :: rest = letters ++ after → lexeme.text.toList = letters → Apart a d := by
        intro hsplit htext
        rw [htext, hletters] at hmem
        rw [hletters] at hsplit
        exact apart_of_letter (List.mem_takeWhile_imp hmem)
          (head_of_takeWhile_append hsplit d hd)
      obtain ⟨hnames, -⟩ := wordLexeme_eq_ok_iff.1 hword
      cases hnames with
      | @withDigits o _ hsymbol =>
          change o.symbol.toList.getLast? = some a at ha
          change c :: rest = o.symbol.toList ++ after at hsplit
          rw [hsymbol] at ha hsplit
          by_cases hnil : digits = []
          · rw [hnil, List.append_nil] at hsplit hsymbol
            exact hsome hsplit hsymbol
          · rw [List.getLast?_append_of_ne_nil _ hnil] at ha
            have hbehind : (c :: rest).dropWhile isLetter = digits ++ after := by
              rw [List.append_assoc, hletters] at hsplit
              exact List.append_cancel_left
                (List.takeWhile_append_dropWhile.trans hsplit)
            have hlast := List.mem_of_getLast? ha
            rw [hdigits] at hlast hbehind
            exact apart_of_digit (List.mem_takeWhile_imp hlast)
              (head_of_takeWhile_append hbehind d hd)
      | operator _ _ hsymbol =>
          rw [Lexeme.text, hsymbol] at hsplit
          exact hsome hsplit hsymbol
      | name _ hname =>
          rw [Lexeme.text, hname] at hsplit
          exact hsome hsplit hname

/-! ### Steps -/

/-- One token may end before the place and another one begin there. -/
def BreaksAt (text : List Char) (place : Nat) : Prop :=
  ∀ c ∈ (text.take place).getLast?, ∀ d ∈ (text.drop place).head?, Apart c d

theorem drop_takeWhile (p : Char → Bool) (text : List Char) :
    text.drop (text.takeWhile p).length = text.dropWhile p := by
  calc text.drop (text.takeWhile p).length
    _ = (text.takeWhile p ++ text.dropWhile p).drop (text.takeWhile p).length := by
        rw [List.takeWhile_append_dropWhile]
    _ = text.dropWhile p := List.drop_left

variable {text rest : List Char} {place length : Nat} {tokens : List Token} {c : Char}
  {lexeme : Lexeme}

theorem runAt_takeWhile {p : Char → Bool} (hdrop : text.drop place = c :: rest)
    (hne : (text.drop place).takeWhile p ≠ [])
    (hapart : ∀ a ∈ (text.take place).getLast?, ¬ (p a = true ∧ p c = true)) :
    RunAt p text place ((text.drop place).takeWhile p) := by
  have hc : p c = true := by
    by_contra hc
    rw [hdrop, List.takeWhile_cons_of_neg hc] at hne
    exact hne rfl
  exact ⟨hne, rfl, fun a ha => Bool.eq_false_iff.2 fun h => hapart a ha ⟨h, hc⟩⟩

theorem digitsBehind_eq {letters : List Char} (h : letters = (text.drop place).takeWhile isLetter) :
    digitsBehind text place letters = ((text.drop place).dropWhile isLetter).takeWhile isDigit := by
  rw [digitsBehind, ← List.drop_drop, h, drop_takeWhile]

/-- What begins at a place where no run goes on. -/
theorem maximal_of_firstLexeme (hbreaks : BreaksAt text place) (hdrop : text.drop place = c :: rest)
    (h : firstLexeme c rest = .ok (lexeme, length)) : Maximal text ⟨lexeme, place⟩ := by
  have hapart (a : Char) (ha : a ∈ (text.take place).getLast?) : Apart a c :=
    hbreaks a ha c (by rw [hdrop]; rfl)
  have hbegins := begins_firstLexeme c rest
  rw [h, ← hdrop] at hbegins
  cases hbegins with
  | sign htext hletter hdigit hsign hnumber =>
      refine ⟨fun digits hdigits => absurd hdigits (hnumber digits), fun d hd hword => ?_⟩
      rw [hsign, String.toList_singleton] at hd
      cases hd
      rw [hletter] at hword
      cases hword
  | digits hne =>
      refine ⟨fun digits hdigits => ?_, fun d hd hword => ?_⟩
      · cases hdigits
        rw [String.toList_ofList]
        exact runAt_takeWhile hdrop hne fun a ha => (hapart a ha).2
      · rw [Lexeme.text, String.toList_ofList] at hd
        have hdigit := List.mem_takeWhile_imp (List.mem_of_mem_head? hd)
        rw [isLetter_of_isDigit hdigit] at hword
        cases hword
  | @word letters digits _ hletters hne hdigits hword =>
      obtain ⟨hnames, -⟩ := wordLexeme_eq_ok_iff.1 hword
      refine ⟨fun digits hnumber => ?_, fun d _ _ => ⟨letters, ?_, ?_⟩⟩
      · cases hnumber
        cases hnames
      · rw [hletters] at hne ⊢
        exact runAt_takeWhile hdrop hne fun a ha => (hapart a ha).1
      · rwa [digitsBehind_eq hletters, ← hdigits]

/-- Where the first token is at fault, and no run goes on there. -/
theorem stopsAt_of_firstLexeme {fault : Fault} (hbreaks : BreaksAt text place)
    (hdrop : text.drop place = c :: rest) (hc : c ≠ ' ') (h : firstLexeme c rest = .error fault) :
    StopsAt text place fault := by
  have hbegins := begins_firstLexeme c rest
  rw [h, ← hdrop] at hbegins
  cases hbegins with
  | word hletters hne hdigits hword =>
      obtain ⟨rfl, hvariable, hkeyword, hwhole⟩ := wordLexeme_eq_error hword
      rw [hdigits, ← digitsBehind_eq hletters] at hwhole
      refine .word ?_ hvariable hkeyword hwhole
      rw [hletters] at hne ⊢
      exact runAt_takeWhile hdrop hne fun a ha => (hbreaks a ha c (by rw [hdrop]; rfl)).1
  | foreign htext hletter hdigit hsign =>
      obtain ⟨rfl, -⟩ := List.cons.inj (hdrop.symm.trans htext)
      refine .character ?_ hletter hdigit (by simp_all)
      rw [← List.head?_drop, hdrop]
      rfl

theorem Account.space (h : Account text place tokens) (hspace : text[place]? = some ' ') :
    Account text (place + 1) tokens where
  located := h.located
  apart := h.apart
  stop_le t ht := (h.stop_le t ht).trans (Nat.le_succ place)
  spaces i hi hout := by
    obtain hlt | rfl := Nat.lt_or_eq_of_le (Nat.le_of_lt_succ hi)
    · exact h.spaces i hlt hout
    · exact hspace
  maximal := h.maximal

theorem Account.token {t : Token} (h : Account text t.position tokens) (ht : t.Located text)
    (hmaximal : t.Maximal text) : Account text t.stop (tokens ++ [t]) where
  located := List.forall_mem_append.2 ⟨h.located, List.forall_mem_singleton.2 ht⟩
  apart := by
    refine List.pairwise_append.2 ⟨h.apart, List.pairwise_singleton _ t, fun u hu v hv => ?_⟩
    rw [List.mem_singleton.1 hv]
    exact h.stop_le u hu
  stop_le := by
    refine List.forall_mem_append.2 ⟨fun u hu => ?_, List.forall_mem_singleton.2 (Nat.le_refl _)⟩
    exact (h.stop_le u hu).trans (Nat.le_add_right _ _)
  spaces i hi hout := by
    obtain ⟨hbefore, hlast⟩ := List.forall_mem_append.1 hout
    have hlt : i < t.position := (List.forall_mem_singleton.1 hlast).resolve_right (by omega)
    exact h.spaces i hlt hbefore
  maximal := List.forall_mem_append.2 ⟨h.maximal, List.forall_mem_singleton.2 hmaximal⟩

/-- The part of the text that the next token takes. -/
theorem text_of_next (hdrop : text.drop place = c :: rest)
    (h : firstLexeme c rest = .ok (lexeme, length)) :
    c :: rest = lexeme.text.toList ++ text.drop (place + length) ∧
      text.take (place + length) = text.take place ++ lexeme.text.toList := by
  obtain ⟨⟨after, hafter⟩, hlength⟩ := text_of_firstLexeme h
  rw [List.take_add, ← List.drop_drop, hdrop, ← hafter, ← hlength, List.take_left, List.drop_left]
  exact ⟨rfl, rfl⟩

theorem drop_next (hdrop : text.drop place = c :: rest)
    (h : firstLexeme c rest = .ok (lexeme, length)) :
    text.drop (place + length) = rest.drop (length - 1) := by
  obtain ⟨-, hone, -⟩ := wellFormed_of_firstLexeme h
  obtain ⟨k, rfl⟩ : ∃ k, length = k + 1 := ⟨length - 1, by omega⟩
  rw [← List.drop_drop, hdrop, List.drop_succ_cons, Nat.add_sub_cancel]

theorem located_of_firstLexeme (hdrop : text.drop place = c :: rest)
    (h : firstLexeme c rest = .ok (lexeme, length)) : Token.Located text ⟨lexeme, place⟩ := by
  obtain ⟨hbegins, hlength⟩ := text_of_firstLexeme h
  obtain ⟨-, hone, -⟩ := wellFormed_of_firstLexeme h
  have hne : lexeme.text.toList ≠ [] := List.length_pos_iff.1 (by omega)
  exact ⟨hne, hdrop ▸ hbegins⟩

/-! ### Runs of the scanner -/

theorem Reaches.breaksAt (h : Reaches text place tokens) : BreaksAt text place := by
  cases h with
  | start => rintro c ⟨⟩
  | @space place _ rest _ hdrop =>
      have htake : text.take (place + 1) = text.take place ++ [' '] := by
        rw [List.take_add, hdrop]
        rfl
      intro c hc d _
      rw [htake, List.getLast?_concat] at hc
      cases hc
      have hspace : isLetter ' ' = false ∧ isDigit ' ' = false := by decide
      simp [Apart, hspace]
  | @token place length tokens c rest lexeme _ hdrop hc hfirst =>
      obtain ⟨hsplit, htake⟩ := text_of_next hdrop hfirst
      obtain ⟨hne, -⟩ := located_of_firstLexeme hdrop hfirst
      intro a ha d hd
      rw [htake, List.getLast?_append_of_ne_nil _ hne] at ha
      exact apart_of_firstLexeme hfirst hsplit a ha d hd

theorem Reaches.account (h : Reaches text place tokens) : Account text place tokens := by
  induction h with
  | start => exact ⟨List.forall_mem_nil _, .nil, List.forall_mem_nil _, nofun, List.forall_mem_nil _⟩
  | space _ hdrop ih =>
      refine ih.space ?_
      rw [← List.head?_drop, hdrop]
      rfl
  | token hreaches hdrop hc hfirst ih =>
      have hstop := (text_of_firstLexeme hfirst).2
      rw [← hstop]
      exact Account.token ih (located_of_firstLexeme hdrop hfirst)
        (maximal_of_firstLexeme hreaches.breaksAt hdrop hfirst)

theorem Reaches.le_length (h : Reaches text place tokens) : place ≤ text.length := by
  cases h with
  | start => exact Nat.zero_le _
  | space _ hdrop =>
      have hlength := congrArg List.length hdrop
      rw [List.length_drop, List.length_cons] at hlength
      omega
  | token _ hdrop _ hfirst =>
      have hlength := congrArg List.length (text_of_next hdrop hfirst).2
      have hstop := (text_of_firstLexeme hfirst).2
      have hplace := congrArg List.length hdrop
      simp only [List.length_append, List.length_take, List.length_drop, List.length_cons]
        at hlength hplace
      omega

theorem drop_take_cons (hdrop : text.drop place = c :: rest) {cut : Nat} (hcut : place < cut) :
    (text.take cut).drop place = c :: rest.take (cut - place - 1) := by
  rw [List.drop_take, hdrop, List.take_cons (by omega)]

/-- What comes behind the place does not matter for the tokens before it. -/
theorem Reaches.take (h : Reaches text place tokens) {cut : Nat} (hcut : place ≤ cut) :
    Reaches (text.take cut) place tokens := by
  induction h with
  | start => exact .start
  | space _ hdrop ih => exact (ih (by omega)).space (drop_take_cons hdrop hcut)
  | token _ hdrop hc hfirst ih =>
      obtain ⟨-, hone, -⟩ := wellFormed_of_firstLexeme hfirst
      exact (ih (by omega)).token (drop_take_cons hdrop (by omega)) hc
        (firstLexeme_take hfirst (by omega))

theorem scanFrom_of_reaches (h : Reaches text place tokens) :
    scanFrom 0 text = (scanFrom place (text.drop place)).map (tokens ++ ·) := by
  induction h with
  | start =>
      rw [List.drop_zero]
      cases scanFrom 0 text <;> rfl
  | space _ hdrop ih =>
      rw [ih, hdrop, scanFrom_space, ← List.drop_drop, hdrop]
      rfl
  | @token place length tokens c rest lexeme _ hdrop hc hfirst ih =>
      rw [ih, hdrop, scanFrom_ok hc hfirst, drop_next hdrop hfirst]
      cases scanFrom (place + length) (rest.drop (length - 1)) <;> simp [Except.map]

/-- A text whose end is reached is scanned. -/
theorem scanFrom_of_reaches_end (h : Reaches text text.length tokens) :
    scanFrom 0 text = .ok tokens := by
  have hscan := scanFrom_of_reaches h
  rw [List.drop_length, scanFrom] at hscan
  rw [hscan, Outcome.ok_map, List.append_nil]

theorem scanFrom_take (h : Reaches text place tokens) :
    scanFrom 0 (text.take place) = .ok tokens := by
  have hlength : (text.take place).length = place := List.length_take_of_le h.le_length
  refine scanFrom_of_reaches_end ?_
  rw [hlength]
  exact h.take (Nat.le_refl place)

/-- The scanner comes to the end of the text, or to a place where the first token is at fault. -/
theorem reaches_scanFrom (h : Reaches text place tokens) (hrest : text.drop place = rest) :
    (∃ more, scanFrom place rest = .ok more ∧ Reaches text text.length (tokens ++ more)) ∨
      ∃ last found fault, scanFrom place rest = .error ⟨fault, some (last : Nat)⟩ ∧
        Reaches text last found ∧ StopsAt text last fault := by
  fun_induction scanFrom place rest generalizing tokens with
  | case1 place =>
      have hend : place = text.length :=
        Nat.le_antisymm h.le_length (List.drop_eq_nil_iff.1 hrest)
      rw [← hend]
      exact .inl ⟨[], rfl, by rwa [List.append_nil]⟩
  | case2 place rest ih =>
      refine ih (h.space hrest) ?_
      rw [← List.drop_drop, hrest]
      rfl
  | case3 place c rest hc fault hfirst =>
      exact .inr ⟨place, tokens, fault, rfl, h,
        stopsAt_of_firstLexeme h.breaksAt hrest hc hfirst⟩
  | case4 place c rest hc lexeme length hfirst ih =>
      obtain ⟨more, hmore, hreaches⟩ | ⟨last, found, fault, herror, hlast⟩ :=
        ih (h.token hrest hc hfirst) (drop_next hrest hfirst)
      · rw [List.append_assoc] at hreaches
        exact .inl ⟨⟨lexeme, place⟩ :: more, by rw [hmore, Outcome.ok_map], hreaches⟩
      · exact .inr ⟨last, found, fault, by rw [herror, Outcome.error_map], hlast⟩

/-- When a text can be scanned, its tokens, each as long as possible, and the spaces between them
are the whole text. Otherwise the scanner stops at a place where no token begins, and the text
before that place has the tokens found so far. -/
theorem scan_accounts_for_text (text : String) :
    (∀ tokens, scan text = .ok tokens →
      Reaches text.toList text.length tokens ∧ Account text.toList text.length tokens) ∧
    ∀ err, scan text = .error err →
      ∃ (place : Nat) (tokens : List Token), err.position = some (place : Int) ∧
        Reaches text.toList place tokens ∧ Account text.toList place tokens ∧
        scan (String.ofList (text.toList.take place)) = .ok tokens ∧
        StopsAt text.toList place err.fault := by
  rw [← String.length_toList]
  obtain ⟨more, hscan, hreaches⟩ | ⟨place, found, fault, hscan, hreaches, hstops⟩ :=
    reaches_scanFrom (@Reaches.start text.toList) rfl
  · refine ⟨fun tokens h => ?_, fun err h => ?_⟩
    · cases h.symm.trans hscan
      exact ⟨hreaches, hreaches.account⟩
    · cases h.symm.trans hscan
  · refine ⟨fun tokens h => ?_, fun err h => ?_⟩
    · cases h.symm.trans hscan
    · cases h.symm.trans hscan
      refine ⟨place, found, rfl, hreaches, hreaches.account, ?_, hstops⟩
      rw [scan, String.toList_ofList]
      exact scanFrom_take hreaches

/-- The word `sumrec3` has its digit, `negate` and `x` leave theirs; the letters `sumrec` with
other digits stop the scanner. -/
theorem scan_accounts_for_digits :
    (∃ tokens, scan "(sumrec3x negate3)" = .ok tokens ∧
      Reaches "(sumrec3x negate3)".toList 18 tokens ∧
      Account "(sumrec3x negate3)".toList 18 tokens ∧
      tokens.map (fun t => (t.lexeme.text, t.position)) =
        [("(", 0), ("sumrec3", 1), ("x", 8), ("negate", 10), ("3", 16), (")", 17)]) ∧
    scan "x2 sumrec34" = .error ⟨.invalidOperationToken "sumrec", some 3⟩ ∧
    ∃ (place : Nat) (tokens : List Token), some (3 : Int) = some (place : Int) ∧
      Reaches "x2 sumrec34".toList place tokens ∧ Account "x2 sumrec34".toList place tokens ∧
      scan (String.ofList ("x2 sumrec34".toList.take place)) = .ok tokens ∧
      StopsAt "x2 sumrec34".toList place (.invalidOperationToken "sumrec") := by
  have hscan : scan "(sumrec3x negate3)" =
      .ok [⟨.opening, 0⟩, ⟨.operator (.reciprocalSum 1), 1⟩, ⟨.variable .x, 8⟩,
        ⟨.operator .negate, 10⟩, ⟨.digits "3", 16⟩, ⟨.closing, 17⟩] := by
    decide +kernel
  have hstop : scan "x2 sumrec34" = .error ⟨.invalidOperationToken "sumrec", some 3⟩ := by
    decide +kernel
  obtain ⟨hreaches, haccount⟩ := (scan_accounts_for_text _).1 _ hscan
  exact ⟨⟨_, hscan, hreaches, haccount, by decide +kernel⟩, hstop,
    (scan_accounts_for_text "x2 sumrec34").2 _ hstop⟩

end Trivar.Token
