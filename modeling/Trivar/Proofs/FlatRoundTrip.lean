import Trivar.Proofs.FlatGrammar

/-!
Rendering in flat notation and reading back. A rendered expression is its
sentence, each terminal written as a word, with single spaces between the
words (`flatText_eq_spaced`), and the words of such a text are found again.
-/

namespace Trivar

/-- How a terminal is rendered. -/
def Terminal.text : Terminal → String
  | .opening => "("
  | .closing => ")"
  | .operator o => o.symbol
  | .leaf a => a.text

theorem spaced_flatten {parts : List (List String)} (h : ∀ words ∈ parts, words ≠ []) :
    spaced (parts.map spaced) = spaced parts.flatten := by
  induction parts with
  | nil => rfl
  | cons words parts ih =>
      obtain ⟨hwords, hparts⟩ := List.forall_mem_cons.1 h
      rw [List.map_cons, List.flatten_cons]
      cases parts with
      | nil => simp [spaced]
      | cons next parts =>
          have hrest : (next :: parts).flatten ≠ [] := by
            simpa using fun hnext => absurd hnext (List.forall_mem_cons.1 hparts).1
          simp only [spaced] at ih ⊢
          rw [String.intercalate_append_of_ne_nil hwords hrest, ← ih hparts,
            String.intercalate_cons_of_ne_nil (by simp)]

/-- Sets a symbol before its arguments or after them. -/
def Placement.arrange {α : Type} : Placement → α → List α → List α
  | .first, symbol, args => symbol :: args
  | .last, symbol, args => args ++ [symbol]

theorem Placement.map_arrange {α β : Type} (placement : Placement) (f : α → β) (symbol : α)
    (args : List α) :
    (placement.arrange symbol args).map f = placement.arrange (f symbol) (args.map f) := by
  cases placement <;> simp [arrange]

theorem Placement.mem_arrange {α : Type} {placement : Placement} {a symbol : α} {args : List α} :
    a ∈ placement.arrange symbol args ↔ a = symbol ∨ a ∈ args := by
  cases placement <;> simp [arrange, or_comm]

theorem spaced_arrange (placement : Placement) (symbol : String) {parts : List (List String)}
    (h : ∀ words ∈ parts, words ≠ []) :
    spaced (placement.arrange symbol (parts.map spaced)) =
      spaced (placement.arrange [symbol] parts).flatten := by
  have hsymbol : symbol = spaced [symbol] := String.intercalate_singleton.symm
  have hne : ∀ words ∈ placement.arrange [symbol] parts, words ≠ [] := by
    intro words hwords
    rcases Placement.mem_arrange.1 hwords with rfl | hwords
    · exact List.cons_ne_nil _ _
    · exact h words hwords
  rw [← spaced_flatten hne, Placement.map_arrange, ← hsymbol]

/-- A rendered expression is its sentence. -/
theorem Expr.flatText_eq_spaced (e : Expr) :
    e.flatText = spaced ((e.terminals .flat).map Terminal.text) := by
  induction e using Expr.induct with
  | atom a => exact String.intercalate_singleton.symm
  | apply o args ih =>
      have hparts : args.toList.map flatText =
          (args.toList.map fun e => (e.terminals .flat).map Terminal.text).map spaced := by
        rw [List.map_map]
        exact List.map_congr_left ih
      have hne : ∀ words ∈ args.toList.map fun e => (e.terminals .flat).map Terminal.text,
          words ≠ [] :=
        List.forall_mem_map.2 fun e _ => mt List.map_eq_nil_iff.1 (terminals_ne_nil .flat e)
      calc flatText (.apply o args)
          _ = spaced (args.toList.map flatText ++ [o.symbol]) := by
              rw [flatText, fold_apply, Tuple.toList_map]
          _ = spaced (((args.toList.map fun e => (e.terminals .flat).map Terminal.text) ++
                [[o.symbol]]).flatten) := by
              rw [hparts]
              exact spaced_arrange .last o.symbol hne
          _ = spaced (((Expr.apply o args).terminals .flat).map Terminal.text) := by
              rw [terminals_apply, Form.enclose, List.map_append, List.map_flatMap,
                List.flatten_append, List.flatMap_def]
              rfl

namespace Flat

open Text Word

/-! ### Words of rendered texts -/

theorem wordsFrom_spaced {texts : List String} (h : ∀ text ∈ texts, IsWord text.toList)
    (position : Nat) :
    (wordsFrom position (spaced texts).toList).map Word.text = texts := by
  induction texts generalizing position with
  | nil =>
      rw [spaced, String.intercalate_nil, String.toList_empty, wordsFrom_nil]
      rfl
  | cons text texts ih =>
      obtain ⟨htext, htexts⟩ := List.forall_mem_cons.1 h
      by_cases hlast : texts = []
      · subst hlast
        have hend : ∀ c ∈ ([] : List Char).head?, isBlank c = true := nofun
        have hword := wordsFrom_append htext hend position
        rw [List.append_nil] at hword
        rw [spaced, String.intercalate_singleton, hword, wordsFrom_nil, List.map_singleton,
          String.ofList_toList]
      · have hspaced : (spaced (text :: texts)).toList =
            text.toList ++ ' ' :: (spaced texts).toList := by
          rw [spaced, String.intercalate_cons_of_ne_nil hlast, String.toList_append,
            String.toList_append, List.append_assoc]
          rfl
        have hblank : isBlank ' ' = true := by decide
        rw [hspaced, wordsFrom_append htext (by rintro c ⟨⟩; exact hblank), List.map_cons,
          String.ofList_toList, wordsFrom_cons, if_pos hblank, ih htexts]

/-! ### Rendered expressions -/

theorem isWord_numeral {digits : List Char} {n : Nat} (h : Numeral digits n) : IsWord digits :=
  ⟨h.ne_nil, fun c hc => isBlank_of_isDigit (h.isDigit c hc)⟩

theorem Word.Writes.isWord {text : String} {terminal : Terminal} (h : Writes text terminal) :
    IsWord text.toList := by
  cases h with
  | operator o =>
      obtain ⟨hne, hblank⟩ := Operator.forall_of_all (P := fun o =>
        o.symbol.toList ≠ [] ∧ o.symbol.toList.all (!isBlank ·) = true) (by decide +kernel) o
      exact isWord_of_all hne hblank
  | «variable» v =>
      obtain ⟨hne, hblank⟩ := Variable.forall_of_all (P := fun v =>
        v.name.toList ≠ [] ∧ v.name.toList.all (!isBlank ·) = true) (by decide +kernel) v
      exact isWord_of_all hne hblank
  | numeral hnumeral =>
      rw [String.toList_ofList]
      exact isWord_numeral hnumeral
  | negated hnumeral =>
      rw [String.toList_ofList]
      exact ⟨List.cons_ne_nil _ _, List.forall_mem_cons.2 ⟨by decide, (isWord_numeral hnumeral).2⟩⟩

theorem Word.writes_integer (n : Int) :
    Writes (Decimal.integer n) (.leaf (.number (.int n))) := by
  have hnumeral := numeral_toDigits n.natAbs
  rw [Decimal.integer, Decimal.integerDigits]
  split
  · have hwrites := Writes.negated hnumeral
    rwa [show -(n.natAbs : Int) = n by omega] at hwrites
  · have hwrites := Writes.numeral hnumeral
    rwa [show (n.natAbs : Int) = n by omega] at hwrites

/-- A terminal is rendered as a word that stands for it. -/
theorem Word.writes_text {e : Expr} (h : e.Integral) :
    ∀ t ∈ e.terminals .flat, Writes t.text t := by
  induction e using Expr.induct with
  | atom a =>
      rw [Expr.terminals_atom, List.forall_mem_singleton]
      match a with
      | .number (.int n) => exact Word.writes_integer n
      | .number (.double d) => exact absurd (h _ List.mem_cons_self) Bool.false_ne_true
      | .variable v => exact .variable v
  | apply o args ih =>
      rw [Expr.Integral, Expr.forall_leaves_apply] at h
      intro t ht
      rw [Expr.terminals_apply, Form.enclose, List.mem_append] at ht
      rcases ht with ht | ht
      · obtain ⟨e, he, ht⟩ := List.mem_flatMap.1 ht
        exact ih e he (h e he) t ht
      · rw [List.mem_singleton.1 ht]
        exact .operator o

theorem words_flatText {e : Expr} (h : e.Integral) :
    (words e.flatText).map Word.text = (e.terminals .flat).map Terminal.text := by
  rw [Expr.flatText_eq_spaced, words]
  refine wordsFrom_spaced ?_ 0
  intro text htext
  obtain ⟨t, ht, rfl⟩ := List.mem_map.1 htext
  exact (Word.writes_text h t ht).isWord

/-- The words of a rendered expression write its sentence. -/
theorem writes_flatText {e : Expr} (h : e.Integral) :
    List.Forall₂ (fun w t => Writes w.text t) (words e.flatText) (e.terminals .flat) := by
  have hforall : List.Forall₂ Writes ((words e.flatText).map Word.text) (e.terminals .flat) := by
    rw [words_flatText h, List.forall₂_map_left_iff, List.forall₂_same]
    exact Word.writes_text h
  exact List.forall₂_map_left_iff.1 hforall

theorem isLong_text {a : Atom} (h : a.isIntegral = true) :
    isLong a.text = decide (maxLiteralDigits < a.digitCount) := by
  match a with
  | .variable v => exact isLong_name v
  | .number (.int n) =>
      have hdigits := Literal.dropWhile_minus_numeral (numeral_toDigits n.natAbs)
      rw [isLong, Atom.text, Number.text, Decimal.integer, String.toList_ofList,
        Decimal.integerDigits]
      split
      · rw [List.dropWhile_cons_of_pos (by simp), hdigits]
        rfl
      · rw [hdigits]
        rfl

/-- No word of a rendered expression is too long exactly if no literal is. -/
theorem firstLong?_flatText {e : Expr} (h : e.Integral) :
    firstLong? (words e.flatText) = none ↔ e.Short := by
  have hterminals : firstLong? (words e.flatText) = none ↔
      ∀ t ∈ e.terminals .flat, isLong t.text = false := by
    have hmap : firstLong? (words e.flatText) = none ↔
        ∀ text ∈ (words e.flatText).map Word.text, isLong text = false := by
      simp [firstLong?]
    rw [hmap, words_flatText h, List.forall_mem_map]
  rw [hterminals]
  constructor
  · intro hshort a ha
    have hlong := hshort (.leaf a) (Expr.leaf_mem_terminals.2 ha)
    rw [Terminal.text, isLong_text (h a ha), decide_eq_false_iff_not] at hlong
    omega
  · intro hshort t ht
    cases t with
    | opening => decide +kernel
    | closing => decide +kernel
    | operator o => exact isLong_symbol o
    | leaf a =>
        have ha := Expr.leaf_mem_terminals.1 ht
        have hcount := hshort a ha
        rw [Terminal.text, isLong_text (h a ha), decide_eq_false_iff_not]
        omega

/-! ### Canonical words -/

/-- The word itself, or its number in decimal if it is one. -/
def Word.canonical (text : String) : String :=
  match text.toList with
  | '-' :: cs => if isInteger ('-' :: cs) then Decimal.integer (-digitsValue cs) else text
  | cs => if isInteger cs then Decimal.integer (digitsValue cs) else text

theorem Word.Writes.text_eq_canonical {text : String} {terminal : Terminal}
    (h : Writes text terminal) : terminal.text = canonical text := by
  cases h with
  | operator o =>
      revert o
      exact Operator.forall_of_all (by decide +kernel)
  | «variable» v =>
      revert v
      exact Variable.forall_of_all (by decide +kernel)
  | @numeral digits n hnumeral =>
      rw [canonical, String.toList_ofList]
      split
      · exact absurd List.mem_cons_self hnumeral.minus_not_mem
      · simp only [isInteger_numeral hnumeral, hnumeral.value, if_true]
        rfl
  | @negated digits n hnumeral =>
      rw [canonical, String.toList_ofList]
      simp only [isInteger_negated hnumeral, hnumeral.value, if_true]
      rfl

/-- The sentence of what was read is rendered as the words with their numbers in decimal. -/
theorem text_terminals_of_writes {ws : List Word} {e : Expr}
    (h : List.Forall₂ (fun w t => Writes w.text t) ws (e.terminals .flat)) :
    (e.terminals .flat).map Terminal.text = ws.map fun w => canonical w.text := by
  have hforall : List.Forall₂ Eq (ws.map fun w => canonical w.text)
      ((e.terminals .flat).map Terminal.text) := by
    rw [List.forall₂_map_left_iff, List.forall₂_map_right_iff]
    exact h.imp fun _ _ hwrites => hwrites.text_eq_canonical.symm
  rw [List.forall₂_eq_eq_eq] at hforall
  exact hforall.symm

theorem flatText_of_writes {ws : List Word} {e : Expr}
    (h : List.Forall₂ (fun w t => Writes w.text t) ws (e.terminals .flat)) :
    e.flatText = spaced (ws.map fun w => canonical w.text) := by
  rw [Expr.flatText_eq_spaced, text_terminals_of_writes h]

/-- A text is read as an expression exactly when its words are the sentence of that expression; a
rendered expression is read back exactly if no literal of it is too long; and rendering what was
read changes nothing but the numerals. -/
theorem parseExpr_inverts_flatText :
    (∀ text e, parseExpr text = .ok e ↔
      List.Forall₂ (fun w t => Spells w.text t) (words text) (e.terminals .flat)) ∧
    (∀ e : Expr, e.Integral →
      (e.Short → parseExpr e.flatText = .ok e) ∧
      (¬ e.Short → ∃ w ∈ words e.flatText,
        parseExpr e.flatText = .error ⟨.invalidNumber w.text, some w.position⟩)) ∧
    ∀ text e, parseExpr text = .ok e →
      e.flatText = spaced ((words text).map fun w => canonical w.text) := by
  refine ⟨fun _ _ => parseExpr_eq_ok_iff, fun e h => ?_, fun text e hparse => ?_⟩
  · have hparse := parseExpr_of_writes (writes_flatText h)
    constructor
    · intro hshort
      rw [hparse, (firstLong?_flatText h).2 hshort]
    · intro hlong
      cases hfirst : firstLong? (words e.flatText) with
      | none => exact absurd ((firstLong?_flatText h).1 hfirst) hlong
      | some w =>
          rw [hfirst] at hparse
          exact ⟨w, List.mem_of_find?_eq_some hfirst, hparse⟩
  · have hspells := parseExpr_eq_ok_iff.1 hparse
    exact flatText_of_writes (hspells.imp fun _ _ h => h.1)

/-- Neither leading zeros nor a script of its own change a literal, and a sign is part of it. -/
theorem parseExpr_padded_reciprocals :
    let e : Expr := .apply (.reciprocalSum 1)
      (.cons (.integer 7) (.cons (.atom (.variable .x)) (.cons (.integer (-30)) .nil)))
    parseExpr "007 x  -٣0 sumrec3" = .ok e ∧ e.flatText = "7 x -30 sumrec3" ∧
      parseExpr e.flatText = .ok e := by
  intro e
  obtain ⟨haccept, hrender, hcanonical⟩ := parseExpr_inverts_flatText
  have hparse : parseExpr "007 x  -٣0 sumrec3" = .ok e := by
    have hwords : words "007 x  -٣0 sumrec3" =
        [⟨"007", 0⟩, ⟨"x", 4⟩, ⟨"-٣0", 7⟩, ⟨"sumrec3", 11⟩] := by decide +kernel
    have hseven : Numeral ['0', '0', '7'] 7 :=
      numeral_of_all (by decide) (by decide +kernel) (by decide +kernel)
    have hthirty : Numeral ['٣', '0'] 30 :=
      numeral_of_all (by decide) (by decide +kernel) (by decide +kernel)
    rw [haccept, hwords]
    exact .cons ⟨.numeral hseven, by decide +kernel⟩ (.cons ⟨.variable .x, by decide +kernel⟩
      (.cons ⟨.negated hthirty, by decide +kernel⟩
        (.cons ⟨.operator (.reciprocalSum 1), by decide +kernel⟩ .nil)))
  refine ⟨hparse, ?_, (hrender e (by decide)).1 (by decide)⟩
  rw [hcanonical _ e hparse]
  decide +kernel

end Flat

end Trivar
