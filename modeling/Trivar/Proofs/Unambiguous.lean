import Trivar.Proofs.FlatRoundTrip
import Trivar.Proofs.Unbracketed

/-!
Every notation tells expressions apart. Brackets are not needed for this: with
the brackets deleted, a bracketed text is the sentence of its expression without
brackets, word by word (`Expr.withoutBrackets_bracketedText`), and in such a
sentence the arity of an operation says where its arguments end. Read from the
side where the symbols stand, no sentence goes on after another one
(`Expr.code_append_inj`).

Numbers of any size and sign are words of their own here. That the reader of
bracketed notation takes a sign for an operation does not matter.
-/

namespace Trivar

def isBracket (c : Char) : Bool := c = '(' || c = ')'

/-- Deletes all brackets. -/
def withoutBrackets (text : String) : String :=
  String.ofList (text.toList.filter (!isBracket ·))

/-- No character is a bracket. -/
def BracketFree (text : List Char) : Prop := ∀ c ∈ text, isBracket c = false

instance (text : List Char) : Decidable (BracketFree text) :=
  List.decidableBAll (isBracket · = false) text

theorem BracketFree.append {s t : List Char} (hs : BracketFree s) (ht : BracketFree t) :
    BracketFree (s ++ t) :=
  List.forall_mem_append.2 ⟨hs, ht⟩

theorem BracketFree.cons {c : Char} {t : List Char} (ht : BracketFree t)
    (hc : isBracket c = false) : BracketFree (c :: t) :=
  List.forall_mem_cons.2 ⟨hc, ht⟩

theorem BracketFree.of_subset {s t : List Char} (ht : BracketFree t) (h : s ⊆ t) :
    BracketFree s :=
  fun c hc => ht c (h hc)

theorem withoutBrackets_append (s t : String) :
    withoutBrackets (s ++ t) = withoutBrackets s ++ withoutBrackets t := by
  simp [withoutBrackets, String.ofList_append]

theorem withoutBrackets_of_bracketFree {text : String} (h : BracketFree text.toList) :
    withoutBrackets text = text := by
  have hfilter : text.toList.filter (!isBracket ·) = text.toList :=
    List.filter_eq_self.2 fun c hc => by rw [h c hc]; rfl
  rw [withoutBrackets, hfilter, String.ofList_toList]

theorem withoutBrackets_spaced (words : List String) :
    withoutBrackets (spaced words) = spaced (words.map withoutBrackets) := by
  induction words with
  | nil => rfl
  | cons word words ih =>
      by_cases hlast : words = []
      · subst hlast
        simp [spaced]
      · have hspace : withoutBrackets " " = " " := withoutBrackets_of_bracketFree (by decide)
        rw [List.map_cons, spaced, spaced, String.intercalate_cons_of_ne_nil hlast,
          String.intercalate_cons_of_ne_nil (by simpa using hlast), withoutBrackets_append,
          withoutBrackets_append, hspace]
        exact congrArg _ ih

/-! ### Texts of leaves and operations -/

theorem bracketFree_toDigits (n : Nat) : BracketFree (Nat.toDigits 10 n) := by
  intro c hc
  have hdigit : c.isDigit = true := Nat.isDigit_of_mem_toDigits (by omega) (by omega) hc
  rw [isBracket, Bool.or_eq_false_iff, decide_eq_false_iff_not, decide_eq_false_iff_not]
  constructor <;>
  · rintro rfl
    revert hdigit
    decide

theorem bracketFree_integer (n : Int) : BracketFree (Decimal.integer n).toList := by
  have hdigits := bracketFree_toDigits n.natAbs
  rw [Decimal.integer, String.toList_ofList, Decimal.integerDigits]
  split
  · exact List.forall_mem_cons.2 ⟨by decide, hdigits⟩
  · exact hdigits

theorem bracketFree_zeros (n : Nat) : BracketFree (List.replicate n '0') := by
  intro c hc
  rw [List.eq_of_mem_replicate hc]
  decide

namespace Double

theorem bracketFree_positional {digits : List Char} (h : BracketFree digits) (exponent : Int) :
    BracketFree (positional digits exponent) := by
  unfold positional
  split
  · exact ((bracketFree_zeros _).append h).cons rfl |>.cons rfl
  · refine ((h.of_subset (List.take_subset _ _)).append (bracketFree_zeros _)).append (.cons ?_ rfl)
    split
    · decide
    · exact h.of_subset (List.drop_subset _ _)

theorem bracketFree_scientific {digits : List Char} (h : BracketFree digits) (exponent : Int) :
    BracketFree (scientific digits exponent) := by
  have hplaces (n : Nat) := (bracketFree_zeros n).append (bracketFree_toDigits exponent.natAbs)
  refine ((h.of_subset (List.take_subset _ _)).append ?_).append
    (.cons (.cons (hplaces _) ?_) rfl)
  · split
    · decide
    · exact (h.of_subset (List.drop_subset _ _)).cons rfl
  · split <;> rfl

theorem bracketFree_digitsIn (interval : Decimal.Interval) (value : Nat) :
    BracketFree (digitsIn interval value).1 := by
  intro c hc
  rw [digitsIn, List.mem_reverse] at hc
  exact bracketFree_toDigits _ c (List.mem_reverse.1 ((List.dropWhile_sublist _).subset hc))

theorem bracketFree_magnitudeText (code : Nat) : BracketFree (magnitudeText code) := by
  have hdigits : BracketFree (significantDigits code).1 := by
    rw [significantDigits]
    exact bracketFree_digitsIn _ _
  unfold magnitudeText
  -- The digits are left unopened: their definition holds a power of five that no proof may count.
  generalize significantDigits code = significant at hdigits ⊢
  obtain ⟨digits, exponent⟩ := significant
  split
  · decide
  · dsimp only
    split
    · exact bracketFree_positional hdigits exponent
    · exact bracketFree_scientific hdigits exponent

theorem bracketFree_text (d : Double) : BracketFree d.text.toList := by
  cases d with
  | nan => decide
  | infinite negative => cases negative <;> decide
  | finite negative code =>
      rw [text, String.toList_ofList]
      split
      · exact (bracketFree_magnitudeText code).cons rfl
      · exact bracketFree_magnitudeText code

end Double

theorem Atom.bracketFree_text (a : Atom) : BracketFree a.text.toList := by
  match a with
  | .number (.int n) => exact bracketFree_integer n
  | .number (.double d) => exact d.bracketFree_text
  | .variable v =>
      revert v
      exact Variable.forall_of_all (by decide)

theorem Operator.bracketFree_symbol : ∀ o : Operator, BracketFree o.symbol.toList :=
  Operator.forall_of_all (by decide)

/-! ### Sentences without brackets -/

/-- A list from the side where symbols stand. -/
def Placement.order {α : Type} : Placement → List α → List α
  | .first => id
  | .last => List.reverse

@[simp] theorem Placement.length_order {α : Type} (placement : Placement) (as : List α) :
    (placement.order as).length = as.length := by
  cases placement <;> simp [order]

theorem Placement.mem_order {α : Type} {placement : Placement} {a : α} {as : List α} :
    a ∈ placement.order as ↔ a ∈ as := by
  cases placement <;> simp [order]

theorem Placement.order_injective {α : Type} (placement : Placement) :
    Function.Injective (placement.order (α := α)) := by
  cases placement with
  | first => exact Function.injective_id
  | last => exact List.reverse_injective

namespace Expr

/-- The sentence without brackets. -/
def bare (placement : Placement) : Expr → List Terminal :=
  fold (fun a => [.leaf a]) fun o _ parts =>
    (placement.arrange [.operator o] parts.toList).flatten

@[simp] theorem bare_atom (placement : Placement) (a : Atom) :
    bare placement (.atom a) = [.leaf a] :=
  rfl

theorem bare_apply (placement : Placement) (o : Operator) (args : Tuple Expr o.arity) :
    bare placement (.apply o args) =
      (placement.arrange [.operator o] (args.toList.map (bare placement))).flatten := by
  rw [bare, fold_apply, Tuple.toList_map]

/-- With the symbols last, this is the sentence of flat notation. -/
theorem bare_last (e : Expr) : e.bare .last = e.terminals .flat := by
  induction e using induct with
  | atom a => rfl
  | apply o args ih =>
      rw [bare_apply, terminals_apply, Placement.arrange, Form.enclose, List.flatten_append,
        List.flatMap_def, List.map_congr_left ih]
      rfl

theorem mem_bare_apply {placement : Placement} {o : Operator} {args : Tuple Expr o.arity}
    {t : Terminal} :
    t ∈ bare placement (.apply o args) ↔
      t = .operator o ∨ ∃ e ∈ args.toList, t ∈ e.bare placement := by
  simp [bare_apply, Placement.mem_arrange]

/-- Both placements of the symbols give the same terminals. -/
theorem mem_bare {placement : Placement} {t : Terminal} {e : Expr} :
    t ∈ e.bare placement ↔ t ∈ e.terminals .flat := by
  induction e using induct with
  | atom a => rfl
  | apply o args ih =>
      rw [← bare_last, mem_bare_apply, mem_bare_apply]
      refine or_congr_right (exists_congr fun e => and_congr_right fun he => ?_)
      rw [ih e he, bare_last]

theorem bare_ne_nil (placement : Placement) (e : Expr) : e.bare placement ≠ [] := by
  obtain ⟨t, ht⟩ := List.exists_mem_of_ne_nil _ (terminals_ne_nil .flat e)
  exact List.ne_nil_of_mem (mem_bare.2 ht)

/-- The words of a sentence without brackets, rendered. -/
def bareTexts (placement : Placement) (e : Expr) : List String :=
  (e.bare placement).map Terminal.text

theorem spaced_bareTexts_apply (placement : Placement) (o : Operator)
    (args : Tuple Expr o.arity) :
    spaced (bareTexts placement (.apply o args)) =
      spaced (placement.arrange o.symbol
        (args.toList.map fun e => spaced (bareTexts placement e))) := by
  have hne : ∀ words ∈ args.toList.map (bareTexts placement), words ≠ [] :=
    List.forall_mem_map.2 fun e _ => mt List.map_eq_nil_iff.1 (bare_ne_nil placement e)
  have hflatten : bareTexts placement (.apply o args) =
      (placement.arrange [o.symbol] (args.toList.map (bareTexts placement))).flatten := by
    rw [bareTexts, bare_apply, List.map_flatten, Placement.map_arrange, List.map_map]
    rfl
  rw [hflatten, ← spaced_arrange placement o.symbol hne, List.map_map]
  rfl

/-- With the brackets deleted, a text is the sentence without brackets. -/
theorem withoutBrackets_bracketedText (placement : Placement) (e : Expr) :
    withoutBrackets (e.bracketedText placement) = spaced (bareTexts placement e) := by
  induction e using induct with
  | atom a =>
      rw [bareTexts, bare_atom, List.map_singleton, spaced, String.intercalate_singleton]
      exact withoutBrackets_of_bracketFree a.bracketFree_text
  | apply o args ih =>
      have htext : bracketedText placement (.apply o args) =
          "(" ++ spaced (placement.arrange o.symbol
            (args.toList.map (bracketedText placement))) ++ ")" := by
        rw [bracketedText_apply]
        cases placement <;> rfl
      have hsymbol := withoutBrackets_of_bracketFree o.bracketFree_symbol
      have hargs : (args.toList.map (bracketedText placement)).map withoutBrackets =
          args.toList.map fun e => spaced (bareTexts placement e) := by
        rw [List.map_map]
        exact List.map_congr_left ih
      have hopening : withoutBrackets "(" = "" := by decide
      have hclosing : withoutBrackets ")" = "" := by decide
      rw [htext, withoutBrackets_append, withoutBrackets_append, hopening, hclosing,
        String.empty_append, String.append_empty, withoutBrackets_spaced, Placement.map_arrange,
        hsymbol, hargs, spaced_bareTexts_apply]

theorem flatText_eq_spaced_bareTexts (e : Expr) : e.flatText = spaced (bareTexts .last e) := by
  rw [flatText_eq_spaced, bareTexts, bare_last]

/-! ### Where a sentence ends -/

/-- The sentence without brackets, read from the side where symbols stand. -/
def code (placement : Placement) (e : Expr) : List Terminal := placement.order (e.bare placement)

theorem code_atom (placement : Placement) (a : Atom) : code placement (.atom a) = [.leaf a] := by
  cases placement <;> rfl

theorem code_apply (placement : Placement) (o : Operator) (args : Tuple Expr o.arity) :
    code placement (.apply o args) =
      .operator o :: (placement.order args.toList).flatMap (code placement) := by
  rw [code, bare_apply]
  cases placement with
  | first => rfl
  | last =>
      rw [Placement.arrange, List.flatten_append, ← List.flatMap_def]
      simp only [Placement.order, List.reverse_append, List.reverse_flatMap]
      rfl

/-- What is true of the codes of single expressions is true of rows of codes: they can be told
apart whatever follows. -/
theorem flatMap_code_append_inj {placement : Placement} {es es' : List Expr}
    {rest rest' : List Terminal} (hlength : es.length = es'.length)
    (hinj : ∀ e ∈ es, ∀ e' rest rest',
      code placement e ++ rest = code placement e' ++ rest' → e = e' ∧ rest = rest')
    (h : es.flatMap (code placement) ++ rest = es'.flatMap (code placement) ++ rest') :
    es = es' ∧ rest = rest' := by
  induction es generalizing es' with
  | nil =>
      obtain rfl := List.length_eq_zero_iff.1 hlength.symm
      exact ⟨rfl, h⟩
  | cons e es ih =>
      obtain ⟨e', es', rfl⟩ := List.exists_cons_of_length_eq_add_one hlength.symm
      rw [List.flatMap_cons, List.flatMap_cons, List.append_assoc, List.append_assoc] at h
      obtain ⟨hfirst, hothers⟩ := List.forall_mem_cons.1 hinj
      obtain ⟨rfl, hrest⟩ := hfirst _ _ _ h
      obtain ⟨rfl, rfl⟩ := ih (Nat.succ.inj hlength) hothers hrest
      exact ⟨rfl, rfl⟩

/-- No code goes on after another one, since a symbol says how many arguments follow it. -/
theorem code_append_inj {placement : Placement} {e e' : Expr} {rest rest' : List Terminal}
    (h : code placement e ++ rest = code placement e' ++ rest') : e = e' ∧ rest = rest' := by
  -- What follows differs from argument to argument, so it is not fixed in the induction.
  induction e using induct generalizing e' rest rest' with
  | atom a =>
      cases e' with
      | atom a' =>
          rw [code_atom, code_atom] at h
          obtain ⟨ha, hrest⟩ := List.cons.inj h
          obtain rfl := Terminal.leaf.inj ha
          exact ⟨rfl, hrest⟩
      | apply o args =>
          rw [code_atom, code_apply] at h
          cases (List.cons.inj h).1
  | apply o args ih =>
      cases e' with
      | atom a =>
          rw [code_atom, code_apply] at h
          cases (List.cons.inj h).1
      | apply o' args' =>
          rw [code_apply, code_apply] at h
          obtain ⟨ho, hargs⟩ := List.cons.inj h
          obtain rfl := Terminal.operator.inj ho
          have hinj : ∀ e ∈ placement.order args.toList, ∀ e' rest rest',
              code placement e ++ rest = code placement e' ++ rest' → e = e' ∧ rest = rest' :=
            fun e he _ _ _ => ih e (Placement.mem_order.1 he)
          obtain ⟨hrow, hrest⟩ := flatMap_code_append_inj (by simp) hinj hargs
          obtain rfl := Tuple.toList_injective (placement.order_injective hrow)
          exact ⟨rfl, hrest⟩

theorem bare_injective (placement : Placement) : Function.Injective (bare placement) := by
  intro a b h
  have hcode : code placement a ++ [] = code placement b ++ [] := by
    rw [code, code, h]
  exact (code_append_inj hcode).1

end Expr

namespace Flat.Word

/-- The terminal that a word stands for. -/
def terminal? (text : String) : Option Terminal :=
  match Operator.ofSymbol? text, Variable.ofName? text with
  | some o, _ => some (.operator o)
  | none, some v => some (.leaf (.variable v))
  | none, none => (Literal.signedInteger? text.toList).map fun n => .leaf (.number (.int n))

/-- A word stands for one terminal only. -/
theorem Writes.terminal?_eq {text : String} {t : Terminal} (h : Writes text t) :
    terminal? text = some t := by
  match t with
  | .opening | .closing => cases h
  | .operator o =>
      obtain rfl : text = o.symbol := by
        cases h
        rfl
      rw [terminal?, Operator.ofSymbol?_eq_some_iff.2 rfl]
  | .leaf (.variable v) =>
      obtain rfl : text = v.name := by
        cases h
        rfl
      rw [terminal?, ofSymbol?_name, Variable.ofName?_eq_some_iff.2 rfl]
  | .leaf (.number (.double d)) => cases h
  | .leaf (.number (.int n)) =>
      have hinteger := h.integer.1
      rw [terminal?, ofSymbol?_of_isInteger hinteger, ofName?_of_isInteger hinteger]
      cases h with
      | numeral hnumeral =>
          rw [String.toList_ofList, Literal.signedInteger?_numeral hnumeral]
          rfl
      | negated hnumeral =>
          rw [String.toList_ofList, Literal.signedInteger?,
            Literal.joinedDigits?_of_forall hnumeral.ne_nil hnumeral.isDigit, Option.map_some,
            hnumeral.value]
          rfl

end Flat.Word

namespace Expr

open Flat

theorem bareTexts_injective {placement : Placement} {a b : Expr} (ha : a.Integral)
    (hb : b.Integral) (h : bareTexts placement a = bareTexts placement b) : a = b := by
  have hread (e : Expr) (he : e.Integral) :
      (bareTexts placement e).map Word.terminal? = (e.bare placement).map some := by
    rw [bareTexts, List.map_map]
    exact List.map_congr_left fun t ht => (Word.writes_text he t (mem_bare.1 ht)).terminal?_eq
  have hbare : (a.bare placement).map some = (b.bare placement).map some := by
    rw [← hread a ha, ← hread b hb, h]
  exact bare_injective placement ((Option.some_injective _).list_map hbare)

theorem eq_of_spaced_bareTexts {placement : Placement} {a b : Expr} (ha : a.Integral)
    (hb : b.Integral) (h : spaced (bareTexts placement a) = spaced (bareTexts placement b)) :
    a = b := by
  have hwords (e : Expr) (he : e.Integral) :
      (wordsFrom 0 (spaced (bareTexts placement e)).toList).map Word.text =
        bareTexts placement e := by
    refine wordsFrom_spaced (fun text htext => ?_) 0
    obtain ⟨t, ht, rfl⟩ := List.mem_map.1 htext
    exact (Word.writes_text he t (mem_bare.1 ht)).isWord
  have htexts : bareTexts placement a = bareTexts placement b := by
    rw [← hwords a ha, ← hwords b hb, h]
  exact bareTexts_injective ha hb htexts

/-- Expressions of integers, variables and operations that have the same text in one of the three
notations are the same, whatever the size and the sign of the integers; and the text with brackets
and symbols last becomes the flat one when the brackets are deleted. -/
theorem text_unambiguous :
    (∀ (form : Form) (a b : Expr), a.Integral → b.Integral → a.text form = b.text form → a = b) ∧
      ∀ e : Expr, withoutBrackets (e.text (.bracketed .last)) = e.text .flat := by
  constructor
  · intro form a b ha hb h
    cases form with
    | bracketed placement =>
        have hbare : withoutBrackets (a.bracketedText placement) =
            withoutBrackets (b.bracketedText placement) := congrArg withoutBrackets h
        rw [withoutBrackets_bracketedText, withoutBrackets_bracketedText] at hbare
        exact eq_of_spaced_bareTexts ha hb hbare
    | flat =>
        have hbare : a.flatText = b.flatText := h
        rw [flatText_eq_spaced_bareTexts, flatText_eq_spaced_bareTexts] at hbare
        exact eq_of_spaced_bareTexts ha hb hbare
  · intro e
    exact (e.withoutBrackets_bracketedText .last).trans e.flatText_eq_spaced_bareTexts.symm

/-- An expression that was computed is known from its text. -/
theorem text_unambiguous_product :
    let x : Expr := .atom (.variable .x)
    let slope : Expr := derivative "x" (x * integer (-3))
    let e : Expr := integer 1 * integer (-3) + x * integer 0
    slope.Integral ∧ e.Integral ∧ slope.text .flat = e.text .flat ∧ slope = e ∧
      withoutBrackets "((1 -3 *) (x 0 *) +)" = "1 -3 * x 0 * +" := by
  intro x slope e
  obtain ⟨hinjective, hbrackets⟩ := text_unambiguous
  have hslope : slope.Integral := by decide
  have he : e.Integral := by decide
  have htext : slope.text .flat = e.text .flat := by decide +kernel
  refine ⟨hslope, he, htext, hinjective .flat slope e hslope he htext, ?_⟩
  have hflat : e.text .flat = "1 -3 * x 0 * +" := by decide +kernel
  have hbracketed : e.text (.bracketed .last) = "((1 -3 *) (x 0 *) +)" := by decide +kernel
  rw [← hbracketed, hbrackets, hflat]

end Expr

end Trivar
