import Trivar.Closure
import Trivar.Proofs.BracketedGrammar
import Trivar.Proofs.Construction
import Trivar.Source

/-!
Where errors are. A reader that fails says at which place of the text and cites
what stands there, or says that the text ends too early; only an empty text and
a flat expression of too many values have no place (`parse_located`).

Tokens and words carry their place, and a token or word is the part of the text
at its place. This holds of what scanner and splitter return, and the readers
keep it for the tokens that are left and for the operations of open brackets.
All places and parts that errors are made of come from there. `Locates` says so
of a computation, and is proved of every function on the way from the text to
the expression.
-/

namespace Trivar

/-- A part of the text, not the empty one, begins at the place. -/
def PartAt (text : List Char) (place : Nat) (part : String) : Prop :=
  part.toList ≠ [] ∧ part.toList <+: text.drop place

theorem PartAt.lt {text : List Char} {place : Nat} {part : String} (h : PartAt text place part) :
    place < text.length := by
  obtain ⟨hne, hpart⟩ := h
  have hpos := List.length_pos_iff.2 hne
  have hlength := hpart.length_le
  rw [List.length_drop] at hlength
  omega

namespace Fault

/-- The text that a fault is about. The faults of single tokens quote it. -/
inductive Cites : Fault → String → Prop
  | unexpectedCharacter (part : String) : Cites (.unexpectedCharacter (some part)) part
  | invalidOperationToken (part : String) : Cites (.invalidOperationToken part) part
  | invalidToken (expected part : String) : Cites (.invalidToken expected (Text.quoted part)) part
  | missingClosingBracket (part : String) : Cites (.missingClosingBracket (Text.quoted part)) part
  | invalidOperation (part : String) : Cites (.invalidOperation (Text.quoted part) none) part
  | arityMismatch (part : String) (expected actual : Int) :
      Cites (.arityMismatch part expected actual) part
  | stackUnderflow (part : String) (expected actual : Int) :
      Cites (.stackUnderflow part expected actual) part
  | invalidNumber (part : String) : Cites (.invalidNumber part) part
  | invalidVariableName (part : String) : Cites (.invalidVariableName part) part

/-- A token was expected where the text ends. -/
inductive CitesEnd : Fault → Prop
  | invalidToken (expected : String) : CitesEnd (.invalidToken expected "end of input")
  | missingClosingBracket : CitesEnd (.missingClosingBracket "end of input")
  | invalidOperation : CitesEnd (.invalidOperation "end of input" none)

/-- A fault of the text as a whole. -/
def IsOverall (fault : Fault) : Prop :=
  fault = .emptyExpression ∨ ∃ count, fault = .malformedFlatExpression count

theorem Cites.not_isOverall {fault : Fault} {part : String} (h : fault.Cites part) :
    ¬ fault.IsOverall := by
  rintro (rfl | ⟨count, rfl⟩) <;> cases h

theorem CitesEnd.not_isOverall {fault : Fault} (h : fault.CitesEnd) : ¬ fault.IsOverall := by
  rintro (rfl | ⟨count, rfl⟩) <;> cases h

end Fault

namespace ParseError

/-- Only faults of the text as a whole have no place. Every other fault cites a part of the text
that begins at its place, or is at the end of the text and says so. -/
structure Located (text : List Char) (err : ParseError) : Prop where
  position_eq_none_iff : err.position = none ↔ err.fault.IsOverall
  place : ∀ p, err.position = some p → 0 ≤ p ∧ p ≤ text.length ∧
    ((∃ part, err.fault.Cites part ∧ PartAt text p.toNat part) ∨
      err.fault.CitesEnd ∧ p = text.length)

variable {text : List Char} {fault : Fault}

theorem located_of_isOverall (h : fault.IsOverall) : Located text ⟨fault, none⟩ :=
  ⟨iff_of_true rfl h, fun _ hp => (Option.some_ne_none _ hp.symm).elim⟩

theorem located_of_cites {place : Nat} {part : String} (h : fault.Cites part)
    (hpart : PartAt text place part) : Located text ⟨fault, some place⟩ := by
  refine ⟨iff_of_false (Option.some_ne_none _) h.not_isOverall, ?_⟩
  rintro p ⟨⟩
  have hlt := hpart.lt
  exact ⟨by omega, by omega, .inl ⟨part, h, hpart⟩⟩

theorem located_of_citesEnd (h : fault.CitesEnd) : Located text ⟨fault, some text.length⟩ := by
  refine ⟨iff_of_false (Option.some_ne_none _) h.not_isOverall, ?_⟩
  rintro p ⟨⟩
  exact ⟨by omega, Int.le_refl _, .inr ⟨h, rfl⟩⟩

end ParseError

/-! ### Computations -/

section

variable {α β : Type} {text : List Char} {P : α → Prop} {Q : β → Prop}

/-- A result of which `P` holds, or an error that is located in the text. -/
def Locates (text : List Char) (P : α → Prop) : Except ParseError α → Prop
  | .ok a => P a
  | .error err => err.Located text

theorem Locates.bind {x : Except ParseError α} {f : α → Except ParseError β}
    (hx : Locates text P x) (hf : ∀ a, P a → Locates text Q (f a)) : Locates text Q (x >>= f) := by
  cases x with
  | ok a => exact hf a hx
  | error err => exact hx

theorem Locates.map {x : Except ParseError α} {f : α → β} (hx : Locates text P x)
    (hf : ∀ a, P a → Q (f a)) : Locates text Q (x.map f) := by
  cases x with
  | ok a => exact hf a hx
  | error err => exact hx

theorem locates_foldlM {f : β → α → Except ParseError β} {as : List α}
    (hf : ∀ a ∈ as, ∀ b, Q b → Locates text Q (f b a)) {b : β} (hb : Q b) :
    Locates text Q (as.foldlM f b) := by
  induction as generalizing b with
  | nil => exact hb
  | cons a as ih =>
      obtain ⟨ha, has⟩ := List.forall_mem_cons.1 hf
      rw [List.foldlM_cons]
      exact (ha b hb).bind fun c hc => ih has hc

theorem Locates.cases {x : Except ParseError α} (h : Locates text P x) :
    (∃ a, x = .ok a ∧ P a) ∨ ∃ err, x = .error err ∧ err.Located text := by
  cases x with
  | ok a => exact .inl ⟨a, rfl, h⟩
  | error err => exact .inr ⟨err, rfl, h⟩

end

theorem Literal.read_eq_error {text : String} {fault : Fault} (h : read text = .error fault) :
    fault = .invalidNumber text := by
  unfold read at h
  split at h
  · cases h
    rfl
  · split at h
    · cases h
    · cases h
      rfl

/-! ### The scanner -/

namespace Token

/-- The token is the part of the text at its place. -/
def Located (text : List Char) (t : Token) : Prop := PartAt text t.position t.lexeme.text

theorem text_of_wordLexeme {letters digits : List Char} {lexeme : Lexeme} {length : Nat}
    (h : wordLexeme letters digits = .ok (lexeme, length)) :
    lexeme.text.toList <+: letters ++ digits ∧ lexeme.text.toList.length = length := by
  unfold wordLexeme at h
  split at h
  · rename_i o hword
    cases h
    rw [Lexeme.text, Operator.symbol_of_ofWord? hword, String.toList_ofList, List.length_append]
    exact ⟨List.prefix_refl _, rfl⟩
  · split at h
    · rename_i o hword
      cases h
      rw [Lexeme.text, Operator.symbol_of_ofWord? hword, String.toList_ofList]
      exact ⟨List.prefix_append _ _, rfl⟩
    · rename_i v hname
      cases h
      rw [Lexeme.text, Variable.ofName?_eq_some_iff.1 hname, String.toList_ofList]
      exact ⟨List.prefix_append _ _, rfl⟩
    · cases h

theorem fault_of_wordLexeme {letters digits : List Char} {fault : Fault}
    (h : wordLexeme letters digits = .error fault) :
    fault = .invalidOperationToken (String.ofList letters) := by
  unfold wordLexeme at h
  split at h
  · cases h
  · split at h
    · cases h
    · cases h
    · cases h
      rfl

/-- The letters and digits that a word may consist of. -/
theorem word_isPrefixOf (c : Char) (rest : List Char) :
    c :: rest.takeWhile isLetter ++ (rest.dropWhile isLetter).takeWhile Text.isDigit <+:
      c :: rest := by
  have hsplit : c :: rest = c :: rest.takeWhile isLetter ++ rest.dropWhile isLetter := by
    rw [List.cons_append, List.takeWhile_append_dropWhile]
  rw [hsplit, List.prefix_append_right_inj]
  exact List.takeWhile_prefix _

theorem text_of_firstLexeme {c : Char} {rest : List Char} {lexeme : Lexeme} {length : Nat}
    (h : firstLexeme c rest = .ok (lexeme, length)) :
    lexeme.text.toList <+: c :: rest ∧ lexeme.text.toList.length = length := by
  unfold firstLexeme at h
  split at h
  case h_7 =>
    split at h
    · cases h
      rw [Lexeme.text, String.toList_ofList]
      exact ⟨(List.prefix_cons_inj c).2 (List.takeWhile_prefix _), rfl⟩
    · split at h
      · obtain ⟨hbegins, hlength⟩ := text_of_wordLexeme h
        exact ⟨hbegins.trans (word_isPrefixOf c rest), hlength⟩
      · cases h
  all_goals
    cases h
    exact ⟨⟨rest, rfl⟩, rfl⟩

theorem fault_of_firstLexeme {c : Char} {rest : List Char} {fault : Fault}
    (h : firstLexeme c rest = .error fault) :
    ∃ part : String, fault.Cites part ∧ part.toList ≠ [] ∧ part.toList <+: c :: rest := by
  unfold firstLexeme at h
  split at h
  case h_7 =>
    split at h
    · cases h
    · split at h
      · obtain rfl := fault_of_wordLexeme h
        refine ⟨_, .invalidOperationToken _, ?_⟩
        rw [String.toList_ofList]
        exact ⟨List.cons_ne_nil _ _, (List.prefix_append _ _).trans (word_isPrefixOf c rest)⟩
      · cases h
        refine ⟨_, .unexpectedCharacter _, ?_⟩
        rw [String.toList_singleton]
        exact ⟨List.cons_ne_nil _ _, rest, rfl⟩
  all_goals cases h

/-- The tokens of a text are found at their places, and so is what stops the scanner. -/
theorem locates_scanFrom {text : List Char} {position : Nat} {rest : List Char}
    (hrest : text.drop position = rest) :
    Locates text (fun tokens => ∀ t ∈ tokens, t.Located text) (scanFrom position rest) := by
  fun_induction scanFrom position rest with
  | case1 position => exact List.forall_mem_nil _
  | case2 position rest ih =>
      apply ih
      rw [← List.drop_drop, hrest]
      rfl
  | case3 position c rest hc fault hfirst =>
      obtain ⟨part, hcites, hne, hbegins⟩ := fault_of_firstLexeme hfirst
      exact ParseError.located_of_cites hcites ⟨hne, hrest ▸ hbegins⟩
  | case4 position c rest hc lexeme length hfirst ih =>
      obtain ⟨hbegins, hlength⟩ := text_of_firstLexeme hfirst
      obtain ⟨-, hone, -⟩ := wellFormed_of_firstLexeme hfirst
      have hdrop : text.drop (position + length) = rest.drop (length - 1) := by
        rw [← List.drop_drop, hrest]
        obtain ⟨k, rfl⟩ : ∃ k, length = k + 1 := ⟨length - 1, by omega⟩
        rfl
      have hne : lexeme.text.toList ≠ [] := List.length_pos_iff.1 (by omega)
      have hfirst : Located text ⟨lexeme, position⟩ := ⟨hne, hrest ▸ hbegins⟩
      exact (ih hdrop).map fun tokens htokens => List.forall_mem_cons.2 ⟨hfirst, htokens⟩

end Token

/-! ### Bracketed notation -/

namespace Bracketed

variable {text : List Char}

/-- The operation of an open bracket, if known, is found at its place. -/
def Group.Located (text : List Char) (group : Group) : Prop :=
  ∀ o place, group.operation = some (o, place) → PartAt text place o.symbol

/-- The tokens that are left are found at their places, and so are the operations of open
brackets. -/
def Progress.Located (text : List Char) (progress : Progress) : Prop :=
  (∀ g ∈ progress.groups, g.Located text) ∧ ∀ t ∈ progress.rest, t.Located text

theorem located_failAt {tokens : List Token} (htokens : ∀ t ∈ tokens, t.Located text)
    {fault : String → Fault} (hcites : ∀ part, (fault (Text.quoted part)).Cites part)
    (hend : (fault "end of input").CitesEnd) :
    (failAt text.length tokens fault).Located text := by
  cases tokens with
  | nil => exact ParseError.located_of_citesEnd hend
  | cons t tokens =>
      exact ParseError.located_of_cites (hcites t.lexeme.text) (htokens t List.mem_cons_self)

theorem locates_takeOperation {tokens : List Token} (htokens : ∀ t ∈ tokens, t.Located text) :
    Locates text (fun taken => PartAt text taken.1.2 taken.1.1.symbol ∧
      ∀ t ∈ taken.2, t.Located text) (takeOperation text.length tokens) := by
  unfold takeOperation
  split
  · exact List.forall_mem_cons.1 htokens
  · exact located_failAt htokens .invalidOperation .invalidOperation

theorem locates_takeClosing {tokens : List Token} (htokens : ∀ t ∈ tokens, t.Located text) :
    Locates text (fun rest => ∀ t ∈ rest, t.Located text) (takeClosing text.length tokens) := by
  unfold takeClosing
  split
  · exact (List.forall_mem_cons.1 htokens).2
  · exact located_failAt htokens .missingClosingBracket .missingClosingBracket

theorem locates_finish {o : Operator} {place : Nat} {tokens : List Token}
    (ho : PartAt text place o.symbol) (htokens : ∀ t ∈ tokens, t.Located text)
    (found : List Expr) :
    Locates text (fun closed => ∀ t ∈ closed.2, t.Located text)
      (finish text.length o place found tokens) := by
  unfold finish
  split
  · exact ParseError.located_of_cites (.arityMismatch _ _ _) ho
  · exact (locates_takeClosing htokens).map fun _ hrest => hrest

theorem locates_close {group : Group} {tokens : List Token} (hgroup : group.Located text)
    (htokens : ∀ t ∈ tokens, t.Located text) :
    Locates text (fun closed => ∀ t ∈ closed.2, t.Located text)
      (close text.length group tokens) := by
  obtain ⟨operation, found⟩ := group
  cases operation with
  | none =>
      rw [close_none]
      exact (locates_takeOperation htokens).bind fun taken htaken =>
        locates_finish htaken.1 htaken.2 found
  | some operation =>
      obtain ⟨o, place⟩ := operation
      rw [close_some]
      exact locates_finish (hgroup o place rfl) htokens found

theorem located_deliver {groups : List Group} {tokens : List Token}
    (hgroups : ∀ g ∈ groups, g.Located text) (htokens : ∀ t ∈ tokens, t.Located text) (e : Expr) :
    (deliver e tokens groups).Located text := by
  cases groups with
  | nil => exact ⟨List.forall_mem_nil _, htokens⟩
  | cons group outer =>
      obtain ⟨hgroup, houter⟩ := List.forall_mem_cons.1 hgroups
      exact ⟨List.forall_mem_cons.2 ⟨hgroup, houter⟩, htokens⟩

theorem locates_shift {groups : List Group} {tokens : List Token}
    (hgroups : ∀ g ∈ groups, g.Located text) (htokens : ∀ t ∈ tokens, t.Located text)
    (placement : Placement) :
    Locates text (Progress.Located text) (shift placement text.length groups tokens) := by
  unfold shift
  split
  · have hrest := (List.forall_mem_cons.1 htokens).2
    split
    · refine (locates_takeOperation hrest).bind ?_
      rintro ⟨⟨o, place⟩, after⟩ ⟨ho, hafter⟩
      refine ⟨List.forall_mem_cons.2 ⟨?_, hgroups⟩, hafter⟩
      rintro _ _ ⟨⟩
      exact ho
    · refine ⟨List.forall_mem_cons.2 ⟨?_, hgroups⟩, hrest⟩
      rintro _ _ ⟨⟩
  · obtain ⟨hdigits, hrest⟩ := List.forall_mem_cons.1 htokens
    split
    · rename_i fault hread
      obtain rfl := Literal.read_eq_error hread
      exact ParseError.located_of_cites (.invalidNumber _) hdigits
    · exact located_deliver hgroups hrest _
  · exact located_deliver hgroups (List.forall_mem_cons.1 htokens).2 _
  · exact located_failAt htokens (.invalidToken _) (.invalidToken _)

/-- A step fails at a place of the text, or keeps the places. -/
theorem locates_step {groups : List Group} {tokens : List Token}
    (hgroups : ∀ g ∈ groups, g.Located text) (htokens : ∀ t ∈ tokens, t.Located text)
    (placement : Placement) :
    Locates text (Progress.Located text) (step placement text.length groups tokens) := by
  unfold step
  split
  · exact locates_shift hgroups htokens placement
  · obtain ⟨hgroup, houter⟩ := List.forall_mem_cons.1 hgroups
    split
    · exact (locates_close hgroup htokens).bind fun closed hclosed =>
        located_deliver houter hclosed closed.1
    · exact locates_shift hgroups htokens placement

theorem locates_run {placement : Placement} {groups : List Group} {tokens : List Token}
    (hgroups : ∀ g ∈ groups, g.Located text) (htokens : ∀ t ∈ tokens, t.Located text) :
    Locates text (fun result => ∀ t ∈ result.2, t.Located text)
      (run placement text.length groups tokens) := by
  fun_induction run placement text.length groups tokens with
  | case1 groups tokens err hstep =>
      have hlocates := locates_step hgroups htokens placement
      rwa [hstep] at hlocates
  | case2 groups tokens e rest hstep =>
      have hlocates := locates_step hgroups htokens placement
      rw [hstep] at hlocates
      exact hlocates.2
  | case3 groups tokens inner rest hstep ih =>
      have hlocates := locates_step hgroups htokens placement
      rw [hstep] at hlocates
      exact ih hlocates.1 hlocates.2

theorem locates_read {tokens : List Token} (htokens : ∀ t ∈ tokens, t.Located text)
    (placement : Placement) :
    Locates text (fun _ => True) (read placement text.length tokens) := by
  refine (locates_run (List.forall_mem_nil _) htokens).bind fun result hrest => ?_
  obtain ⟨e, rest⟩ := result
  cases rest with
  | nil => trivial
  | cons t rest =>
      exact ParseError.located_of_cites (.unexpectedCharacter _) (hrest t List.mem_cons_self)

theorem locates_parse (placement : Placement) (text : String) :
    Locates text.toList (fun _ => True) (parse placement text) := by
  unfold parse
  split
  · exact ParseError.located_of_isOverall (.inl rfl)
  · rw [← String.length_toList]
    exact (Token.locates_scanFrom rfl).bind fun tokens htokens => locates_read htokens placement

end Bracketed

/-! ### Flat notation -/

namespace Flat

theorem located_wordsFrom {text : List Char} {position : Nat} {rest : List Char}
    (hrest : text.drop position = rest) :
    ∀ w ∈ wordsFrom position rest, PartAt text w.position w.text := by
  fun_induction wordsFrom position rest with
  | case1 position => exact List.forall_mem_nil _
  | case2 position c rest hblank ih =>
      apply ih
      rw [← List.drop_drop, hrest]
      rfl
  | case3 position c rest hblank tail ih =>
      refine List.forall_mem_cons.2 ⟨⟨?_, ?_⟩, ih ?_⟩
      · rw [String.toList_ofList]
        exact List.cons_ne_nil _ _
      · rw [String.toList_ofList, hrest, List.prefix_cons_inj]
        exact List.takeWhile_prefix _
      · rw [← List.drop_drop, ← List.drop_drop, hrest]
        rfl

variable {α : Type} (vocabulary : Vocabulary α)

theorem locates_step {text : List Char} {word : Word} (hword : PartAt text word.position word.text)
    (stack : List α) : Locates text (fun _ => True) (step vocabulary stack word) := by
  unfold step
  split
  · split
    · exact ParseError.located_of_cites (.stackUnderflow _ _ _) hword
    · trivial
  · split
    · split
      · rename_i fault hread
        obtain rfl := Literal.read_eq_error hread
        exact ParseError.located_of_cites (.invalidNumber _) hword
      · trivial
    · split
      · exact ParseError.located_of_cites (.invalidVariableName _) hword
      · trivial

theorem locates_parse (text : String) :
    Locates text.toList (fun _ => True) (parse vocabulary text) := by
  unfold parse
  split
  · exact ParseError.located_of_isOverall (.inl rfl)
  · have hwords : ∀ w ∈ words text, PartAt text.toList w.position w.text := located_wordsFrom rfl
    refine (locates_foldlM (fun w hw stack _ => locates_step vocabulary (hwords w hw) stack)
      trivial).bind fun stack _ => ?_
    split
    · trivial
    · exact ParseError.located_of_isOverall (.inr ⟨_, rfl⟩)

end Flat

/-- Every text gives a result or an error that is located in the text, and a result that is an
expression passes the checks of construction. -/
theorem parse_located (text : String) :
    (∀ form : Form, (∃ e, form.parse text = .ok e ∧ e.raw.check = .ok e) ∨
      ∃ err, form.parse text = .error err ∧ err.Located text.toList) ∧
    ((∃ c, Closure.parse text = .ok c) ∨
      ∃ err, Closure.parse text = .error err ∧ err.Located text.toList) := by
  have hform (form : Form) : Locates text.toList (fun _ => True) (form.parse text) := by
    cases form with
    | bracketed placement => exact Bracketed.locates_parse placement text
    | flat => exact Flat.locates_parse Flat.expressions text
  refine ⟨fun form => (hform form).cases.imp_left ?_,
    (Flat.locates_parse Closure.vocabulary text).cases.imp_left ?_⟩
  · rintro ⟨e, hparse, -⟩
    exact ⟨e, hparse, e.check_raw⟩
  · rintro ⟨c, hparse, -⟩
    exact ⟨c, hparse⟩

end Trivar
