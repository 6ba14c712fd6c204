import Trivar.Bracketed
import Trivar.Proofs.Scanning

/-!
Reading bracketed notation accepts exactly the sentences of the grammar. The
open brackets stand for a beginning of a sentence, `opened`: what they consist
of has been consumed and nothing else. `Effect` lists what a step can do; each
of its cases takes the tokens of as many terminals as it adds to that beginning
(`Effect.consumes`). In the other direction the tokens of a sentence drive the
reader from any state to the one in which the expression has been delivered
(`run_spell`).
-/

namespace Trivar.Bracketed

open Outcome

/-! ### Steps -/

/-- What a step can do that does not fail. -/
inductive Effect : Placement → List Group → List Token → Progress → Prop
  | openFirst {groups rest o p q} :
      Effect .first groups (⟨.opening, p⟩ :: ⟨.operator o, q⟩ :: rest)
        (.reading (⟨some (o, q), []⟩ :: groups) rest)
  | openLast {groups rest p} :
      Effect .last groups (⟨.opening, p⟩ :: rest) (.reading (⟨none, []⟩ :: groups) rest)
  | leaf {placement groups rest lexeme a p} : Lexeme.Spells lexeme (.leaf a) →
      Effect placement groups (⟨lexeme, p⟩ :: rest) (deliver (.atom a) rest groups)
  | closeFirst {outer rest o args found p q} : found.reverse = Tuple.toList args →
      Effect .first (⟨some (o, q), found⟩ :: outer) (⟨.closing, p⟩ :: rest)
        (deliver (.apply o args) rest outer)
  | closeLast {outer rest o args found p q} : found.reverse = Tuple.toList args →
      Effect .last (⟨none, found⟩ :: outer) (⟨.operator o, q⟩ :: ⟨.closing, p⟩ :: rest)
        (deliver (.apply o args) rest outer)

/-- The operation of an open bracket is known exactly when it stands first. -/
def Placed (placement : Placement) (groups : List Group) : Prop :=
  ∀ g ∈ groups, g.operation.isSome = decide (placement = .first)

variable {placement : Placement} {length : Nat}

theorem takeOperation_eq_ok_iff {tokens rest : List Token} {o : Operator} {position : Nat} :
    takeOperation length tokens = .ok ((o, position), rest) ↔
      tokens = ⟨.operator o, position⟩ :: rest := by
  unfold takeOperation
  split <;> simp_all

theorem takeClosing_eq_ok_iff {tokens rest : List Token} :
    takeClosing length tokens = .ok rest ↔ ∃ position, tokens = ⟨.closing, position⟩ :: rest := by
  unfold takeClosing
  split <;> simp_all

/-- The end of a bracket whose operation is known. -/
def finish (length : Nat) (o : Operator) (position : Nat) (found : List Expr)
    (tokens : List Token) : Except ParseError (Expr × List Token) :=
  match Expr.ofArgs? o found.reverse with
  | none => .error ⟨.arityMismatch o.symbol o.arity found.length, some position⟩
  | some e => (takeClosing length tokens).map (e, ·)

theorem close_some (o : Operator) (position : Nat) (found : List Expr) (tokens : List Token) :
    close length ⟨some (o, position), found⟩ tokens = finish length o position found tokens := by
  unfold close finish
  simp only [bind, Except.bind]
  cases Expr.ofArgs? o found.reverse with
  | none => rfl
  | some e => cases takeClosing length tokens <;> rfl

theorem close_none (found : List Expr) (tokens : List Token) :
    close length ⟨none, found⟩ tokens =
      takeOperation length tokens >>= fun taken =>
        finish length taken.1.1 taken.1.2 found taken.2 := by
  unfold close finish
  simp only [bind, Except.bind]
  cases takeOperation length tokens with
  | error e => rfl
  | ok taken =>
      obtain ⟨⟨o, position⟩, rest⟩ := taken
      cases hargs : Expr.ofArgs? o found.reverse with
      | none => simp [hargs]
      | some e => simp only [hargs]; cases takeClosing length rest <;> rfl

theorem finish_eq_ok_iff {o : Operator} {position : Nat} {found : List Expr}
    {tokens rest : List Token} {e : Expr} :
    finish length o position found tokens = .ok (e, rest) ↔
      ∃ args p, found.reverse = Tuple.toList args ∧ e = .apply o args ∧
        tokens = ⟨.closing, p⟩ :: rest := by
  unfold finish Expr.ofArgs?
  cases hargs : Tuple.ofList? o.arity found.reverse with
  | none =>
      refine ⟨fun h => (by cases h), ?_⟩
      rintro ⟨args, p, hfound, -⟩
      rw [hfound, Tuple.ofList?_toList] at hargs
      cases hargs
  | some args =>
      rw [Tuple.ofList?_eq_some_iff] at hargs
      simp only [Option.map_some, map_eq_ok, takeClosing_eq_ok_iff, Prod.mk.injEq]
      constructor
      · rintro ⟨after, ⟨p, htokens⟩, rfl, rfl⟩
        exact ⟨args, p, hargs.symm, rfl, htokens⟩
      · rintro ⟨args', p, hfound, rfl, htokens⟩
        have hsame := Tuple.toList_injective (hargs.trans hfound)
        exact ⟨rest, ⟨p, htokens⟩, by rw [hsame], rfl⟩

theorem effect_of_shift {groups : List Group} {tokens : List Token} {progress : Progress}
    (hformed : ∀ t ∈ tokens, t.lexeme.WellFormed)
    (h : shift placement length groups tokens = .ok progress) :
    Effect placement groups tokens progress := by
  unfold shift at h
  split at h
  · rename_i p rest
    split at h
    · obtain ⟨⟨⟨o, q⟩, after⟩, htake, hresult⟩ := bind_eq_ok.1 h
      obtain rfl := takeOperation_eq_ok_iff.1 htake
      cases hresult
      exact .openFirst
    · cases h
      exact .openLast
  · rename_i text p rest
    have hdigits := hformed _ List.mem_cons_self
    cases hread : Literal.read text with
    | error fault => simp [hread] at h
    | ok n =>
        rw [hread] at h
        cases h
        exact .leaf ((Lexeme.spells_digits_iff hdigits).2 hread)
  · cases h
    exact .leaf (.variable _)
  · cases h

theorem effect_of_close {group : Group} {outer : List Group} {tokens rest : List Token} {e : Expr}
    (hplaced : group.operation.isSome = decide (placement = .first))
    (h : close length group tokens = .ok (e, rest)) :
    Effect placement (group :: outer) tokens (deliver e rest outer) := by
  obtain ⟨operation, found⟩ := group
  match placement, operation, hplaced with
  | .first, some (o, q), _ =>
      rw [close_some] at h
      obtain ⟨args, p, hfound, rfl, rfl⟩ := finish_eq_ok_iff.1 h
      exact .closeFirst hfound
  | .last, none, _ =>
      rw [close_none] at h
      obtain ⟨⟨⟨o, q⟩, after⟩, htake, hfinish⟩ := bind_eq_ok.1 h
      obtain rfl := takeOperation_eq_ok_iff.1 htake
      obtain ⟨args, p, hfound, rfl, rfl⟩ := finish_eq_ok_iff.1 hfinish
      exact .closeLast hfound

theorem step_of_not_endsArguments {groups : List Group} {tokens : List Token}
    (h : endsArguments placement tokens = false) :
    step placement length groups tokens = shift placement length groups tokens := by
  cases groups with
  | nil => rfl
  | cons group outer => rw [step, if_neg (by simp [h])]

theorem step_of_endsArguments {tokens : List Token} (h : endsArguments placement tokens = true)
    (group : Group) (outer : List Group) :
    step placement length (group :: outer) tokens =
      (close length group tokens).map fun closed => deliver closed.1 closed.2 outer := by
  rw [step, if_pos h]
  cases close length group tokens <;> rfl

theorem effect_of_step {groups : List Group} {tokens : List Token} {progress : Progress}
    (hplaced : Placed placement groups) (hformed : ∀ t ∈ tokens, t.lexeme.WellFormed)
    (h : step placement length groups tokens = .ok progress) :
    Effect placement groups tokens progress := by
  match groups with
  | [] => exact effect_of_shift hformed h
  | group :: outer =>
      cases hends : endsArguments placement tokens with
      | false =>
          rw [step_of_not_endsArguments hends] at h
          exact effect_of_shift hformed h
      | true =>
          rw [step_of_endsArguments hends] at h
          obtain ⟨⟨e, rest⟩, hclose, rfl⟩ := map_eq_ok.1 h
          exact effect_of_close (hplaced group List.mem_cons_self) hclose

/-- A step does whatever is listed as an effect. -/
theorem Effect.step_eq {groups : List Group} {tokens : List Token} {progress : Progress}
    (h : Effect placement groups tokens progress) :
    step placement length groups tokens = .ok progress := by
  cases h with
  | openFirst =>
      rw [step_of_not_endsArguments rfl]
      rfl
  | openLast =>
      rw [step_of_not_endsArguments rfl]
      rfl
  | leaf hspells =>
      cases hspells with
      | «variable» v =>
          rw [step_of_not_endsArguments rfl]
          rfl
      | numeral hnumeral hlength =>
          have hread := (Lexeme.spells_digits_iff ⟨_, hnumeral⟩).1 (.numeral hnumeral hlength)
          rw [step_of_not_endsArguments rfl, shift, hread]
          rfl
  | @closeFirst outer rest o args found p q hfound =>
      have hfinish : finish length o q found (⟨.closing, p⟩ :: rest) =
          .ok (.apply o args, rest) := finish_eq_ok_iff.2 ⟨args, p, hfound, rfl, rfl⟩
      rw [step_of_endsArguments rfl, close_some, hfinish]
      rfl
  | @closeLast outer rest o args found p q hfound =>
      have hfinish : finish length o q found (⟨.closing, p⟩ :: rest) =
          .ok (.apply o args, rest) := finish_eq_ok_iff.2 ⟨args, p, hfound, rfl, rfl⟩
      have hclose : close length ⟨none, found⟩ (⟨.operator o, q⟩ :: ⟨.closing, p⟩ :: rest) =
          finish length o q found (⟨.closing, p⟩ :: rest) := close_none ..
      rw [step_of_endsArguments rfl, hclose, hfinish]
      rfl

/-! ### The beginning of a sentence -/

def Group.terminals (placement : Placement) (group : Group) : List Terminal :=
  .opening :: ((group.operation.map fun operation => .operator operation.1).toList ++
    group.args.reverse.flatMap (Expr.terminals (.bracketed placement)))

/-- The beginning of a sentence that open brackets stand for, the outermost one first. -/
def opened (placement : Placement) : List Group → List Terminal
  | [] => []
  | group :: outer => opened placement outer ++ group.terminals placement

namespace Progress

def terminals (placement : Placement) : Progress → List Terminal
  | .reading groups _ => opened placement groups
  | .done e _ => e.terminals (.bracketed placement)

def groups : Progress → List Group
  | .reading groups _ => groups
  | .done _ _ => []

def rest : Progress → List Token
  | .reading _ tokens => tokens
  | .done _ tokens => tokens

end Progress

@[simp] theorem rest_deliver (e : Expr) (tokens : List Token) (groups : List Group) :
    (deliver e tokens groups).rest = tokens := by
  cases groups <;> rfl

/-- A delivered expression continues the sentence. -/
theorem terminals_deliver (e : Expr) (tokens : List Token) (groups : List Group) :
    (deliver e tokens groups).terminals placement =
      opened placement groups ++ e.terminals (.bracketed placement) := by
  cases groups with
  | nil => rfl
  | cons group outer =>
      simp [deliver, Progress.terminals, opened, Group.terminals]

theorem placed_deliver {groups : List Group} (h : Placed placement groups) (e : Expr)
    (tokens : List Token) : Placed placement (deliver e tokens groups).groups := by
  cases groups with
  | nil => exact List.forall_mem_nil _
  | cons group outer =>
      obtain ⟨hgroup, houter⟩ := List.forall_mem_cons.1 h
      exact List.forall_mem_cons.2 ⟨hgroup, houter⟩

namespace Effect

variable {groups : List Group} {tokens : List Token} {progress : Progress}

theorem placed (h : Effect placement groups tokens progress) (hplaced : Placed placement groups) :
    Placed placement progress.groups := by
  cases h with
  | openFirst => exact List.forall_mem_cons.2 ⟨rfl, hplaced⟩
  | openLast => exact List.forall_mem_cons.2 ⟨rfl, hplaced⟩
  | leaf => exact placed_deliver hplaced _ _
  | closeFirst => exact placed_deliver (List.forall_mem_cons.1 hplaced).2 _ _
  | closeLast => exact placed_deliver (List.forall_mem_cons.1 hplaced).2 _ _

/-- The tokens that a step takes spell what it adds to the sentence. -/
theorem consumes (h : Effect placement groups tokens progress) :
    ∃ taken sentence, tokens = taken ++ progress.rest ∧ Token.Spell taken sentence ∧
      progress.terminals placement = opened placement groups ++ sentence := by
  cases h with
  | @openFirst groups rest o p q =>
      refine ⟨[⟨.opening, p⟩, ⟨.operator o, q⟩], [.opening, .operator o], rfl, ?_, by
        simp [Progress.terminals, opened, Group.terminals]⟩
      exact .cons .opening (.cons (.operator o) .nil)
  | @openLast groups rest p =>
      refine ⟨[⟨.opening, p⟩], [.opening], rfl, .cons .opening .nil, by
        simp [Progress.terminals, opened, Group.terminals]⟩
  | @leaf _ groups rest lexeme a p hspells =>
      refine ⟨[⟨lexeme, p⟩], [.leaf a], by simp, .cons hspells .nil, ?_⟩
      rw [terminals_deliver, Expr.terminals_atom]
  | @closeFirst outer rest o args found p q hfound =>
      refine ⟨[⟨.closing, p⟩], [.closing], by simp, .cons .closing .nil, ?_⟩
      rw [terminals_deliver, Expr.terminals_apply, ← hfound]
      simp [opened, Group.terminals, Form.enclose]
  | @closeLast outer rest o args found p q hfound =>
      refine ⟨[⟨.operator o, q⟩, ⟨.closing, p⟩], [.operator o, .closing], by simp, ?_, ?_⟩
      · exact .cons (.operator o) (.cons .closing .nil)
      · rw [terminals_deliver, Expr.terminals_apply, ← hfound]
        simp [opened, Group.terminals, Form.enclose]

end Effect

/-! ### Runs -/

/-- The tokens that a run takes complete the sentence begun by the open brackets. -/
theorem spell_of_run {groups : List Group} {tokens rest : List Token} {e : Expr}
    (hplaced : Placed placement groups) (hformed : ∀ t ∈ tokens, t.lexeme.WellFormed)
    (h : run placement length groups tokens = .ok (e, rest)) :
    ∃ taken sentence, tokens = taken ++ rest ∧ Token.Spell taken sentence ∧
      e.terminals (.bracketed placement) = opened placement groups ++ sentence := by
  -- The open brackets may change from step to step; what they stand for only grows at its end.
  fun_induction run placement length groups tokens with
  | case1 groups tokens err hstep => cases h
  | case2 groups tokens e' rest' hstep =>
      cases h
      exact (effect_of_step hplaced hformed hstep).consumes
  | case3 groups tokens inner between hstep ih =>
      have heffect := effect_of_step hplaced hformed hstep
      obtain ⟨taken, sentence, htokens, hspell, hopened⟩ := heffect.consumes
      rw [Progress.rest] at htokens
      have hbetween : ∀ t ∈ between, t.lexeme.WellFormed := fun t ht =>
        hformed t (htokens ▸ List.mem_append_right taken ht)
      obtain ⟨more, continuation, rfl, hmore, hsentence⟩ :=
        ih (heffect.placed hplaced) hbetween h
      refine ⟨taken ++ more, sentence ++ continuation, ?_, ?_, ?_⟩
      · rw [htokens, List.append_assoc]
      · exact List.rel_append hspell hmore
      · rw [hsentence, ← List.append_assoc, ← hopened]
        rfl

/-- The run goes on, or is at its end. -/
def resume (placement : Placement) (length : Nat) :
    Progress → Except ParseError (Expr × List Token)
  | .reading groups tokens => run placement length groups tokens
  | .done e tokens => .ok (e, tokens)

theorem run_eq_step_bind_resume (groups : List Group) (tokens : List Token) :
    run placement length groups tokens =
      step placement length groups tokens >>= resume placement length := by
  rw [run]
  split
  · rename_i err hstep
    rw [hstep]
    rfl
  · rename_i e rest hstep
    rw [hstep]
    rfl
  · rename_i inner rest hstep
    rw [hstep]
    rfl

theorem Effect.run_eq {groups : List Group} {tokens : List Token} {progress : Progress}
    (h : Effect placement groups tokens progress) :
    run placement length groups tokens = resume placement length progress := by
  rw [run_eq_step_bind_resume, h.step_eq]
  rfl

theorem run_spell_each (es : List Expr)
    (h : ∀ e ∈ es, ∀ groups taken rest, Token.Spell taken (e.terminals (.bracketed placement)) →
      run placement length groups (taken ++ rest) =
        resume placement length (deliver e rest groups))
    (operation : Option (Operator × Nat)) (found : List Expr) (outer : List Group)
    {taken : List Token} (rest : List Token)
    (hspell : Token.Spell taken (es.flatMap (Expr.terminals (.bracketed placement)))) :
    run placement length (⟨operation, found⟩ :: outer) (taken ++ rest) =
      run placement length (⟨operation, es.reverse ++ found⟩ :: outer) rest := by
  induction es generalizing found taken with
  | nil =>
      cases hspell
      rfl
  | cons e es ih =>
      rw [List.flatMap_cons, Token.spell_append] at hspell
      obtain ⟨first, others, rfl, hfirst, hothers⟩ := hspell
      rw [List.forall_mem_cons] at h
      -- The expression is delivered in front of those found before it.
      rw [List.append_assoc, h.1 _ _ _ hfirst, deliver, resume, ih h.2 _ hothers]
      simp

/-- The tokens of a sentence are read as its expression, from any state and before any others. -/
theorem run_spell (e : Expr) (groups : List Group) {taken : List Token} (rest : List Token)
    (h : Token.Spell taken (e.terminals (.bracketed placement))) :
    run placement length groups (taken ++ rest) =
      resume placement length (deliver e rest groups) := by
  induction e using Expr.induct generalizing groups taken rest with
  | atom a =>
      obtain ⟨t, _, hspells, hrest, rfl⟩ := Token.spell_cons.1 h
      cases hrest
      exact (Effect.leaf hspells).run_eq
  | apply o args ih =>
      have heach := run_spell_each args.toList fun e he groups taken rest hspell =>
        ih e he groups rest hspell
      rw [Expr.terminals_apply] at h
      match placement with
      | .first =>
          obtain ⟨p, q, r, between, rfl, hbetween⟩ := Token.spell_enclose_first h
          have hopen : Effect .first groups
              (⟨.opening, p⟩ :: ⟨.operator o, q⟩ :: (between ++ ⟨.closing, r⟩ :: rest))
              (.reading (⟨some (o, q), []⟩ :: groups) (between ++ ⟨.closing, r⟩ :: rest)) :=
            .openFirst
          have hclose : Effect .first (⟨some (o, q), args.toList.reverse ++ []⟩ :: groups)
              (⟨.closing, r⟩ :: rest) (deliver (.apply o args) rest groups) :=
            .closeFirst (by simp)
          calc run .first length groups (⟨.opening, p⟩ :: ⟨.operator o, q⟩ ::
                (between ++ [⟨.closing, r⟩]) ++ rest)
              _ = run .first length (⟨some (o, q), []⟩ :: groups)
                    (between ++ ⟨.closing, r⟩ :: rest) := by
                  rw [List.cons_append, List.cons_append, List.append_assoc]
                  exact hopen.run_eq
              _ = run .first length (⟨some (o, q), args.toList.reverse ++ []⟩ :: groups)
                    (⟨.closing, r⟩ :: rest) := heach _ _ _ _ hbetween
              _ = resume .first length (deliver (.apply o args) rest groups) := hclose.run_eq
      | .last =>
          obtain ⟨p, q, r, between, rfl, hbetween⟩ := Token.spell_enclose_last h
          have hopen : Effect .last groups
              (⟨.opening, p⟩ :: (between ++ ⟨.operator o, q⟩ :: ⟨.closing, r⟩ :: rest))
              (.reading (⟨none, []⟩ :: groups)
                (between ++ ⟨.operator o, q⟩ :: ⟨.closing, r⟩ :: rest)) :=
            .openLast
          have hclose : Effect .last (⟨none, args.toList.reverse ++ []⟩ :: groups)
              (⟨.operator o, q⟩ :: ⟨.closing, r⟩ :: rest)
              (deliver (.apply o args) rest groups) :=
            .closeLast (by simp)
          calc run .last length groups
                (⟨.opening, p⟩ :: (between ++ [⟨.operator o, q⟩, ⟨.closing, r⟩]) ++ rest)
              _ = run .last length (⟨none, []⟩ :: groups)
                    (between ++ ⟨.operator o, q⟩ :: ⟨.closing, r⟩ :: rest) := by
                  rw [List.cons_append, List.append_assoc]
                  exact hopen.run_eq
              _ = run .last length (⟨none, args.toList.reverse ++ []⟩ :: groups)
                    (⟨.operator o, q⟩ :: ⟨.closing, r⟩ :: rest) := heach _ _ _ _ hbetween
              _ = resume .last length (deliver (.apply o args) rest groups) := hclose.run_eq

/-! ### Texts -/

theorem run_eq_ok_iff {tokens rest : List Token} {e : Expr}
    (hformed : ∀ t ∈ tokens, t.lexeme.WellFormed) :
    run placement length [] tokens = .ok (e, rest) ↔
      ∃ taken, tokens = taken ++ rest ∧ Token.Spell taken (e.terminals (.bracketed placement)) := by
  constructor
  · intro h
    obtain ⟨taken, sentence, htokens, hspell, hsentence⟩ :=
      spell_of_run (List.forall_mem_nil _) hformed h
    rw [opened, List.nil_append] at hsentence
    exact ⟨taken, htokens, hsentence ▸ hspell⟩
  · rintro ⟨taken, rfl, hspell⟩
    exact run_spell e [] rest hspell

theorem read_eq_ok_iff {tokens : List Token} {e : Expr}
    (hformed : ∀ t ∈ tokens, t.lexeme.WellFormed) :
    read placement length tokens = .ok e ↔
      Token.Spell tokens (e.terminals (.bracketed placement)) := by
  unfold read
  rw [bind_eq_ok]
  constructor
  · rintro ⟨⟨e', rest⟩, hrun, hend⟩
    obtain ⟨taken, rfl, hspell⟩ := (run_eq_ok_iff hformed).1 hrun
    cases rest with
    | nil =>
        cases hend
        rwa [List.append_nil]
    | cons t rest => cases hend
  · intro hspell
    exact ⟨(e, []), (run_eq_ok_iff hformed).2 ⟨tokens, (List.append_nil _).symm, hspell⟩, rfl⟩

/-- The tokens of a sentence are the tokens of no other expression. -/
theorem eq_of_spell {tokens : List Token} {e e' : Expr}
    (h : Token.Spell tokens (e.terminals (.bracketed placement)))
    (h' : Token.Spell tokens (e'.terminals (.bracketed placement))) : e = e' := by
  have hread : read placement 0 tokens = .ok e := (read_eq_ok_iff h.wellFormed).2 h
  rw [(read_eq_ok_iff h.wellFormed).2 h'] at hread
  exact (Except.ok.inj hread).symm

theorem parse_eq_ok_iff {text : String} {e : Expr} :
    parse placement text = .ok e ↔ ∃ tokens, Token.scan text = .ok tokens ∧
      Token.Spell tokens (e.terminals (.bracketed placement)) := by
  unfold parse
  split
  · rename_i hblank
    refine ⟨fun h => (by cases h), ?_⟩
    rintro ⟨tokens, hscan, hspell⟩
    obtain rfl := Token.eq_nil_of_scanFrom_blanks (List.all_eq_true.1 hblank) hscan
    have hnil := List.forall₂_nil_left_iff.1 hspell
    exact absurd hnil (Expr.terminals_ne_nil _ _)
  · rw [bind_eq_ok]
    refine exists_congr fun tokens => and_congr_right fun hscan => ?_
    exact read_eq_ok_iff (Token.wellFormed_of_scanFrom hscan)

/-- A text is read as an expression exactly when its tokens are the sentence of that expression,
and tokens are the sentence of one expression at most. -/
theorem parse_accepts_exactly_sentences (placement : Placement) :
    (∀ text e, parse placement text = .ok e ↔ ∃ tokens, Token.scan text = .ok tokens ∧
      Token.Spell tokens (e.terminals (.bracketed placement))) ∧
    ∀ (tokens : List Token) (e e' : Expr),
      Token.Spell tokens (e.terminals (.bracketed placement)) →
      Token.Spell tokens (e'.terminals (.bracketed placement)) → e = e' :=
  ⟨fun _ _ => parse_eq_ok_iff, fun _ _ _ => eq_of_spell⟩

/-- Leading zeros do not change the number that is read. -/
theorem parse_padded_difference :
    let e : Expr := .apply .sub (.cons (.integer 7) (.cons (.atom (.variable .x)) .nil))
    parse .last "(007 x -)" = .ok e ∧
      ∀ e', Token.Spell [⟨.opening, 0⟩, ⟨.digits "007", 1⟩, ⟨.variable .x, 5⟩,
        ⟨.operator .sub, 7⟩, ⟨.closing, 8⟩] (e'.terminals (.bracketed .last)) → e' = e := by
  intro e
  have hnumeral : Text.Numeral "007".toList 7 :=
    Text.numeral_of_all (by decide) (by decide +kernel) (by decide +kernel)
  have hspell : Token.Spell [⟨.opening, 0⟩, ⟨.digits "007", 1⟩, ⟨.variable .x, 5⟩,
      ⟨.operator .sub, 7⟩, ⟨.closing, 8⟩] (e.terminals (.bracketed .last)) :=
    .cons .opening (.cons (.numeral hnumeral (by decide)) (.cons (.variable .x)
      (.cons (.operator .sub) (.cons .closing .nil))))
  obtain ⟨hparse, hunique⟩ := parse_accepts_exactly_sentences .last
  exact ⟨(hparse _ _).2 ⟨_, by decide +kernel, hspell⟩, fun e' h => hunique _ _ _ h hspell⟩

end Trivar.Bracketed
