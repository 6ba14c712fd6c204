import Mathlib.Data.List.Basic
import Trivar.Flat

/-!
The words of a text. They are its longest parts without blanks (`mem_words_iff`),
in the order in which they stand there.
-/

namespace Trivar.Flat

open Text

theorem wordsFrom_nil (position : Nat) : wordsFrom position [] = [] := by
  rw [wordsFrom.eq_def]

theorem wordsFrom_cons (position : Nat) (c : Char) (rest : List Char) :
    wordsFrom position (c :: rest) =
      if isBlank c then wordsFrom (position + 1) rest
      else
        let tail := rest.takeWhile (!isBlank ·)
        ⟨String.ofList (c :: tail), position⟩ ::
          wordsFrom (position + 1 + tail.length) (rest.drop tail.length) := by
  rw [wordsFrom.eq_def]

theorem wordsFrom_eq_nil_iff {text : List Char} {position : Nat} :
    wordsFrom position text = [] ↔ text.all isBlank = true := by
  induction text generalizing position with
  | nil => simp [wordsFrom_nil]
  | cons c rest ih =>
      rw [wordsFrom_cons, List.all_cons, Bool.and_eq_true]
      split
      · rename_i hblank
        rw [ih, and_iff_right hblank]
      · rename_i hblank
        simp [hblank]

/-- A row of characters that is one word. -/
def IsWord (text : List Char) : Prop := text ≠ [] ∧ ∀ c ∈ text, isBlank c = false

theorem isWord_of_all {text : List Char} (hne : text ≠ [])
    (hall : text.all (!isBlank ·) = true) : IsWord text :=
  ⟨hne, by simpa using hall⟩

theorem wordsFrom_append {text rest : List Char} (h : IsWord text)
    (hrest : ∀ c ∈ rest.head?, isBlank c = true) (position : Nat) :
    wordsFrom position (text ++ rest) =
      ⟨String.ofList text, position⟩ :: wordsFrom (position + text.length) rest := by
  obtain ⟨hne, hwords⟩ := h
  cases text with
  | nil => exact absurd rfl hne
  | cons c cs =>
      obtain ⟨hc, hcs⟩ := List.forall_mem_cons.1 hwords
      have hend : rest.takeWhile (!isBlank ·) = [] := by
        cases rest with
        | nil => rfl
        | cons d rest => rw [List.takeWhile_cons_of_neg (by simp [hrest d rfl])]
      have htail : (cs ++ rest).takeWhile (!isBlank ·) = cs := by
        rw [List.takeWhile_append_of_pos (by simpa using hcs), hend, List.append_nil]
      have hplace : position + 1 + cs.length = position + (c :: cs).length := by
        rw [List.length_cons]
        omega
      rw [List.cons_append, wordsFrom_cons, if_neg (by simp [hc])]
      simp only [htail, List.drop_left, hplace]

/-- A longest part without blanks of a text whose first character has the given place. -/
def IsRun (start : Nat) (text : List Char) (w : Word) : Prop :=
  ∃ before after, text = before ++ (w.text.toList ++ after) ∧ w.position = start + before.length ∧
    IsWord w.text.toList ∧ (∀ c ∈ before.getLast?, isBlank c = true) ∧
      ∀ c ∈ after.head?, isBlank c = true

theorem IsRun.append {start : Nat} {first rest : List Char} {w : Word}
    (h : IsRun (start + first.length) rest w)
    (hfirst : (∀ c ∈ first.getLast?, isBlank c = true) ∨ ∀ c ∈ rest.head?, isBlank c = true) :
    IsRun start (first ++ rest) w := by
  obtain ⟨before, after, rfl, hposition, hword, hbefore, hafter⟩ := h
  refine ⟨first ++ before, after, (List.append_assoc ..).symm, ?_, hword, ?_, hafter⟩
  · rw [hposition, List.length_append, Nat.add_assoc]
  · cases before with
    | nil =>
        rw [List.append_nil]
        refine hfirst.resolve_right fun hhead => ?_
        -- The run itself begins with a character that is no blank.
        cases hchars : w.text.toList with
        | nil => exact hword.1 hchars
        | cons c cs =>
            have hc := hword.2 c (hchars ▸ List.mem_cons_self)
            rw [hchars] at hhead
            rw [hhead c rfl] at hc
            cases hc
    | cons c cs =>
        rwa [List.getLast?_append_of_ne_nil _ (List.cons_ne_nil c cs)]

/-- Splits off the first word. -/
theorem exists_word {c : Char} (hc : isBlank c = false) (rest : List Char) :
    ∃ part after, c :: rest = part ++ after ∧ IsWord part ∧ ∀ d ∈ after.head?, isBlank d = true := by
  refine ⟨(c :: rest).takeWhile (!isBlank ·), (c :: rest).dropWhile (!isBlank ·),
    List.takeWhile_append_dropWhile.symm, ⟨by simp [hc], ?_⟩, ?_⟩
  · intro d hd
    have htake := List.all_takeWhile (p := fun d => !isBlank d) (l := c :: rest)
    simpa using List.all_eq_true.1 htake d hd
  · intro d hd
    have hhead := List.head?_dropWhile_not (fun d => !isBlank d) (c :: rest)
    rw [hd] at hhead
    simpa using hhead

/-- Induction along the words of a text. -/
theorem inductWords {P : List Char → Prop} (nil : P [])
    (blank : ∀ c rest, isBlank c = true → P rest → P (c :: rest))
    (word : ∀ part rest, IsWord part → (∀ c ∈ rest.head?, isBlank c = true) → P rest →
      P (part ++ rest)) (text : List Char) : P text := by
  induction hlength : text.length using Nat.strongRecOn generalizing text with
  | _ length ih =>
      cases text with
      | nil => exact nil
      | cons c rest =>
          cases hc : isBlank c with
          | true => exact blank c rest hc (ih _ (by simp at hlength; omega) rest rfl)
          | false =>
              obtain ⟨part, after, heq, hpart, hafter⟩ := exists_word hc rest
              have hpos := List.length_pos_iff.2 hpart.1
              have hsum := congrArg List.length heq
              rw [List.length_append] at hsum
              rw [heq]
              exact word part after hpart hafter (ih _ (by omega) after rfl)

theorem isRun_of_mem {start : Nat} {text : List Char} {w : Word} (h : w ∈ wordsFrom start text) :
    IsRun start text w := by
  induction text using inductWords generalizing start with
  | nil =>
      rw [wordsFrom_nil] at h
      cases h
  | blank c rest hc ih =>
      rw [wordsFrom_cons, if_pos hc] at h
      have hrun : IsRun start ([c] ++ rest) w := (ih h).append (.inl (by simpa using hc))
      exact hrun
  | word part rest hpart hrest ih =>
      rw [wordsFrom_append hpart hrest, List.mem_cons] at h
      obtain rfl | h := h
      · exact ⟨[], rest, by simp, rfl, by simpa using hpart, nofun, hrest⟩
      · exact (ih h).append (.inr hrest)

theorem wordsFrom_append_of_blank {before : List Char}
    (hbefore : ∀ c ∈ before.getLast?, isBlank c = true) (rest : List Char) (start : Nat) :
    wordsFrom start (before ++ rest) =
      wordsFrom start before ++ wordsFrom (start + before.length) rest := by
  induction before using inductWords generalizing start with
  | nil => simp [wordsFrom_nil]
  | blank c cs hc ih =>
      have hcs : ∀ d ∈ cs.getLast?, isBlank d = true := by
        cases cs with
        | nil => nofun
        | cons d ds => exact hbefore
      rw [List.cons_append, wordsFrom_cons, wordsFrom_cons, if_pos hc, if_pos hc, ih hcs,
        List.length_cons]
      congr 2
      omega
  | word part cs hpart hcs ih =>
      cases cs with
      | nil =>
          rw [List.append_nil] at hbefore
          have hlast := List.getLast_mem hpart.1
          have hblank := hbefore _ (List.getLast?_eq_getLast_of_ne_nil hpart.1)
          rw [hpart.2 _ hlast] at hblank
          cases hblank
      | cons c cs =>
          rw [List.getLast?_append_of_ne_nil _ (List.cons_ne_nil c cs)] at hbefore
          have hhead : ∀ d ∈ (c :: cs ++ rest).head?, isBlank d = true := hcs
          rw [List.append_assoc, wordsFrom_append hpart hhead, wordsFrom_append hpart hcs,
            ih hbefore, List.cons_append, List.length_append, Nat.add_assoc]

/-- The words of a text are its longest parts without blanks. -/
theorem mem_words_iff {text : String} {w : Word} : w ∈ words text ↔ IsRun 0 text.toList w := by
  refine ⟨isRun_of_mem, ?_⟩
  rintro ⟨before, after, heq, hposition, hword, hbefore, hafter⟩
  rw [words, heq, wordsFrom_append_of_blank hbefore, wordsFrom_append hword hafter,
    String.ofList_toList, ← hposition]
  exact List.mem_append_right _ List.mem_cons_self

theorem le_position_of_mem {start : Nat} {text : List Char} {w : Word}
    (h : w ∈ wordsFrom start text) : start ≤ w.position := by
  obtain ⟨before, -, -, hposition, -⟩ := isRun_of_mem h
  omega

/-- The words come in the order in which they stand in the text. -/
theorem wordsFrom_sorted (start : Nat) (text : List Char) :
    (wordsFrom start text).Pairwise fun v w => v.position < w.position := by
  induction text using inductWords generalizing start with
  | nil =>
      rw [wordsFrom_nil]
      exact .nil
  | blank c rest hc ih =>
      rw [wordsFrom_cons, if_pos hc]
      exact ih _
  | word part rest hpart hrest ih =>
      rw [wordsFrom_append hpart hrest, List.pairwise_cons]
      refine ⟨fun w hw => ?_, ih _⟩
      have hle := le_position_of_mem hw
      have hpos := List.length_pos_iff.2 hpart.1
      change start < w.position
      omega

end Trivar.Flat
