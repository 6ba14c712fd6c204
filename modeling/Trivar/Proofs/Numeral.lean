import Mathlib.Data.Nat.Digits.Defs
import Trivar.Decimal
import Trivar.Literal

/-!
Numerals: rows of digits, of one script or several and with leading zeros or
without, that spell a natural number. Reading a literal that is a numeral, with
a minus sign before it or not, gives the number unless the numeral is too long
(`read_numeral`, `read_negated`). The decimal text of an integer is such a
literal.
-/

namespace Trivar

namespace Text

/-- What holds of the ten digits of every script holds of all digits. -/
theorem of_isDigit (P : Char → Prop) {c : Char} (hc : isDigit c = true)
    (h : ∀ start ∈ digitZeros, ∀ k < 10, P (Char.ofNat (start + k))) : P c := by
  rw [isDigit, digitValue?, Option.isSome_map] at hc
  obtain ⟨start, hfind⟩ := Option.isSome_iff_exists.1 hc
  have hrange := List.find?_some hfind
  simp only [Bool.and_eq_true, decide_eq_true_eq] at hrange
  have hplace := h start (List.mem_of_find?_eq_some hfind) (c.toNat - start) (by omega)
  rwa [Nat.add_sub_cancel' hrange.1, Char.ofNat_toNat] at hplace

theorem isBlank_of_isDigit {c : Char} (hc : isDigit c = true) : isBlank c = false :=
  of_isDigit (isBlank · = false) hc (by decide +kernel)

theorem isPadding_of_isDigit {c : Char} (hc : isDigit c = true) : isPadding c = false := by
  rw [isPadding, isBlank_of_isDigit hc, Bool.false_and]

theorem digitValue?_of_ascii {c : Char} (hc : c.isDigit = true) :
    digitValue? c = some (c.toNat - '0'.toNat) := by
  rw [Char.isDigit, Bool.and_eq_true, decide_eq_true_eq, decide_eq_true_eq] at hc
  have hle : 0x30 ≤ c.toNat := hc.1
  have hlt : c.toNat < 0x30 + 10 := Nat.lt_succ_of_le hc.2
  rw [digitValue?, digitZeros, List.find?_cons_of_pos (by simp [hle, hlt])]
  rfl

theorem digitsValue_lt (digits : List Char) : digitsValue digits < 10 ^ digits.length := by
  have hfold (m : Nat) : digits.foldl (fun n c => 10 * n + (digitValue? c).getD 0) m <
      (m + 1) * 10 ^ digits.length := by
    induction digits generalizing m with
    | nil => simp
    | cons c digits ih =>
        have hdigit : (digitValue? c).getD 0 < 10 := by
          cases hvalue : digitValue? c with
          | none => decide
          | some d => exact digitValue?_lt hvalue
        calc (c :: digits).foldl (fun n c => 10 * n + (digitValue? c).getD 0) m
            _ < (10 * m + (digitValue? c).getD 0 + 1) * 10 ^ digits.length := ih _
            _ ≤ (10 * (m + 1)) * 10 ^ digits.length := Nat.mul_le_mul_right _ (by omega)
            _ = (m + 1) * 10 ^ (c :: digits).length := by
                rw [List.length_cons, Nat.pow_succ, Nat.mul_comm 10, Nat.mul_assoc,
                  Nat.mul_comm 10]
  simpa [digitsValue] using hfold 0

/-- A row of digits that spells the number, most significant digit first. -/
structure Numeral (digits : List Char) (n : Nat) : Prop where
  ne_nil : digits ≠ []
  isDigit : ∀ c ∈ digits, isDigit c = true
  value : digitsValue digits = n

theorem numeral_of_all {digits : List Char} {n : Nat} (hne : digits ≠ [])
    (hall : digits.all isDigit = true) (hvalue : digitsValue digits = n) : Numeral digits n :=
  ⟨hne, List.all_eq_true.1 hall, hvalue⟩

theorem Numeral.minus_not_mem {digits : List Char} {n : Nat} (h : Numeral digits n) :
    '-' ∉ digits := by
  intro hmem
  have hminus : Text.isDigit '-' = false := by decide +kernel
  exact Bool.false_ne_true (hminus.symm.trans (h.isDigit '-' hmem))

theorem digitsValue_toDigits (n : Nat) : digitsValue (Nat.toDigits 10 n) = n := by
  have hfold (digits : List Char) (hdigits : ∀ c ∈ digits, c.isDigit = true) (m : Nat) :
      digits.foldl (fun n c => 10 * n + (digitValue? c).getD 0) m =
        Nat.ofDigitChars 10 digits m := by
    induction digits generalizing m with
    | nil => rw [List.foldl_nil, Nat.ofDigitChars_nil]
    | cons c digits ih =>
        rw [List.forall_mem_cons] at hdigits
        rw [List.foldl_cons, ih hdigits.2, digitValue?_of_ascii hdigits.1, Nat.ofDigitChars_cons]
        rfl
  rw [digitsValue, hfold _ fun c hc => Nat.isDigit_of_mem_toDigits (by omega) (by omega) hc]
  exact Nat.ofDigitChars_ten_toDigits

theorem numeral_toDigits (n : Nat) : Numeral (Nat.toDigits 10 n) n where
  ne_nil := Nat.toDigits_ne_nil
  isDigit c hc := by
    have hascii := Nat.isDigit_of_mem_toDigits (by omega) (by omega) hc
    rw [Text.isDigit, digitValue?_of_ascii hascii, Option.isSome_some]
  value := digitsValue_toDigits n

/-- No numeral is shorter than the decimal text of the number. -/
theorem Numeral.length_toDigits_le {digits : List Char} {n : Nat} (h : Numeral digits n) :
    (Nat.toDigits 10 n).length ≤ digits.length := by
  have hpos : 0 < digits.length := List.length_pos_iff.2 h.ne_nil
  exact Nat.toDigits_length 10 n digits.length hpos (h.value ▸ digitsValue_lt digits)

end Text

namespace Literal

open Text

theorem joinedDigits?_of_forall {digits : List Char} (hne : digits ≠ [])
    (hdigits : ∀ c ∈ digits, isDigit c = true) : joinedDigits? digits = some digits := by
  induction digits with
  | nil => exact absurd rfl hne
  | cons c rest ih =>
      rw [List.forall_mem_cons] at hdigits
      cases rest with
      | nil => rw [joinedDigits?, if_pos hdigits.1]
      | cons d ds =>
          have hd : d ≠ '_' :=
            of_isDigit (· ≠ '_') (hdigits.2 d List.mem_cons_self) (by decide +kernel)
          rw [joinedDigits?, if_pos hdigits.1, ih (by simp) hdigits.2, Option.map_some]
          · simp
          · intro cs h
            exact hd (List.cons.inj h).1

theorem withoutPadding_of_forall {text : List Char} (h : ∀ c ∈ text, isPadding c = false) :
    withoutPadding text = text := by
  have hdrop (cs : List Char) (hcs : ∀ c ∈ cs, isPadding c = false) :
      cs.dropWhile isPadding = cs := by
    cases cs with
    | nil => rfl
    | cons c cs => rw [List.dropWhile_cons_of_neg (by simp [hcs c])]
  rw [withoutPadding, hdrop text h, hdrop _ (by simpa using h), List.reverse_reverse]

theorem dropWhile_minus_numeral {digits : List Char} {n : Nat} (h : Numeral digits n) :
    digits.dropWhile (· = '-') = digits := by
  cases digits with
  | nil => rfl
  | cons c cs =>
      have hc : c ≠ '-' := fun hc => h.minus_not_mem (hc ▸ List.mem_cons_self)
      rw [List.dropWhile_cons_of_neg (by simpa using hc)]

theorem signedInteger?_numeral {digits : List Char} {n : Nat} (h : Numeral digits n) :
    signedInteger? digits = some (n : Int) := by
  have hjoined := joinedDigits?_of_forall h.ne_nil h.isDigit
  cases digits with
  | nil => exact absurd rfl h.ne_nil
  | cons c cs =>
      have hsign : c ≠ '-' ∧ c ≠ '+' :=
        of_isDigit (fun c => c ≠ '-' ∧ c ≠ '+') (h.isDigit c (by simp)) (by decide +kernel)
      unfold signedInteger?
      split
      · simp_all
      · simp_all
      · rw [hjoined, Option.map_some, h.value]

theorem read_numeral {digits : List Char} {n : Nat} (h : Numeral digits n) :
    read (String.ofList digits) =
      if maxLiteralDigits < digits.length then .error (.invalidNumber (String.ofList digits))
      else .ok n := by
  rw [read, String.toList_ofList, dropWhile_minus_numeral h,
    withoutPadding_of_forall fun c hc => isPadding_of_isDigit (h.isDigit c hc),
    signedInteger?_numeral h]

theorem read_negated {digits : List Char} {n : Nat} (h : Numeral digits n) :
    read (String.ofList ('-' :: digits)) =
      if maxLiteralDigits < digits.length then
        .error (.invalidNumber (String.ofList ('-' :: digits)))
      else .ok (-n) := by
  have hpadding : ∀ c ∈ '-' :: digits, isPadding c = false :=
    List.forall_mem_cons.2 ⟨rfl, fun c hc => isPadding_of_isDigit (h.isDigit c hc)⟩
  rw [read, String.toList_ofList, List.dropWhile_cons_of_pos (by simp), dropWhile_minus_numeral h,
    withoutPadding_of_forall hpadding, signedInteger?,
    joinedDigits?_of_forall h.ne_nil h.isDigit, Option.map_some, h.value]

end Literal

end Trivar
