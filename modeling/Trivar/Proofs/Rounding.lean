import Mathlib.Tactic.Ring
import Trivar.Double.Arithmetic

/-!
What rounding to a double does. The doubles of one sign lie in the order of
their codes (`unitsOfCode_strictMono`), and a quotient is rounded to one of them
up to the midpoint between this one and the next (`nearestCode_le_iff`).
Everything else follows from this: numbers that are doubles stay what they are
(`nearestCode_unitsOfCode`), a quotient becomes zero up to half a unit
(`nearestCode_eq_zero_iff`), and it reaches a power of two from the midpoint
between that power and the double before it (`nearestCode_lt_iff`). At the end
of the finite doubles this is where infinity begins.
-/

namespace Trivar

theorem roundHalfEven_le_iff {num den k : Nat} (hden : 0 < den) :
    roundHalfEven num den ≤ k ↔
      2 * num < (2 * k + 1) * den ∨ 2 * num = (2 * k + 1) * den ∧ k % 2 = 0 := by
  have hsplit := Nat.div_add_mod num den
  have hrest := Nat.mod_lt num hden
  have hbound : (2 * k + 1) * den = 2 * (den * k) + den := by ring
  rw [hbound]
  unfold roundHalfEven
  -- The products of `den` are not linear; next to them only the neighbours of the quotient matter.
  rcases Nat.lt_trichotomy k (num / den) with hk | rfl | hk
  · have hmul : den * (k + 1) ≤ den * (num / den) := Nat.mul_le_mul_left den hk
    rw [Nat.mul_succ] at hmul
    grind
  · grind
  · have hmul : den * (num / den + 1) ≤ den * k := Nat.mul_le_mul_left den hk
    rw [Nat.mul_succ] at hmul
    grind

theorem le_roundHalfEven {num den k : Nat} (hden : 0 < den) (h : k * den ≤ num) :
    k ≤ roundHalfEven num den := by
  have hquotient : k ≤ num / den := (Nat.le_div_iff_mul_le hden).2 h
  unfold roundHalfEven
  grind

namespace Double

/-- Rounding keeps at most 53 binary digits of a quotient, and all 53 if it drops any. -/
theorem exists_shift (num : Nat) {den : Nat} (hden : 0 < den) :
    ∃ shift, nearestCode num den = shift * 2 ^ 52 + roundHalfEven num (den * 2 ^ shift) ∧
      (shift = 0 ∨ 2 ^ 52 * (den * 2 ^ shift) ≤ num) ∧ num < 2 ^ 53 * (den * 2 ^ shift) := by
  have hscale (k : Nat) (shift : Nat) : 2 ^ k * (den * 2 ^ shift) = 2 ^ (k + shift) * den := by
    ring
  refine ⟨(num / den).log2 - 52, rfl, ?_, ?_⟩
  · rw [hscale, ← Nat.le_div_iff_mul_le hden]
    rcases Nat.lt_or_ge 52 (num / den).log2 with hlog | hlog
    · have hne : num / den ≠ 0 := by
        intro h
        simp [h] at hlog
      have hself := Nat.log2_self_le hne
      rw [Nat.add_sub_cancel' (by omega)]
      exact .inr hself
    · exact .inl (by omega)
  · rw [hscale, ← Nat.div_lt_iff_lt_mul hden]
    exact Nat.lt_of_lt_of_le Nat.lt_log2_self (Nat.pow_le_pow_right (by omega) (by omega))

theorem unitsOfCode_of_lt {code : Nat} (h : code < 2 ^ 52) : unitsOfCode code = code :=
  if_pos h

theorem unitsOfCode_of_le {code : Nat} (h : 2 ^ 52 ≤ code) :
    unitsOfCode code = (2 ^ 52 + code % 2 ^ 52) * 2 ^ (code / 2 ^ 52 - 1) :=
  if_neg (Nat.not_lt.2 h)

/-- A code holds a mantissa and an exponent. The mantissa has 53 digits unless the exponent is
zero. -/
theorem exists_mantissa (code : Nat) :
    ∃ mantissa exponent, code = exponent * 2 ^ 52 + mantissa ∧ mantissa < 2 ^ 53 ∧
      (exponent = 0 ∨ 2 ^ 52 ≤ mantissa) :=
  ⟨code - (code / 2 ^ 52 - 1) * 2 ^ 52, code / 2 ^ 52 - 1, by omega, by omega, by omega⟩

/-- The end of a binade is the beginning of the next one, so the mantissa may also be `2 ^ 53`. -/
theorem unitsOfCode_mantissa {mantissa exponent : Nat} (hle : mantissa ≤ 2 ^ 53)
    (hnormal : exponent = 0 ∨ 2 ^ 52 ≤ mantissa) :
    unitsOfCode (exponent * 2 ^ 52 + mantissa) = mantissa * 2 ^ exponent := by
  by_cases hsmall : mantissa < 2 ^ 52
  · obtain rfl : exponent = 0 := by omega
    rw [unitsOfCode_of_lt (by omega)]
    omega
  · rw [unitsOfCode_of_le (by omega)]
    rcases Nat.lt_or_eq_of_le hle with hlt | rfl
    · have hmantissa : 2 ^ 52 + (exponent * 2 ^ 52 + mantissa) % 2 ^ 52 = mantissa := by omega
      have hexponent : (exponent * 2 ^ 52 + mantissa) / 2 ^ 52 - 1 = exponent := by omega
      rw [hmantissa, hexponent]
    · have hmantissa : 2 ^ 52 + (exponent * 2 ^ 52 + 2 ^ 53) % 2 ^ 52 = 2 ^ 52 := by omega
      have hexponent : (exponent * 2 ^ 52 + 2 ^ 53) / 2 ^ 52 - 1 = exponent + 1 := by omega
      rw [hmantissa, hexponent]
      ring

theorem unitsOfCode_mantissa_succ {mantissa exponent : Nat} (hlt : mantissa < 2 ^ 53)
    (hnormal : exponent = 0 ∨ 2 ^ 52 ≤ mantissa) :
    unitsOfCode (exponent * 2 ^ 52 + mantissa + 1) = (mantissa + 1) * 2 ^ exponent := by
  rw [Nat.add_assoc]
  exact unitsOfCode_mantissa hlt (by omega)

theorem unitsOfCode_strictMono : StrictMono unitsOfCode := by
  refine strictMono_nat_of_lt_succ fun code => ?_
  obtain ⟨mantissa, exponent, rfl, hlt, hnormal⟩ := exists_mantissa code
  rw [unitsOfCode_mantissa (Nat.le_of_lt hlt) hnormal, unitsOfCode_mantissa_succ hlt hnormal]
  exact Nat.mul_lt_mul_of_pos_right (Nat.lt_succ_self mantissa) (Nat.two_pow_pos exponent)

/-- Twice the midpoint between a double and the next one, in units. -/
theorem midpoint_mantissa {mantissa exponent : Nat} (hlt : mantissa < 2 ^ 53)
    (hnormal : exponent = 0 ∨ 2 ^ 52 ≤ mantissa) :
    unitsOfCode (exponent * 2 ^ 52 + mantissa) + unitsOfCode (exponent * 2 ^ 52 + mantissa + 1) =
      (2 * mantissa + 1) * 2 ^ exponent := by
  rw [unitsOfCode_mantissa (Nat.le_of_lt hlt) hnormal, unitsOfCode_mantissa_succ hlt hnormal]
  ring

theorem unitsOfCode_zero : unitsOfCode 0 = 0 := rfl

theorem unitsOfCode_eq_zero_iff {code : Nat} : unitsOfCode code = 0 ↔ code = 0 :=
  unitsOfCode_strictMono.injective.eq_iff' unitsOfCode_zero

theorem unitsOfCode_lt {code exponent : Nat} (h : code < (exponent + 2) * 2 ^ 52) :
    unitsOfCode code < 2 ^ 53 * 2 ^ exponent := by
  have hnext : (exponent + 2) * 2 ^ 52 = exponent * 2 ^ 52 + 2 ^ 53 := by omega
  rw [← unitsOfCode_mantissa (Nat.le_refl _) (by omega), ← hnext]
  exact unitsOfCode_strictMono h

/-- A quotient is rounded to a double up to the midpoint between this one and the next, and the
midpoint itself when the code is even. -/
theorem nearestCode_le_iff (num : Nat) {den : Nat} (hden : 0 < den) (code : Nat) :
    nearestCode num den ≤ code ↔
      2 * num < (unitsOfCode code + unitsOfCode (code + 1)) * den ∨
        2 * num = (unitsOfCode code + unitsOfCode (code + 1)) * den ∧ code % 2 = 0 := by
  obtain ⟨shift, hcode, hlow, hhigh⟩ := exists_shift num hden
  obtain ⟨mantissa, exponent, rfl, hlt, hnormal⟩ := exists_mantissa code
  have hgrid : 0 < den * 2 ^ shift := Nat.mul_pos hden (Nat.two_pow_pos _)
  have hmidpoint : (2 * mantissa + 1) * 2 ^ exponent * den =
      2 * (mantissa * (den * 2 ^ exponent)) + den * 2 ^ exponent := by ring
  have hdouble (k : Nat) : den * 2 ^ (k + 1) = 2 * (den * 2 ^ k) := by ring
  rw [hcode, midpoint_mantissa hlt hnormal, hmidpoint]
  -- The quotient lies in a binade below that of the code, in the same one, or above.
  rcases Nat.lt_trichotomy shift exponent with hshift | rfl | hshift
  · have hle : den * 2 ^ (shift + 1) ≤ den * 2 ^ exponent :=
      Nat.mul_le_mul_left den (Nat.pow_le_pow_right (by omega) hshift)
    rw [hdouble] at hle
    have hround : roundHalfEven num (den * 2 ^ shift) ≤ 2 ^ 53 :=
      (roundHalfEven_le_iff hgrid).2 (.inl (by omega))
    have hmantissa : 2 ^ 52 * (den * 2 ^ exponent) ≤ mantissa * (den * 2 ^ exponent) :=
      Nat.mul_le_mul_right _ (by omega)
    exact iff_of_true (by omega) (.inl (by omega))
  · have hround := @roundHalfEven_le_iff num _ mantissa hgrid
    have heven : (shift * 2 ^ 52 + mantissa) % 2 = mantissa % 2 := by omega
    have hodd : (2 * mantissa + 1) * (den * 2 ^ shift) =
        2 * (mantissa * (den * 2 ^ shift)) + den * 2 ^ shift := by ring
    rw [Nat.add_le_add_iff_left, hround, heven, hodd]
  · have hle : den * 2 ^ (exponent + 1) ≤ den * 2 ^ shift :=
      Nat.mul_le_mul_left den (Nat.pow_le_pow_right (by omega) hshift)
    rw [hdouble] at hle
    have hlarge : 2 ^ 52 * (den * 2 ^ shift) ≤ num := hlow.resolve_left (by omega)
    have hround := le_roundHalfEven hgrid hlarge
    have hpos : 0 < den * 2 ^ exponent := Nat.mul_pos hden (Nat.two_pow_pos _)
    have hmantissa : mantissa * (den * 2 ^ exponent) ≤ (2 ^ 53 - 1) * (den * 2 ^ exponent) :=
      Nat.mul_le_mul_right _ (by omega)
    exact iff_of_false (by omega) (by omega)

theorem nearestCode_mono {num num' den : Nat} (hden : 0 < den) (h : num ≤ num') :
    nearestCode num den ≤ nearestCode num' den := by
  have hself := (nearestCode_le_iff num' hden _).1 (Nat.le_refl _)
  rw [nearestCode_le_iff num hden]
  omega

/-- The double with a code is the one nearest to itself. -/
theorem nearestCode_unitsOfCode (code : Nat) : nearestCode (unitsOfCode code) 1 = code := by
  have hnext (code : Nat) : unitsOfCode code < unitsOfCode (code + 1) :=
    unitsOfCode_strictMono (Nat.lt_succ_self code)
  apply Nat.le_antisymm
  · have habove := hnext code
    rw [nearestCode_le_iff _ Nat.one_pos]
    omega
  · cases code with
    | zero => exact Nat.zero_le _
    | succ code =>
        have hbelow := hnext code
        rw [Nat.succ_le_iff, ← Nat.not_le, nearestCode_le_iff _ Nat.one_pos]
        omega

/-- A quotient reaches the code of a power of two from the midpoint before it onwards: the
midpoint is a tie, and the double below it has an odd code. -/
theorem nearestCode_lt_iff (exponent num : Nat) {den : Nat} (hden : 0 < den) :
    nearestCode num den < (exponent + 2) * 2 ^ 52 ↔
      2 * num < (2 ^ 54 - 1) * (den * 2 ^ exponent) := by
  obtain ⟨last, hlast⟩ : ∃ last, last + 1 = 2 ^ 53 := ⟨2 ^ 53 - 1, by omega⟩
  have hlt : last < 2 ^ 53 := by omega
  have hnormal : exponent = 0 ∨ 2 ^ 52 ≤ last := by omega
  have hbelow : nearestCode num den < (exponent + 2) * 2 ^ 52 ↔
      nearestCode num den ≤ exponent * 2 ^ 52 + last := by omega
  have hmidpoint : (2 * last + 1) * 2 ^ exponent * den = (2 ^ 54 - 1) * (den * 2 ^ exponent) := by
    rw [show 2 * last + 1 = 2 ^ 54 - 1 by omega]
    ring
  have hodd : ¬ (exponent * 2 ^ 52 + last) % 2 = 0 := by omega
  rw [hbelow, nearestCode_le_iff num hden, midpoint_mantissa hlt hnormal, hmidpoint,
    or_iff_left fun htie => hodd htie.2]

/-- A quotient vanishes up to half a unit. -/
theorem nearestCode_eq_zero_iff (num : Nat) {den : Nat} (hden : 0 < den) :
    nearestCode num den = 0 ↔ 2 * num ≤ den := by
  have hone : unitsOfCode 1 = 1 := rfl
  rw [← Nat.le_zero, nearestCode_le_iff num hden, unitsOfCode_zero, hone]
  omega

/-- A number of at most 53 binary digits is a double, and stays one when it is doubled. -/
theorem exists_unitsOfCode {n : Nat} (h : n ≤ 2 ^ 53) (exponent : Nat) :
    ∃ code, unitsOfCode code = n * 2 ^ exponent := by
  induction exponent with
  | zero =>
      have hcode := unitsOfCode_mantissa h (.inl rfl)
      exact ⟨_, hcode⟩
  | succ exponent ih =>
      obtain ⟨code, hcode⟩ := ih
      obtain ⟨mantissa, shift, rfl, hlt, hnormal⟩ := exists_mantissa code
      rw [unitsOfCode_mantissa (Nat.le_of_lt hlt) hnormal] at hcode
      rw [Nat.pow_succ, ← Nat.mul_assoc, ← hcode]
      by_cases hsmall : mantissa < 2 ^ 52
      · obtain rfl : shift = 0 := by omega
        have hdouble := @unitsOfCode_mantissa (2 * mantissa) 0 (by omega) (.inl rfl)
        exact ⟨_, hdouble.trans (by omega)⟩
      · have hdouble := @unitsOfCode_mantissa mantissa (shift + 1) (Nat.le_of_lt hlt) (by omega)
        exact ⟨_, hdouble.trans (by rw [Nat.pow_succ, Nat.mul_assoc])⟩

theorem ofQuotient_not (negative : Bool) (num den : Nat) :
    ofQuotient (!negative) num den = (ofQuotient negative num den).neg := by
  unfold ofQuotient ofCode
  split <;> rfl

theorem ofQuotient_unitsOfCode (negative : Bool) (code : Fin infinityCode) :
    ofQuotient negative (unitsOfCode code) 1 = .finite negative code := by
  rw [ofQuotient, nearestCode_unitsOfCode, ofCode, dif_pos code.isLt]

end Double

end Trivar
