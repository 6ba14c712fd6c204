import Mathlib.Algebra.Order.Field.Basic
import Mathlib.Tactic.Linarith
import Trivar.Proofs.Extrema
import Trivar.Proofs.Overflow

/-!
Conversion of integers to doubles, for integers of any size. The doubles are
continued past the last finite one as if exponents had no bound
(`Double.rational`); an integer is first rounded to the nearest of these numbers,
ties to even (`Double.IsNearest`), and then everything from `2 ^ 1024` onwards
becomes an infinity. Both steps keep the order, so conversion is monotone on
all integers.
-/

namespace Trivar

namespace Double

/-- The number with this sign and this code. Codes that are not finite count on beyond the
doubles. -/
def rational (negative : Bool) (code : Nat) : ℚ :=
  signed negative (unitsOfCode code) / unitsPerOne

/-- No other such number is nearer to `q`, and none is at the same distance unless the code is
even. -/
structure IsNearest (q : ℚ) (negative : Bool) (code : Nat) : Prop where
  abs_sub_le : ∀ s c, |q - rational negative code| ≤ |q - rational s c|
  even_of_tie : ∀ s c, |q - rational s c| = |q - rational negative code| →
    rational s c ≠ rational negative code → code % 2 = 0

/-! ### Rounding of whole units -/

/-- The midpoints to both neighbours decide that no other double is nearer. -/
theorem nearestCode_nearest (units code : Nat) :
    let nearest := nearestCode units 1
    ((units : Int) - unitsOfCode nearest).natAbs ≤ ((units : Int) - unitsOfCode code).natAbs ∧
      (((units : Int) - unitsOfCode code).natAbs = ((units : Int) - unitsOfCode nearest).natAbs →
        unitsOfCode code ≠ unitsOfCode nearest → nearest % 2 = 0) := by
  have habove := (nearestCode_le_iff units Nat.one_pos _).1 (Nat.le_refl _)
  generalize hnearest : nearestCode units 1 = nearest at habove
  dsimp only
  rcases Nat.lt_trichotomy code nearest with hlt | rfl | hlt
  · obtain ⟨last, rfl⟩ := Nat.exists_eq_add_one_of_ne_zero (Nat.ne_zero_of_lt hlt)
    have hbelow : ¬ nearestCode units 1 ≤ last := by omega
    rw [nearestCode_le_iff _ Nat.one_pos] at hbelow
    have hlast : unitsOfCode last < unitsOfCode (last + 1) :=
      unitsOfCode_strictMono (Nat.lt_succ_self last)
    have hcode : unitsOfCode code ≤ unitsOfCode last :=
      unitsOfCode_strictMono.monotone (Nat.le_of_lt_succ hlt)
    omega
  · omega
  · have hnext : unitsOfCode nearest < unitsOfCode (nearest + 1) :=
      unitsOfCode_strictMono (Nat.lt_succ_self nearest)
    have hcode : unitsOfCode (nearest + 1) ≤ unitsOfCode code :=
      unitsOfCode_strictMono.monotone (Nat.succ_le_of_lt hlt)
    omega

/-- The code of the double nearest to a whole number of units with the sign of this number. -/
def codeOfUnits (units : Int) : Nat := nearestCode units.natAbs 1

/-- What is rounded keeps its sign: zero is nearer than any number of the other sign. -/
theorem signed_codeOfUnits_nearest (units : Int) (s : Bool) (code : Nat) :
    let nearest := signed (decide (units < 0)) (unitsOfCode (codeOfUnits units))
    (units - nearest).natAbs ≤ (units - signed s (unitsOfCode code)).natAbs ∧
      ((units - signed s (unitsOfCode code)).natAbs = (units - nearest).natAbs →
        signed s (unitsOfCode code) ≠ nearest → codeOfUnits units % 2 = 0) := by
  have hcode := nearestCode_nearest units.natAbs code
  have hzero := nearestCode_nearest units.natAbs 0
  rw [unitsOfCode_zero] at hzero
  rw [codeOfUnits, signed, signed]
  rcases lt_or_ge units 0 with hneg | hneg
  · rw [decide_eq_true hneg]
    cases s <;> simp only [if_true, Bool.false_eq_true, if_false] <;> omega
  · rw [decide_eq_false (Int.not_lt.2 hneg)]
    cases s <;> simp only [if_true, Bool.false_eq_true, if_false] <;> omega

theorem signed_codeOfUnits_mono {m n : Int} (h : m ≤ n) :
    signed (decide (m < 0)) (unitsOfCode (codeOfUnits m)) ≤
      signed (decide (n < 0)) (unitsOfCode (codeOfUnits n)) := by
  have hmono (a b : Nat) (hab : a ≤ b) :
      unitsOfCode (nearestCode a 1) ≤ unitsOfCode (nearestCode b 1) :=
    unitsOfCode_strictMono.monotone (nearestCode_mono Nat.one_pos hab)
  have hrising := hmono m.natAbs n.natAbs
  have hfalling := hmono n.natAbs m.natAbs
  rw [codeOfUnits, codeOfUnits, signed, signed]
  by_cases hm : m < 0 <;> by_cases hn : n < 0 <;> simp only [hm, hn, decide_true, decide_false,
    if_true, Bool.false_eq_true, if_false] <;> omega

/-! ### Rounding of integers -/

/-- The code of the double nearest to an integer. -/
def codeOfInt (n : Int) : Nat := codeOfUnits (n * unitsPerOne)

theorem abs_sub_rational (n : Int) (s : Bool) (code : Nat) :
    |(n : ℚ) - rational s code| =
      (n * unitsPerOne - signed s (unitsOfCode code)).natAbs / unitsPerOne := by
  rw [← Number.scaled_div_unitsPerOne n, rational, ← sub_div, ← Int.cast_sub, abs_div,
    abs_of_pos Number.unitsPerOne_pos, Nat.cast_natAbs, Int.cast_abs]

theorem mul_unitsPerOne_neg_iff {n : Int} : n * unitsPerOne < 0 ↔ n < 0 := by
  have hpos : (0 : Int) < unitsPerOne := Int.natCast_pos.2 (Nat.cast_pos.1 Number.unitsPerOne_pos)
  rw [← not_le, mul_nonneg_iff_of_pos_right hpos, not_le]

theorem isNearest_codeOfInt (n : Int) : IsNearest n (decide (n < 0)) (codeOfInt n) := by
  have hnearest (s : Bool) (c : Nat) := signed_codeOfUnits_nearest (n * unitsPerOne) s c
  simp only [mul_unitsPerOne_neg_iff] at hnearest
  constructor
  · intro s c
    rw [abs_sub_rational, abs_sub_rational, div_le_div_iff_of_pos_right Number.unitsPerOne_pos,
      Nat.cast_le]
    exact (hnearest s c).1
  · intro s c htie hne
    rw [abs_sub_rational, abs_sub_rational, div_left_inj' Number.unitsPerOne_pos.ne',
      Nat.cast_inj] at htie
    refine (hnearest s c).2 htie fun heq => hne ?_
    rw [rational, rational, heq]
    rfl

theorem rational_le_iff {s t : Bool} {c d : Nat} :
    rational s c ≤ rational t d ↔ signed s (unitsOfCode c) ≤ signed t (unitsOfCode d) := by
  rw [rational, rational, div_le_div_iff_of_pos_right Number.unitsPerOne_pos, Int.cast_le]

theorem rational_codeOfInt_mono {m n : Int} (h : m ≤ n) :
    rational (decide (m < 0)) (codeOfInt m) ≤ rational (decide (n < 0)) (codeOfInt n) := by
  have hunits : m * unitsPerOne ≤ n * unitsPerOne :=
    Int.mul_le_mul_of_nonneg_right h (Int.natCast_nonneg _)
  have hmono := signed_codeOfUnits_mono hunits
  simp only [mul_unitsPerOne_neg_iff] at hmono
  exact rational_le_iff.2 hmono

theorem codeOfInt_lt_iff {n : Int} :
    codeOfInt n < infinityCode ↔ n.natAbs < Number.overflowBound := by
  have hfinite := Number.nearestCode_finite_iff n.natAbs Nat.one_pos
  rw [Nat.mul_one] at hfinite
  rwa [codeOfInt, codeOfUnits, Int.natAbs_mul, Int.natAbs_natCast]

/-- Integers of at most 53 binary digits are not rounded. -/
theorem rational_codeOfInt {n : Int} (h : n.natAbs ≤ 2 ^ 53) :
    rational (decide (n < 0)) (codeOfInt n) = n := by
  obtain ⟨exponent, hunit⟩ : ∃ exponent, unitsPerOne = Nat.pow 2 exponent :=
    ⟨1074, by unfold unitsPerOne; rfl⟩
  obtain ⟨code, hcode⟩ := exists_unitsOfCode h exponent
  change unitsPerOne = 2 ^ exponent at hunit
  rw [← hunit] at hcode
  have hexact : n * unitsPerOne - signed (decide (n < 0)) (unitsOfCode code) = 0 := by
    rw [hcode, signed]
    split <;> grind
  have hle := (isNearest_codeOfInt n).abs_sub_le (decide (n < 0)) code
  rw [abs_sub_rational n _ code, hexact, Int.natAbs_zero, Nat.cast_zero, zero_div] at hle
  exact (sub_eq_zero.1 (abs_nonpos_iff.1 hle)).symm

/-! ### Only one number is nearest -/

theorem rational_true (code : Nat) : rational true code = -rational false code := by
  rw [rational, rational, ← neg_div, ← Int.cast_neg]
  rfl

theorem rational_zero (s : Bool) : rational s 0 = 0 := by
  have hunits : signed s (unitsOfCode 0) = 0 := by
    cases s <;> rfl
  rw [rational, hunits, Int.cast_zero, zero_div]

theorem rational_false_le_iff {c d : Nat} : rational false c ≤ rational false d ↔ c ≤ d :=
  rational_le_iff.trans (Int.ofNat_le.trans unitsOfCode_strictMono.le_iff_le)

theorem rational_false_lt_iff {c d : Nat} : rational false c < rational false d ↔ c < d :=
  lt_iff_lt_of_le_iff_le rational_false_le_iff

theorem rational_false_nonneg (code : Nat) : 0 ≤ rational false code := by
  rw [← rational_zero false, rational_false_le_iff]
  exact Nat.zero_le code

theorem rational_true_neg_iff {code : Nat} : rational true code < 0 ↔ code ≠ 0 := by
  rw [rational_true, neg_lt_zero, ← rational_zero false, rational_false_lt_iff, Nat.pos_iff_ne_zero]

/-- Two numbers with even codes are not neighbours. -/
theorem exists_rational_between {s t : Bool} {c d : Nat} (hc : c % 2 = 0) (hd : d % 2 = 0)
    (h : rational s c < rational t d) :
    ∃ u k, rational s c < rational u k ∧ rational u k < rational t d := by
  match s, t with
  | false, false =>
      rw [rational_false_lt_iff] at h
      refine ⟨false, c + 1, ?_, ?_⟩ <;> rw [rational_false_lt_iff] <;> omega
  | false, true =>
      have hcpos := rational_false_nonneg c
      have hdpos := rational_false_nonneg d
      rw [rational_true] at h
      linarith
  | true, true =>
      rw [rational_true, rational_true, neg_lt_neg_iff, rational_false_lt_iff] at h
      refine ⟨true, d + 1, ?_, ?_⟩ <;>
        rw [rational_true, rational_true, neg_lt_neg_iff, rational_false_lt_iff] <;> omega
  | true, false =>
      have hzero := rational_zero false
      rcases Nat.eq_zero_or_pos c with rfl | hcpos
      · rw [rational_zero, ← hzero, rational_false_lt_iff] at h
        rw [rational_zero, ← hzero]
        refine ⟨false, 1, ?_, ?_⟩ <;> rw [rational_false_lt_iff] <;> omega
      rcases Nat.eq_zero_or_pos d with rfl | hdpos
      · refine ⟨true, 1, ?_, ?_⟩
        · rw [rational_true, rational_true, neg_lt_neg_iff, rational_false_lt_iff]
          omega
        · rw [hzero]
          exact rational_true_neg_iff.2 Nat.one_ne_zero
      · refine ⟨false, 0, ?_, rational_false_lt_iff.2 hdpos⟩
        rw [hzero]
        exact rational_true_neg_iff.2 hcpos.ne'

/-- Of two nearest numbers with different values both have an even code, and what lies between
them is nearer. -/
theorem IsNearest.rational_eq {q : ℚ} {s t : Bool} {c d : Nat} (hc : IsNearest q s c)
    (hd : IsNearest q t d) : rational s c = rational t d := by
  have hle {s t : Bool} {c d : Nat} (hc : IsNearest q s c) (hd : IsNearest q t d) :
      rational s c ≤ rational t d := by
    by_contra hlt
    rw [not_le] at hlt
    have htie : |q - rational s c| = |q - rational t d| :=
      le_antisymm (hc.abs_sub_le t d) (hd.abs_sub_le s c)
    obtain ⟨u, k, hlow, hhigh⟩ := exists_rational_between
      (hd.even_of_tie s c htie hlt.ne') (hc.even_of_tie t d htie.symm hlt.ne) hlt
    have hbetween := hc.abs_sub_le u k
    grind
  exact le_antisymm (hle hc hd) (hle hd hc)

end Double

namespace Number

open Double

/-! ### Past the finite doubles -/

/-- The first number past the finite doubles, `2 ^ 1024`. -/
def limit : ℚ := rational false infinityCode

theorem limit_pos : 0 < limit := by
  rw [limit, ← rational_zero false, rational_false_lt_iff]
  decide

/-- Numbers from the limit onwards become infinite. -/
def saturate (q : ℚ) : Line :=
  if q ≤ -limit then ⊥ else if limit ≤ q then (⊤ : WithTop ℚ) else (q : WithTop ℚ)

variable {q r : ℚ}

theorem saturate_of_le (h : q ≤ -limit) : saturate q = ⊥ :=
  if_pos h

theorem saturate_of_ge (h : limit ≤ q) : saturate q = (⊤ : WithTop ℚ) := by
  have hpos := limit_pos
  rw [saturate, if_neg (by linarith), if_pos h]

theorem saturate_of_abs_lt (h : |q| < limit) : saturate q = (q : WithTop ℚ) := by
  obtain ⟨hlow, hhigh⟩ := abs_lt.1 h
  rw [saturate, if_neg (not_le.2 hlow), if_neg (not_le.2 hhigh)]

theorem saturate_mono (h : q ≤ r) : saturate q ≤ saturate r := by
  rcases le_or_gt q (-limit) with hq | hq
  · rw [saturate_of_le hq]
    exact bot_le
  rcases le_or_gt limit r with hr | hr
  · rw [saturate_of_ge hr]
    exact le_top
  · rw [saturate_of_abs_lt (abs_lt.2 ⟨hq, h.trans_lt hr⟩),
      saturate_of_abs_lt (abs_lt.2 ⟨hq.trans_le h, hr⟩)]
    exact WithBot.coe_le_coe.2 (WithTop.coe_le_coe.2 h)

/-- A double made from a code has the value that the code counts up to, as far as this is below
the limit. -/
theorem value?_ofCode (s : Bool) (c : Nat) :
    value? (.double (.ofCode s c)) = some (saturate (rational s c)) := by
  by_cases hfinite : c < infinityCode
  · have hlt : rational false c < limit := rational_false_lt_iff.2 hfinite
    have hnonneg := rational_false_nonneg c
    have habs : |rational s c| < limit := by
      cases s with
      | false => rwa [abs_of_nonneg hnonneg]
      | true => rwa [rational_true, abs_neg, abs_of_nonneg hnonneg]
    rw [ofCode, dif_pos hfinite, saturate_of_abs_lt habs]
    rfl
  · have hle : limit ≤ rational false c := rational_false_le_iff.2 (Nat.not_lt.1 hfinite)
    rw [ofCode, dif_neg hfinite]
    cases s with
    | false =>
        rw [saturate_of_ge hle]
        rfl
    | true =>
        rw [rational_true, saturate_of_le (neg_le_neg hle)]
        rfl

theorem saturated_int (n : Int) : saturated (.int n) = .ofCode (decide (n < 0)) (codeOfInt n) := by
  rw [saturated, ofInt, ofQuotient, codeOfInt, codeOfUnits, Int.natAbs_mul, Int.natAbs_natCast]

/-- Where the conversion of mixed arithmetic fails, there is an infinity with the sign of the
integer. -/
theorem saturated_eq_of_toDouble (n : Int) :
    saturated (.int n) =
      match toDouble (.int n) with
      | .ok d => d
      | .error _ => .infinite (!decide (0 < n)) := by
  have hcode : ofInt n = .ofCode (decide (n < 0)) (codeOfInt n) := saturated_int n
  rw [saturated, toDouble, hcode, ofCode]
  split
  · rfl
  · rename_i hlarge
    have hne : n ≠ 0 := by
      rintro rfl
      exact hlarge (codeOfInt_lt_iff.2 (by decide +kernel))
    have hsign : decide (n < 0) = !decide (0 < n) := by
      rw [← decide_not, decide_eq_decide]
      omega
    rw [hsign]
    rfl

theorem saturated_neg {n : Int} (h : n ≠ 0) :
    saturated (.int (-n)) = (saturated (.int n)).neg := by
  have hsign : decide (-n < 0) = !decide (n < 0) := by
    rw [← decide_not, decide_eq_decide]
    omega
  rw [saturated, saturated, ofInt, ofInt, Int.natAbs_neg, hsign, ofQuotient_not]

/-- A literal of any size has a value: the one double nearest to it, ties to even, as long as this
is finite, and past that an infinity with the sign of the literal. So the conversion keeps the order
of all integers; it passes to the negative double with the negative integer; and it is exact up to
`2 ^ 53`. -/
theorem saturated_nearest_monotone :
    (∀ n : Int, ∃ code, IsNearest n (decide (n < 0)) code ∧
      (∀ s c, IsNearest n s c → rational s c = rational (decide (n < 0)) code) ∧
      saturated (.int n) = .ofCode (decide (n < 0)) code ∧
      (code < infinityCode ↔ n.natAbs < overflowBound)) ∧
    (∀ (n : Int) (p : Point),
      (Expr.integer n).evaluate p = .ok (.double (saturated (.int n))) ∧
      saturated (.int n) =
        match toDouble (.int n) with
        | .ok d => d
        | .error _ => .infinite (!decide (0 < n))) ∧
    (∀ m n : Int, m ≤ n → ∃ v ∈ value? (.double (saturated (.int m))),
      ∃ w ∈ value? (.double (saturated (.int n))), v ≤ w) ∧
    (∀ n : Int, n ≠ 0 → saturated (.int (-n)) = (saturated (.int n)).neg) ∧
    ∀ n : Int, n.natAbs ≤ 2 ^ 53 → value? (.double (saturated (.int n))) = value? (.int n) := by
  refine ⟨fun n => ?_, fun n p => ⟨Expr.evaluate_atom p _, saturated_eq_of_toDouble n⟩,
    fun m n h => ?_, fun n => saturated_neg, fun n h => ?_⟩
  · have hnearest := isNearest_codeOfInt n
    exact ⟨codeOfInt n, hnearest, fun s c h => h.rational_eq hnearest, saturated_int n,
      codeOfInt_lt_iff⟩
  · rw [saturated_int, saturated_int, value?_ofCode, value?_ofCode]
    exact ⟨_, rfl, _, rfl, saturate_mono (rational_codeOfInt_mono h)⟩
  · have hfinite : codeOfInt n < infinityCode :=
      codeOfInt_lt_iff.2 (h.trans_lt (by decide +kernel))
    rw [saturated_int, ofCode, dif_pos hfinite, value?_finite, value?]
    exact congrArg (fun q : ℚ => some ((q : WithTop ℚ) : Line)) (rational_codeOfInt h)

/-- Around the first integer that becomes infinite, around the first that is rounded, and at zero,
to which both zeros are nearest. -/
theorem saturated_nearest_monotone_bounds :
    let n : Int := overflowBound
    (n - 1 ≤ n ∧ n ≠ 0 ∧ (2 ^ 53 : Int).natAbs ≤ 2 ^ 53) ∧
    (∃ code, code < infinityCode ∧ saturated (.int (n - 1)) = .ofCode false code) ∧
    saturated (.int n) = .infinite false ∧ saturated (.int (-n)) = .infinite true ∧
    (∃ v ∈ value? (.double (saturated (.int (n - 1)))),
      ∃ w ∈ value? (.double (saturated (.int n))), v ≤ w) ∧
    saturated (.int (2 ^ 53 + 1)) = saturated (.int (2 ^ 53)) ∧
    value? (.double (saturated (.int (2 ^ 53)))) = value? (.int (2 ^ 53)) ∧
    IsNearest (0 : Int) true 0 ∧
    ∃ code, saturated (.int 0) = .ofCode false code ∧ rational true 0 = rational false code := by
  intro n
  obtain ⟨hnearest, -, hmono, hneg, hexact⟩ := saturated_nearest_monotone
  have hle : n - 1 ≤ n := Int.sub_le_self n (by decide)
  have hne : n ≠ 0 := by decide +kernel
  have hsmall : (2 ^ 53 : Int).natAbs ≤ 2 ^ 53 := by decide +kernel
  have hinfinite : saturated (.int n) = .infinite false := by decide +kernel
  have htie : saturated (.int (2 ^ 53 + 1)) = saturated (.int (2 ^ 53)) := by decide +kernel
  obtain ⟨code, -, -, hcode, hfinite⟩ := hnearest (n - 1)
  have hsign : decide (n - 1 < 0) = false := by decide +kernel
  rw [hsign] at hcode
  have hzero : IsNearest (0 : Int) true 0 := by
    refine ⟨fun s c => ?_, fun _ _ _ _ => rfl⟩
    rw [rational_zero, Int.cast_zero, sub_zero, abs_zero]
    exact abs_nonneg _
  obtain ⟨least, -, hunique, hleast, -⟩ := hnearest 0
  refine ⟨⟨hle, hne, hsmall⟩, ⟨code, hfinite.2 (by decide +kernel), hcode⟩, hinfinite, ?_,
    hmono _ _ hle, htie, hexact _ hsmall, hzero, least, hleast, hunique true 0 hzero⟩
  rw [hneg n hne, hinfinite]
  rfl

end Number

end Trivar
