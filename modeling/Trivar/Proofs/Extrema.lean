import Mathlib.Algebra.Order.Field.Rat
import Mathlib.Algebra.Order.Ring.Cast
import Mathlib.Order.Bounds.Basic
import Mathlib.Order.RelClasses
import Mathlib.Order.WithBot
import Trivar.Closure
import Trivar.Proofs.Outcome

/-!
Positions of extrema. Numbers of both kinds are compared by their exact values
on the extended line of rational numbers (`Number.lt_iff`). NaN has no value: it
is never better than another number, and no number is better than NaN.

The position is found in one pass that keeps the best number so far. After each
step this number is the leftmost extremum of all numbers seen
(`Standing.keepBetter`), provided the first of them is not NaN; a NaN in the
first place stays the best to the end.
-/

namespace Trivar

namespace Number

/-- The line of rational numbers with both infinities. -/
abbrev Line := WithBot (WithTop ℚ)

/-- The exact value. NaN has none. -/
def value? : Number → Option Line
  | .int n => some ((n : ℚ) : WithTop ℚ)
  | .double .nan => none
  | .double (.infinite negative) => some (if negative then ⊥ else (⊤ : WithTop ℚ))
  | .double (.finite negative code) =>
    some ((Double.signed negative (Double.unitsOfCode code) / Double.unitsPerOne : ℚ) : WithTop ℚ)

theorem value?_finite (negative : Bool) (code : Fin Double.infinityCode) :
    value? (.double (.finite negative code)) =
      some ((Double.signed negative (Double.unitsOfCode code) / Double.unitsPerOne : ℚ) :
        WithTop ℚ) :=
  rfl

theorem value?_eq_none_iff {n : Number} : n.value? = none ↔ n = .double .nan := by
  match n with
  | .int _ | .double (.infinite _) | .double (.finite _ _) =>
      exact iff_of_false (Option.some_ne_none _) nofun
  | .double .nan => exact iff_of_true rfl rfl

theorem value?_zero (negative : Bool) : value? (.double (.zero negative)) = value? (.int 0) := by
  have hunits : Double.signed negative (Double.unitsOfCode 0) = 0 := by
    cases negative <;> rfl
  rw [Double.zero, value?_finite, hunits, Int.cast_zero, zero_div]
  rfl

def Place.value : Place → Line
  | .bottom => ⊥
  | .units k => ((k / Double.unitsPerOne : ℚ) : WithTop ℚ)
  | .top => (⊤ : WithTop ℚ)

theorem unitsPerOne_pos : (0 : ℚ) < Double.unitsPerOne :=
  Nat.cast_pos.2 (by decide +kernel)

theorem scaled_div_unitsPerOne (n : Int) :
    ((n * Double.unitsPerOne : Int) : ℚ) / Double.unitsPerOne = n := by
  rw [Int.cast_mul, Int.cast_natCast, mul_div_cancel_right₀ _ unitsPerOne_pos.ne']

theorem value?_eq_map_place? (n : Number) : n.value? = n.place?.map Place.value := by
  match n with
  | .int n =>
      rw [place?, Option.map_some, Place.value, scaled_div_unitsPerOne, value?]
  | .double .nan | .double (.infinite true) | .double (.infinite false)
  | .double (.finite _ _) => rfl

theorem Place.lt_iff {a b : Place} : a.lt b = true ↔ a.value < b.value := by
  match a, b with
  | .units a, .units b =>
      rw [Place.lt, decide_eq_true_iff, value, value, WithBot.coe_lt_coe, WithTop.coe_lt_coe,
        div_lt_div_iff_of_pos_right unitsPerOne_pos, Int.cast_lt]
  | .units _, .top => exact iff_of_true rfl (WithBot.coe_lt_coe.2 (WithTop.coe_lt_top _))
  | .bottom, .units _ | .bottom, .top => exact iff_of_true rfl (WithBot.bot_lt_coe _)
  | .bottom, .bottom | .units _, .bottom | .top, .bottom =>
      exact iff_of_false Bool.false_ne_true not_lt_bot
  | .top, .units _ | .top, .top => exact iff_of_false Bool.false_ne_true not_top_lt

/-- Numbers are compared by value. -/
theorem lt_iff {m n : Number} : m.lt n = true ↔ ∃ v ∈ m.value?, ∃ w ∈ n.value?, v < w := by
  rw [value?_eq_map_place?, value?_eq_map_place?, lt]
  cases m.place? with
  | none => simp
  | some a =>
      cases n.place? with
      | none => simp
      | some b => simpa using Place.lt_iff

theorem lt_iff_not_le (m n : Number) :
    m.lt n = true ↔ ∃ v ∈ m.value?, ∃ w ∈ n.value?, ¬ w ≤ v := by
  simp only [not_le]
  exact lt_iff

theorem gt_iff_not_ge (m n : Number) :
    n.lt m = true ↔ ∃ v ∈ m.value?, ∃ w ∈ n.value?, ¬ w ≥ v := by
  simp only [not_le, ge_iff_le]
  rw [lt_iff]
  exact ⟨fun ⟨v, hv, w, hw, h⟩ => ⟨w, hw, v, hv, h⟩, fun ⟨v, hv, w, hw, h⟩ => ⟨w, hw, v, hv, h⟩⟩

end Number

namespace Closure

open Number Outcome

/-- The number at this position is not NaN, and its value is related to that of every number in
the list that is not NaN. -/
def IsExtremum (r : Line → Line → Prop) (ns : List Number) (i : Nat) : Prop :=
  ∃ n v, ns[i]? = some n ∧ n.value? = some v ∧ ∀ m ∈ ns, ∀ w, m.value? = some w → r v w

/-- The pass over the numbers, with the best number so far and its position. -/
def keepBetter (better : Number → Number → Bool) (best candidate : Number × Nat) : Number × Nat :=
  if better candidate.1 best.1 then candidate else best

theorem extremum?_cons (better : Number → Number → Bool) (n : Number) (ns : List Number) :
    extremum? better (n :: ns) = some ((ns.zipIdx 1).foldl (keepBetter better) (n, 0)).2 :=
  rfl

variable {r : Line → Line → Prop} {better : Number → Number → Bool} {seen ns : List Number}
  {n : Number} {i : Nat}

/-- The best number of those seen so far. -/
structure Standing (r : Line → Line → Prop) (seen : List Number) (best : Number × Nat) :
    Prop where
  entry : seen[best.2]? = some best.1
  leftmost : IsLeast {i | IsExtremum r seen i} best.2

theorem IsExtremum.lt_length (h : IsExtremum r ns i) : i < ns.length := by
  obtain ⟨n, -, hn, -⟩ := h
  exact (List.getElem?_eq_some_iff.1 hn).1

/-- An extremum of more numbers is one of those seen before, if it stands among them. -/
theorem IsExtremum.of_concat (h : IsExtremum r (seen ++ [n]) i) (hi : i < seen.length) :
    IsExtremum r seen i := by
  obtain ⟨m, v, hm, hv, hall⟩ := h
  rw [List.getElem?_append_left hi] at hm
  exact ⟨m, v, hm, hv, fun k hk => hall k (List.mem_append_left _ hk)⟩

theorem Standing.exists_value {best : Number × Nat} (h : Standing r seen best) :
    ∃ v, best.1.value? = some v ∧ ∀ m ∈ seen, ∀ w, m.value? = some w → r v w := by
  obtain ⟨n, v, hn, hv, hall⟩ := h.leftmost.1
  rw [h.entry] at hn
  cases hn
  exact ⟨v, hv, hall⟩

theorem Standing.lt_length {best : Number × Nat} (h : Standing r seen best) :
    best.2 < seen.length :=
  h.leftmost.1.lt_length

theorem Standing.first [Std.Total r] (h : n.value? ≠ none) : Standing r [n] (n, 0) := by
  obtain ⟨v, hv⟩ := Option.ne_none_iff_exists'.1 h
  refine ⟨rfl, ⟨n, v, rfl, hv, ?_⟩, fun _ _ => Nat.zero_le _⟩
  intro m hm w hw
  rw [List.mem_singleton.1 hm, hv] at hw
  cases hw
  exact (Std.Total.total v v).elim id id

/-- A number that is not better leaves the position where it is. -/
theorem Standing.keep {best : Number × Nat} (h : Standing r seen best)
    (hworse : ∀ v ∈ best.1.value?, ∀ w ∈ n.value?, r v w) : Standing r (seen ++ [n]) best := by
  obtain ⟨v, hv, hall⟩ := h.exists_value
  have hentry : (seen ++ [n])[best.2]? = some best.1 := by
    rw [List.getElem?_append_left h.lt_length, h.entry]
  refine ⟨hentry, ⟨best.1, v, hentry, hv, ?_⟩, fun i hi => ?_⟩
  · intro m hm w hw
    obtain hm | hm := List.mem_append.1 hm
    · exact hall m hm w hw
    · rw [List.mem_singleton.1 hm] at hw
      exact hworse v hv w hw
  · by_cases hlt : i < seen.length
    · exact h.leftmost.2 (hi.of_concat hlt)
    · exact h.lt_length.le.trans (Nat.le_of_not_lt hlt)

/-- A better number takes over, and no position before it is an extremum any longer. -/
theorem Standing.replace [IsTrans _ r] [Std.Total r] {best : Number × Nat}
    (h : Standing r seen best) {v w : Line} (hv : best.1.value? = some v)
    (hw : n.value? = some w) (hbetter : ¬ r v w) : Standing r (seen ++ [n]) (n, seen.length) := by
  obtain ⟨v', hv', hall⟩ := h.exists_value
  cases hv.symm.trans hv'
  have hwv : r w v := (Std.Total.total v w).resolve_left hbetter
  have hentry : (seen ++ [n])[seen.length]? = some n := List.getElem?_concat_length
  refine ⟨hentry, ⟨n, w, hentry, hw, ?_⟩, fun i hi => ?_⟩
  · intro m hm u hu
    obtain hm | hm := List.mem_append.1 hm
    · exact IsTrans.trans _ _ _ hwv (hall m hm u hu)
    · rw [List.mem_singleton.1 hm, hw] at hu
      cases hu
      exact (Std.Total.total w w).elim id id
  · by_contra hlt
    obtain ⟨m, u, hm, hu, hi⟩ := hi
    rw [List.getElem?_append_left (Nat.lt_of_not_le hlt)] at hm
    have huw : r u w := hi n (List.mem_append_right _ List.mem_cons_self) w hw
    exact hbetter (IsTrans.trans _ _ _ (hall m (List.mem_of_getElem? hm) u hu) huw)

section

variable (hbetter : ∀ m n, better m n = true ↔ ∃ v ∈ m.value?, ∃ w ∈ n.value?, ¬ r w v)
include hbetter

/-- An extremum is a number that no other one beats. -/
theorem isExtremum_iff : IsExtremum r ns i ↔
    ∃ n, ns[i]? = some n ∧ n ≠ .double .nan ∧ ∀ m ∈ ns, ¬ better m n = true := by
  constructor
  · rintro ⟨n, v, hn, hv, hall⟩
    refine ⟨n, hn, ?_, fun m hm hbeats => ?_⟩
    · rintro rfl
      cases hv
    · obtain ⟨w, hw, v', hv', hnot⟩ := (hbetter m n).1 hbeats
      cases hv.symm.trans hv'
      exact hnot (hall m hm w hw)
  · rintro ⟨n, hn, hnumber, hunbeaten⟩
    obtain ⟨v, hv⟩ := Option.ne_none_iff_exists'.1 (mt value?_eq_none_iff.1 hnumber)
    refine ⟨n, v, hn, hv, fun m hm w hw => ?_⟩
    by_contra hnot
    exact hunbeaten m hm ((hbetter m n).2 ⟨w, hw, v, hv, hnot⟩)

theorem Standing.keepBetter [IsTrans _ r] [Std.Total r] {best : Number × Nat}
    (h : Standing r seen best) (n : Number) :
    Standing r (seen ++ [n]) (keepBetter better best (n, seen.length)) := by
  unfold Closure.keepBetter
  split
  · next hwins =>
      obtain ⟨w, hw, v, hv, hnot⟩ := (hbetter _ _).1 hwins
      exact h.replace hv hw hnot
  · next hloses =>
      refine h.keep fun v hv w hw => ?_
      by_contra hnot
      exact hloses ((hbetter _ _).2 ⟨w, hw, v, hv, hnot⟩)

/-- The best number so far stays so along the pass over the rest. -/
theorem Standing.foldl [IsTrans _ r] [Std.Total r] {best : Number × Nat}
    (h : Standing r seen best) (rest : List Number) :
    Standing r (seen ++ rest) ((rest.zipIdx seen.length).foldl (Closure.keepBetter better) best) := by
  induction rest generalizing seen best with
  | nil => rwa [List.append_nil]
  | cons n rest ih =>
      have hrest := ih (h.keepBetter hbetter n)
      rwa [List.length_append, List.length_singleton, List.append_assoc] at hrest

theorem foldl_keepBetter_nan (candidates : List (Number × Nat)) (i : Nat) :
    candidates.foldl (keepBetter better) (.double .nan, i) = (.double .nan, i) := by
  induction candidates with
  | nil => rfl
  | cons candidate candidates ih =>
      have hloses : ¬ better candidate.1 (.double .nan) = true := by
        rw [hbetter]
        rintro ⟨v, -, w, ⟨⟩, -⟩
      rw [List.foldl_cons, keepBetter, if_neg hloses, ih]

theorem extremum?_leftmost [IsTrans _ r] [Std.Total r] (n : Number) (ns : List Number) :
    ∃ i, extremum? better (n :: ns) = some i ∧ i < (n :: ns).length ∧
      (n = .double .nan → i = 0) ∧
      (n ≠ .double .nan → IsLeast {k | IsExtremum r (n :: ns) k} i) := by
  rw [extremum?_cons]
  by_cases hnan : n = .double .nan
  · subst hnan
    rw [foldl_keepBetter_nan hbetter]
    exact ⟨0, rfl, Nat.succ_pos _, fun _ => rfl, fun h => absurd rfl h⟩
  · have hfirst : Standing r [n] (n, 0) := .first (mt value?_eq_none_iff.1 hnan)
    have hlast := hfirst.foldl hbetter ns
    exact ⟨_, rfl, hlast.lt_length, fun h => absurd h hnan, fun _ => hlast.leftmost⟩

end

theorem argExtremum_of_map_eq {args : List Closure} {p : Point} {i : Nat}
    (hargs : args.map (· p) = ns.map .ok) (h : extremum? better ns = some i) :
    argExtremum better args p = .ok (.int i) := by
  rw [argExtremum, mapM_eq_ok.2 hargs, ok_bind, h]
  rfl

/-- The positions of extrema are those of the leftmost ones by value, unless the first number is
NaN. Zeros of both signs and of both kinds have the same value. -/
theorem extrema_leftmost {args : List Closure} {p : Point} {n : Number} {ns : List Number}
    (hargs : args.map (· p) = (n :: ns).map .ok) :
    ∃ i j : Nat, argMin args p = .ok (.int i) ∧ argMax args p = .ok (.int j) ∧
      i < args.length ∧ j < args.length ∧
      (n = .double .nan → i = 0 ∧ j = 0) ∧
      (n ≠ .double .nan → IsLeast {k | IsExtremum (· ≤ ·) (n :: ns) k} i ∧
        IsLeast {k | IsExtremum (· ≥ ·) (n :: ns) k} j) ∧
      ∀ negative, value? (.double (.zero negative)) = value? (.int 0) := by
  have hlength : args.length = (n :: ns).length := by
    simpa using congrArg List.length hargs
  obtain ⟨i, hi, hilt, hinan, hileast⟩ := extremum?_leftmost lt_iff_not_le n ns
  obtain ⟨j, hj, hjlt, hjnan, hjleast⟩ := extremum?_leftmost gt_iff_not_ge n ns
  rw [← hlength] at hilt hjlt
  exact ⟨i, j, argExtremum_of_map_eq hargs hi, argExtremum_of_map_eq hargs hj, hilt, hjlt,
    fun h => ⟨hinan h, hjnan h⟩, fun h => ⟨hileast h, hjleast h⟩, value?_zero⟩

/-- Among one, NaN, minus zero and the integer zero the least is minus zero, and one is the
greatest. -/
theorem extrema_leftmost_zeros :
    let p : Point := ⟨.double (.zero true), .int 0, .double .nan⟩
    let args := [one, coordinate .z, coordinate .x, coordinate .y]
    let numbers := [.int 1, .double .nan, .double (.zero true), .int 0]
    args.map (· p) = numbers.map .ok ∧
      argMin args p = .ok (.int 2) ∧ IsLeast {k | IsExtremum (· ≤ ·) numbers k} 2 ∧
      argMax args p = .ok (.int 0) ∧ IsLeast {k | IsExtremum (· ≥ ·) numbers k} 0 := by
  intro p args numbers
  have hargs : args.map (· p) = numbers.map .ok := rfl
  have hmin : argMin args p = .ok (.int 2) := by decide +kernel
  have hmax : argMax args p = .ok (.int 0) := by decide +kernel
  obtain ⟨i, j, hi, hj, -, -, -, hleast, -⟩ := extrema_leftmost hargs
  obtain rfl : i = 2 := by
    rw [hmin] at hi
    grind
  obtain rfl : j = 0 := by
    rw [hmax] at hj
    grind
  obtain ⟨hleftmostMin, hleftmostMax⟩ := hleast nofun
  exact ⟨hargs, hmin, hleftmostMin, hmax, hleftmostMax⟩

end Closure

end Trivar
