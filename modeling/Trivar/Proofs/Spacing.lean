import Trivar.Proofs.Scanning

/-!
Texts with spaces between them. A space ends the token before it, and the
scanner starts anew behind it, so both parts of a text have the tokens, or the
error, that they have alone; only their places move (`scanEntries_spaces`).
-/

namespace Trivar

def ParseError.shift (distance : Nat) (err : ParseError) : ParseError :=
  { err with position := err.position.map (· + (distance : Int)) }

namespace Token

open Outcome

def shift (distance : Nat) (t : Token) : Token := { t with position := t.position + distance }

def Entry.shift (distance : Nat) (entry : Entry) : Entry :=
  { entry with position := entry.position + distance }

theorem scanFrom_shift (distance position : Nat) (text : List Char) :
    scanFrom (position + distance) text =
      ((scanFrom position text).map (·.map (shift distance))).mapError
        (ParseError.shift distance) := by
  fun_induction scanFrom position text with
  | case1 position =>
      rw [scanFrom]
      rfl
  | case2 position rest ih => rw [scanFrom_space, Nat.add_right_comm, ih]
  | case3 position c rest hc fault hfirst =>
      rw [scanFrom_error hc hfirst]
      rfl
  | case4 position c rest hc lexeme length hfirst ih =>
      rw [scanFrom_ok hc hfirst, Nat.add_right_comm, ih]
      cases scanFrom (position + length) (rest.drop (length - 1)) <;> rfl

theorem scanFrom_spaces (position count : Nat) (text : List Char) :
    scanFrom position (List.replicate count ' ' ++ text) = scanFrom (position + count) text := by
  induction count generalizing position with
  | zero => rfl
  | succ count ih =>
      rw [List.replicate_succ, List.cons_append, scanFrom_space, ih, Nat.add_right_comm]
      rfl

theorem scan_spaces (s t : String) {count : Nat} (hcount : 1 ≤ count) :
    scan (s ++ String.ofList (List.replicate count ' ') ++ t) = do
      let before ← scan s
      let behind ← ((scan t).map (·.map (shift (s.length + count)))).mapError
        (ParseError.shift (s.length + count))
      return before ++ behind := by
  have hends : EndsToken (List.replicate count ' ' ++ t.toList) := by
    obtain ⟨k, rfl⟩ : ∃ k, count = k + 1 := ⟨count - 1, by omega⟩
    exact endsToken_space _
  have hshift := scanFrom_shift (s.length + count) 0 t.toList
  rw [Nat.zero_add] at hshift
  rw [scan, String.toList_append, String.toList_append, String.toList_ofList, List.append_assoc,
    scanFrom_append hends, String.length_toList, Nat.zero_add, scanFrom_spaces, hshift]
  rfl

theorem entries_append (before behind : List Token) (first length distance : Nat) :
    entries (before ++ behind.map (shift distance)) (length + distance) =
      (entries before first).dropLast ++ (entries behind length).map (Entry.shift distance) := by
  simp only [entries, List.dropLast_concat, List.map_append, List.map_map, List.append_assoc]
  rfl

/-- A text with spaces between two parts has the entries of the first part up to its end, and then
those of the second part at their new places. If the first part cannot be scanned, its error is
the error of the text; otherwise the error of the second part is, at its new place. -/
theorem scanEntries_spaces (s t : String) {count : Nat} (hcount : 1 ≤ count) :
    scanEntries (s ++ String.ofList (List.replicate count ' ') ++ t) = do
      let before ← scanEntries s
      let behind ← (scanEntries t).mapError (ParseError.shift (s.length + count))
      return before.dropLast ++ behind.map (Entry.shift (s.length + count)) := by
  have hlength : (s ++ String.ofList (List.replicate count ' ') ++ t).length =
      t.length + (s.length + count) := by
    rw [String.length_append, String.length_append, String.length_ofList, List.length_replicate,
      Nat.add_comm]
  rw [scanEntries, scanEntries, scanEntries, scan_spaces s t hcount, hlength]
  cases scan s with
  | error err => rfl
  | ok before =>
      cases scan t with
      | error err => rfl
      | ok behind => exact congrArg Except.ok (entries_append before behind ..)

/-- Two spaces keep the digit of `hmean2` from the one behind it; a word that means nothing is
found where it stands. -/
theorem scanEntries_digits_apart :
    1 ≤ 2 ∧
    scanEntries ("hmean2" ++ String.ofList (List.replicate 2 ' ') ++ "2x") =
      .ok [⟨some (.operator (.harmonicMean 0)), 0⟩, ⟨some (.digits "2"), 8⟩,
        ⟨some (.variable .x), 9⟩, ⟨none, 10⟩] ∧
    scanEntries ("hmean2" ++ String.ofList (List.replicate 2 ' ') ++ "x hmean22") =
      .error ⟨.invalidOperationToken "hmean", some 10⟩ := by
  rw [scanEntries_spaces _ _ (by decide), scanEntries_spaces _ _ (by decide)]
  decide +kernel

end Token

end Trivar
