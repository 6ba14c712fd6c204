/-!
Outcomes of computations that may fail, carried out one after the other.
-/

namespace Trivar.Outcome

variable {ε α β : Type}

@[simp] theorem ok_bind (a : α) (f : α → Except ε β) : (Except.ok a >>= f) = f a := rfl

@[simp] theorem error_bind (e : ε) (f : α → Except ε β) : (Except.error e >>= f) = .error e := rfl

@[simp] theorem ok_map (a : α) (f : α → β) : (Except.ok a : Except ε α).map f = .ok (f a) := rfl

@[simp] theorem error_map (e : ε) (f : α → β) :
    (Except.error e : Except ε α).map f = .error e := rfl

theorem bind_eq_ok {x : Except ε α} {f : α → Except ε β} {b : β} :
    x >>= f = .ok b ↔ ∃ a, x = .ok a ∧ f a = .ok b := by
  cases x <;> simp [bind, Except.bind]

theorem map_eq_ok {x : Except ε α} {f : α → β} {b : β} :
    x.map f = .ok b ↔ ∃ a, x = .ok a ∧ f a = b := by
  cases x <;> simp [Except.map]

theorem exists_of_isOk {x : Except ε α} (h : x.isOk = true) : ∃ a, x = .ok a := by
  cases x with
  | error e => cases h
  | ok a => exact ⟨a, rfl⟩

theorem map_eq_error {x : Except ε α} {f : α → β} {e : ε} : x.map f = .error e ↔ x = .error e := by
  cases x <;> simp

theorem mapM_eq_ok {f : α → Except ε β} {as : List α} {bs : List β} :
    as.mapM f = .ok bs ↔ as.map f = bs.map .ok := by
  induction as generalizing bs with
  | nil => cases bs <;> simp [pure, Except.pure]
  | cons a as ih =>
      rw [List.mapM_cons]
      cases bs with
      | nil => cases f a <;> cases as.mapM f <;> simp [pure, Except.pure]
      | cons b bs =>
          rw [List.map_cons, List.map_cons, List.cons.injEq, ← ih]
          cases f a <;> cases as.mapM f <;> simp [pure, Except.pure]

theorem mapM_map_right {γ : Type} (f : α → Except ε β) (g : β → γ) (as : List α) :
    as.mapM (fun a => (f a).map g) = (as.mapM f).map (List.map g) := by
  induction as with
  | nil => rfl
  | cons a as ih =>
      rw [List.mapM_cons, List.mapM_cons, ih]
      cases f a with
      | error e => rfl
      | ok b => cases as.mapM f <;> rfl

theorem length_of_mapM_id {xs : List (Except ε α)} {found : List α}
    (h : xs.mapM id = .ok found) : found.length = xs.length := by
  have hlength := congrArg List.length (mapM_eq_ok.1 h)
  rw [List.length_map, List.length_map] at hlength
  exact hlength.symm

theorem exists_of_mapM_eq_error {f : α → Except ε β} {as : List α} {e : ε}
    (h : as.mapM f = .error e) : ∃ a ∈ as, f a = .error e := by
  induction as with
  | nil => cases h
  | cons a as ih =>
      rw [List.mapM_cons] at h
      cases ha : f a with
      | error e' =>
          rw [ha] at h
          cases h
          exact ⟨a, List.mem_cons_self, ha⟩
      | ok b =>
          rw [ha, ok_bind] at h
          cases has : as.mapM f with
          | error e' =>
              rw [has] at h
              cases h
              obtain ⟨a', hmem, ha'⟩ := ih has
              exact ⟨a', List.mem_cons_of_mem a hmem, ha'⟩
          | ok bs =>
              rw [has] at h
              cases h

theorem mapM_fails_iff {f : α → Except ε β} {as : List α} :
    (∃ e, as.mapM f = .error e) ↔ ∃ a ∈ as, ∃ e, f a = .error e := by
  constructor
  · rintro ⟨e, h⟩
    obtain ⟨a, hmem, ha⟩ := exists_of_mapM_eq_error h
    exact ⟨a, hmem, e, ha⟩
  · rintro ⟨a, hmem, e, ha⟩
    cases h : as.mapM f with
    | error e => exact ⟨e, rfl⟩
    | ok bs =>
        have hall : f a ∈ bs.map .ok := mapM_eq_ok.1 h ▸ List.mem_map_of_mem hmem
        simp [ha] at hall

/-- Two computations for each entry, one right after the other or in two passes. They may report
different failures, but they succeed on the same lists. -/
theorem mapM_bind_eq_ok {f : α → Except ε β} {xs : List (Except ε α)} {bs : List β} :
    xs.mapM (· >>= f) = .ok bs ↔ ∃ as : List α, xs = as.map .ok ∧ as.mapM f = .ok bs := by
  simp only [mapM_eq_ok]
  constructor
  · intro h
    induction xs generalizing bs with
    | nil => exact ⟨[], rfl, h⟩
    | cons x xs ih =>
        cases bs with
        | nil => cases h
        | cons b bs =>
            rw [List.map_cons, List.map_cons, List.cons.injEq] at h
            obtain ⟨a, rfl, ha⟩ := bind_eq_ok.1 h.1
            obtain ⟨as, rfl, has⟩ := ih h.2
            exact ⟨a :: as, rfl, by rw [List.map_cons, List.map_cons, ha, has]⟩
  · rintro ⟨as, rfl, h⟩
    rw [List.map_map, ← h]
    rfl

end Trivar.Outcome
