/-!
Tuples of a length that the type knows. An operation of arity `n` stores its
arguments in a `Tuple _ n`, so a tree with a wrong number of arguments cannot
be written down. `ofList?` is the only way in from a list; it accepts a list
exactly when its length is the one asked for.
-/

namespace Trivar

inductive Tuple (α : Type) : Nat → Type
  | nil : Tuple α 0
  | cons {n : Nat} (head : α) (tail : Tuple α n) : Tuple α (n + 1)

namespace Tuple

variable {α β γ : Type} {n : Nat}

def toList {n : Nat} : Tuple α n → List α
  | .nil => []
  | .cons a as => a :: as.toList

/-- Reads a list of exactly `n` entries. -/
def ofList? : (n : Nat) → List α → Option (Tuple α n)
  | 0, [] => some .nil
  | n + 1, a :: as => (ofList? n as).map (.cons a)
  | _, _ => none

def map {n : Nat} (f : α → β) : Tuple α n → Tuple β n
  | .nil => .nil
  | .cons a as => .cons (f a) (as.map f)

def zipWith {n : Nat} (f : α → β → γ) : Tuple α n → Tuple β n → Tuple γ n
  | .nil, .nil => .nil
  | .cons a as, .cons b bs => .cons (f a b) (as.zipWith f bs)

def sum {n : Nat} : Tuple Nat n → Nat
  | .nil => 0
  | .cons a as => a + as.sum

/-- Carries out computations from the left to the right. -/
def sequence {m : Type → Type} [Monad m] {n : Nat} : Tuple (m α) n → m (Tuple α n)
  | .nil => return .nil
  | .cons x xs => do
    let a ← x
    let as ← xs.sequence
    return .cons a as

@[simp] theorem length_toList (t : Tuple α n) : t.toList.length = n := by
  induction t with
  | nil => rfl
  | cons a as ih => simp [toList, ih]

@[simp] theorem toList_map (f : α → β) (t : Tuple α n) :
    (t.map f).toList = t.toList.map f := by
  induction t with
  | nil => rfl
  | cons a as ih => simp [map, toList, ih]

theorem mapM_id_toList {m : Type → Type} [Monad m] [LawfulMonad m] (xs : Tuple (m α) n) :
    xs.toList.mapM id = toList <$> xs.sequence := by
  induction xs with
  | nil => simp [toList, sequence]
  | cons x xs ih => simp [toList, sequence, ih]

@[simp] theorem ofList?_toList (t : Tuple α n) : ofList? n t.toList = some t := by
  induction t with
  | nil => rfl
  | cons a as ih => simp [toList, ofList?, ih]

theorem toList_of_ofList? {as : List α} {t : Tuple α n} (h : ofList? n as = some t) :
    t.toList = as := by
  induction t generalizing as with
  | nil => cases as with
    | nil => rfl
    | cons a as => simp [ofList?] at h
  | cons a t ih => cases as with
    | nil => simp [ofList?] at h
    | cons b bs =>
      simp only [ofList?, Option.map_eq_some_iff, cons.injEq] at h
      obtain ⟨u, hu, rfl, rfl⟩ := h
      simp [toList, ih hu]

theorem ofList?_eq_some_iff {as : List α} {t : Tuple α n} :
    ofList? n as = some t ↔ t.toList = as :=
  ⟨toList_of_ofList?, fun h => h ▸ ofList?_toList t⟩

theorem ofList?_map (f : α → β) (n : Nat) (as : List α) :
    ofList? n (as.map f) = (ofList? n as).map (Tuple.map f) := by
  induction n generalizing as with
  | zero => cases as <;> rfl
  | succ n ih =>
    cases as with
    | nil => rfl
    | cons a as =>
      rw [List.map_cons, ofList?, ofList?, ih, Option.map_map, Option.map_map]
      rfl

theorem isSome_ofList? (n : Nat) (as : List α) :
    (ofList? n as).isSome = (as.length == n) := by
  induction n generalizing as with
  | zero => cases as <;> simp [ofList?]
  | succ n ih => cases as <;> simp [ofList?, ih]

theorem ofList?_eq_none_iff {as : List α} : ofList? n as = none ↔ as.length ≠ n := by
  rw [← Option.not_isSome_iff_eq_none, isSome_ofList?, beq_iff_eq]

theorem toList_injective {s t : Tuple α n} (h : s.toList = t.toList) : s = t := by
  have hs := ofList?_toList s
  rw [h, ofList?_toList t] at hs
  exact (Option.some.inj hs).symm

end Tuple

end Trivar
