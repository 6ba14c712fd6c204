import Trivar.Number

/-!
The three variables and the points at which expressions are evaluated.
-/

namespace Trivar

inductive Variable
  | x
  | y
  | z
  deriving DecidableEq

namespace Variable

def all : List Variable := [.x, .y, .z]

def name : Variable → String
  | .x => "x"
  | .y => "y"
  | .z => "z"

def ofName? (name : String) : Option Variable := all.find? (·.name = name)

def index : Variable → Nat
  | .x => 0
  | .y => 1
  | .z => 2

theorem mem_all (v : Variable) : v ∈ all := by cases v <;> simp [all]

theorem forall_of_all {P : Variable → Prop} (h : ∀ v ∈ all, P v) (v : Variable) : P v :=
  h v (mem_all v)

theorem ofName?_eq_some_iff {s : String} {v : Variable} : ofName? s = some v ↔ v.name = s := by
  constructor
  · intro h
    simpa using List.find?_some h
  · rintro rfl
    cases v <;> decide

end Variable

structure Point where
  x : Number
  y : Number
  z : Number

def Point.at (p : Point) : Variable → Number
  | .x => p.x
  | .y => p.y
  | .z => p.z

end Trivar
