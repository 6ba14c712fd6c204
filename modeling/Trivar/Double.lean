/-!
Doubles: the numbers of the IEEE 754 format binary64, with one value for all
NaNs. A finite double is a sign and a code, its place in the row of the doubles
of that sign, counted from zero; the codes are the lower 63 bits of the format.
Every finite magnitude is a whole multiple of the smallest positive one, the
unit `2 ^ -1074`, and `unitsOfCode` counts these units. Arithmetic is exact on
units and then rounded.
-/

namespace Trivar

/-- The first code that is not that of a finite magnitude. -/
def Double.infinityCode : Nat := 0x7FF0000000000000

inductive Double
  | nan
  | infinite (negative : Bool)
  | finite (negative : Bool) (code : Fin Double.infinityCode)
  deriving DecidableEq

namespace Double

def zero (negative : Bool) : Double := .finite negative ⟨0, by decide⟩

/-- The number of units in the double with this code. From `2 ^ 53` on the spacing of the
doubles doubles with every `2 ^ 52` codes. The formula also covers `infinityCode`, where it gives
the first magnitude past the finite ones. -/
def unitsOfCode (code : Nat) : Nat :=
  if code < Nat.pow 2 52 then code
  else (Nat.pow 2 52 + code % Nat.pow 2 52) * Nat.pow 2 (code / Nat.pow 2 52 - 1)

/-- The number of units in one. -/
def unitsPerOne : Nat := Nat.pow 2 1074

/-- The finite double with a code below `infinityCode`, and infinity for all others. -/
def ofCode (negative : Bool) (code : Nat) : Double :=
  if h : code < infinityCode then .finite negative ⟨code, h⟩ else .infinite negative

/-- `n` with the given sign. -/
def signed (negative : Bool) (n : Nat) : Int := if negative then -(n : Int) else n

def ofBits (bits : UInt64) : Double :=
  let code := bits.toNat % Nat.pow 2 63
  if code ≤ infinityCode then ofCode (Nat.pow 2 63 ≤ bits.toNat) code else .nan

def toBits : Double → UInt64
  | .nan => 0x7FF8000000000000
  | .infinite negative => signBit negative ||| infinityCode.toUInt64
  | .finite negative code => signBit negative ||| code.val.toUInt64
where
  signBit (negative : Bool) : UInt64 := if negative then 0x8000000000000000 else 0

end Double

end Trivar
