import Hanport.Lib.Strtol

/-!
# IEEE 754 binary32

A datum is its 32 bits. The magnitude of a finite datum is a natural number of
units of `2^-149`, the least subnormal, so rounding and multiplication are
arithmetic on naturals: a quotient of units is rounded to a 24-bit significand,
to nearest with ties to even, and the magnitude bits of the result are its
exponent and its significand added up, carry and overflow included.
-/

namespace Lib

structure Binary32 where
  bits : BitVec 32
  deriving DecidableEq, Repr

namespace Binary32

/-- The sign bit is set. -/
def neg (x : Binary32) : Bool := x.bits.msb

/-- The 31 bits below the sign. -/
def magnitude (x : Binary32) : ℕ := x.bits.toNat % 2 ^ 31

def exponent (x : Binary32) : ℕ := x.magnitude / 2 ^ 23

def fraction (x : Binary32) : ℕ := x.magnitude % 2 ^ 23

/-- The magnitude bits of infinity. -/
def infMagnitude : ℕ := 255 * 2 ^ 23

def isFinite (x : Binary32) : Bool := x.magnitude < infMagnitude

def isInf (x : Binary32) : Bool := x.magnitude = infMagnitude

def isNaN (x : Binary32) : Bool := infMagnitude < x.magnitude

/-- The absolute value of a finite datum in units of `2^-149`. -/
def units (x : Binary32) : ℕ :=
  if x.exponent = 0 then x.fraction else (2 ^ 23 + x.fraction) * 2 ^ (x.exponent - 1)

/-- The datum with a sign and magnitude bits. -/
def ofMagnitude (neg : Bool) (m : ℕ) : Binary32 :=
  ⟨BitVec.ofNat 32 (if neg then 2 ^ 31 + m else m)⟩

def nan : Binary32 := ofMagnitude false (infMagnitude + 2 ^ 22)

instance : Zero Binary32 := ⟨ofMagnitude false 0⟩

/-- `n / d` to the nearest integer, ties to even. -/
def divRoundEven (n d : ℕ) : ℕ :=
  if 2 * (n % d) < d ∨ (2 * (n % d) = d ∧ n / d % 2 = 0) then n / d else n / d + 1

/-- The magnitude bits of `n / d` units rounded to nearest. The significand
has 24 bits, so a value of `2^(s+23)` units and more is rounded to a multiple of
`2^s` units; from the largest exponent on it is infinite. -/
def roundUnits (n d : ℕ) : ℕ :=
  min infMagnitude ((Nat.log2 (n / d) - 23) * 2 ^ 23 +
    divRoundEven n (d * 2 ^ (Nat.log2 (n / d) - 23)))

/-- The datum nearest to `n / d` units. -/
def ofUnits (neg : Bool) (n d : ℕ) : Binary32 := ofMagnitude neg (roundUnits n d)

/-- The conversion of an integer. -/
def ofInt (n : ℤ) : Binary32 := ofUnits (n < 0) (n.natAbs * 2 ^ 149) 1

/-- The product, rounded once. -/
def mul (x y : Binary32) : Binary32 :=
  if x.isNaN || y.isNaN then nan
  else if x.isInf || y.isInf then
    if x.magnitude = 0 ∨ y.magnitude = 0 then nan
    else ofMagnitude (x.neg != y.neg) infMagnitude
  else ofUnits (x.neg != y.neg) (x.units * y.units) (2 ^ 149)

instance : Mul Binary32 := ⟨mul⟩

/-- The integer part of a finite datum. -/
def trunc? (x : Binary32) : Option ℤ :=
  if x.isFinite then
    some (if x.neg then -((x.units / 2 ^ 149 : ℕ) : ℤ) else ((x.units / 2 ^ 149 : ℕ) : ℤ))
  else none

/-- The conversion to a 32-bit `int`. Where the integer part is out of range
the conversion is undefined, and `wild` stands for what the machine does. -/
def toInt32 (wild : Binary32 → BitVec 32) (x : Binary32) : BitVec 32 :=
  match x.trunc? with
  | some n => if Strtol.InInt n then BitVec.ofInt 32 n else wild x
  | none => wild x

/-- Fixed notation with two decimals, as `std::fixed` with a precision of 2
prints it. -/
def fixed2 (x : Binary32) : String :=
  let hundredths := divRoundEven (x.units * 100) (2 ^ 149)
  let text :=
    if x.isNaN then "nan"
    else if x.isInf then "inf"
    else toString (hundredths / 100) ++ "." ++ toString (hundredths % 100 / 10) ++
      toString (hundredths % 10)
  if x.neg then "-" ++ text else text

example : (ofMagnitude false 0x3fc00000 * ofInt 1000).toInt32 (fun _ => 0) = 1500#32 := rfl

end Binary32

end Lib
