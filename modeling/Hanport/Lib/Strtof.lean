import Hanport.Lib.Binary32

/-!
# `std::stof`

The conversion of the C++ library in the C locale as it is documented: leading
blanks are skipped, an optional sign is read, then `inf` or `nan` in any case, a
hexadecimal or a decimal numeral with an optional exponent; what follows is
ignored. `stof` is `none` where `std::stof` throws: nothing was converted, or
the value is out of the range of `float`. Two things are left to the
implementation: underflow is detected before rounding here, as the GNU library
does on aarch64 (on x86-64 it does so after rounding, which differs for a few
numerals next to the least normal datum), and what stands in the brackets of
`nan(...)` is not looked at, where that library puts it into the datum.
-/

namespace Lib.Strtof

open Ascii Strtol

def isDecDigit (b : Byte) : Bool := (decDigit? b).isSome

/-- The text begins with the word, in any case. The word is given in lower
case. -/
def startsWithWord (word s : List Byte) : Bool :=
  word.isPrefixOf (s.map fun b => if 65 ≤ b ∧ b ≤ 90 then b + 32 else b)

/-- A numeral as it was read: the digits before and behind the point, and the
rest of the text. -/
structure Mantissa where
  whole : List Byte
  fraction : List Byte
  rest : List Byte

/-- Digits with an optional point. -/
def mantissa (isDigit : Byte → Bool) (s : List Byte) : Mantissa :=
  match s.dropWhile isDigit with
  | [] => ⟨s.takeWhile isDigit, [], []⟩
  | p :: t =>
      if p = '.'.toUInt8 then ⟨s.takeWhile isDigit, t.takeWhile isDigit, t.dropWhile isDigit⟩
      else ⟨s.takeWhile isDigit, [], p :: t⟩

/-- The exponent behind a mark, if there is one with a digit. -/
def exponent (isMark : Byte → Bool) : List Byte → ℤ
  | [] => 0
  | m :: t =>
      if isMark m then
        let (neg, u) := sign t
        let e : ℤ := ofDigits 10 ((u.takeWhile isDecDigit).filterMap decDigit?)
        if neg then -e else e
      else 0

/-- The datum of `n * radix^k`, or `none` out of the range of `float`: where
it overflows, and where it is, before it is rounded, below the normal range and
inexact. -/
def scaled (neg : Bool) (n radix : ℕ) (k : ℤ) : Option Binary32 :=
  let num := n * radix ^ k.toNat * 2 ^ 149
  let den := radix ^ (-k).toNat
  let x := Binary32.ofUnits neg num den
  if x.isInf then none
  else if num / den < 2 ^ 23 ∧ num % den ≠ 0 then none
  else some x

def decimal (neg : Bool) (s : List Byte) : Option Binary32 :=
  let m := mantissa isDecDigit s
  if m.whole ++ m.fraction = [] then none
  else
    let e := exponent (fun b => b = 'e'.toUInt8 ∨ b = 'E'.toUInt8) m.rest
    scaled neg (ofDigits 10 ((m.whole ++ m.fraction).filterMap decDigit?)) 10
      (e - m.fraction.length)

def hexadecimal (neg : Bool) (s : List Byte) : Option Binary32 :=
  let m := mantissa isHexDigit s
  let e := exponent (fun b => b = 'p'.toUInt8 ∨ b = 'P'.toUInt8) m.rest
  scaled neg (ofDigits 16 ((m.whole ++ m.fraction).filterMap hexDigit?)) 2
    (e - 4 * m.fraction.length)

/-- The text begins with `0x` and a digit, before or behind the point. -/
def has0xNumeral : List Byte → Bool
  | z :: x :: s =>
      z = '0'.toUInt8 && (x = 'x'.toUInt8 || x = 'X'.toUInt8) &&
        ((mantissa isHexDigit s).whole ++ (mantissa isHexDigit s).fraction ≠ [])
  | _ => false

/-- `std::stof(str)`. Every `nan` is the same datum but for its sign. -/
def stof (str : List Byte) : Option Binary32 :=
  let (neg, s) := sign (str.dropWhile isSpace)
  if startsWithWord (ascii "inf") s then some (Binary32.ofMagnitude neg Binary32.infMagnitude)
  else if startsWithWord (ascii "nan") s then
    some (Binary32.ofMagnitude neg Binary32.nan.magnitude)
  else if has0xNumeral s then hexadecimal neg (s.drop 2)
  else decimal neg s

example : stof (ascii " 0001.500*kW") = some ⟨0x3fc00000#32⟩ := by decide +kernel

end Lib.Strtof
