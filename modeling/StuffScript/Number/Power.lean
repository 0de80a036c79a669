import StuffScript.Number.Binary

/-!
# Powers

A power with a whole exponent is computed by squaring, with the binary exponent kept apart from the
fraction, so that neither overflows on the way. The result is not always the nearest double.
-/

namespace StuffScript.Number

/-- A power under way: the result so far and the current square, each a fraction and an exponent. -/
structure Squaring where
  fraction : Float
  exponent : Int
  square : Float
  squareExponent : Int

/-- Take the bits of the exponent from the lowest; a square out of every range ends the work. -/
def Squaring.run : (bits : Nat) → (exponent : Nat) → Squaring → Float × Int
  | 0, _, s => (s.fraction, s.exponent)
  | bits + 1, n, s =>
    if n = 0 then (s.fraction, s.exponent)
    else if s.squareExponent < -4096 || 4096 < s.squareExponent then
      (s.fraction, s.exponent + s.squareExponent)
    else
      let s := if n % 2 = 1 then
        { s with fraction := s.fraction * s.square, exponent := s.exponent + s.squareExponent } else s
      let square := s.square * s.square
      let squareExponent := s.squareExponent * 2
      let s := if square < 0.5 then
        { s with square := square + square, squareExponent := squareExponent - 1 }
      else { s with square := square, squareExponent := squareExponent }
      s.run bits (n / 2)

/-- Whether a double is an odd whole number; past `2 ^ 53` all are even. -/
def isOddWhole (y : Float) : Bool :=
  let a := y.abs
  a < 9007199254740992.0 && a.floor == a && a.toUInt64 % 2 == 1

/-- A power of a finite base other than zero and one. -/
def finitePower (x y : Float) : Float :=
  let whole := y.abs.floor
  let part := y.abs - whole
  if part != 0.0 && x < 0.0 then 0.0 / 0.0
  else if whole ≥ 9223372036854775808.0 then
    if x == -1.0 then 1.0
    else if (x.abs < 1.0) == (y > 0.0) then 0.0
    else 1.0 / 0.0
  else
    let (whole, start) :=
      if part == 0.0 then (whole, 1.0)
      else if part > 0.5 then (whole + 1.0, Float.exp ((part - 1.0) * Float.log x))
      else (whole, Float.exp (part * Float.log x))
    let (f, e) := x.frExp
    let (fraction, exponent) := Squaring.run 64 whole.toUInt64.toNat ⟨start, 0, f, e⟩
    if y < 0.0 then (1.0 / fraction).scaleB (-exponent) else fraction.scaleB exponent

/-- A power of zero with an exponent other than zero. The sign of zero shows with an odd exponent. -/
def zeroPower (x y : Float) : Float :=
  let signed := isOddWhole y && 1.0 / x < 0.0
  if y < 0.0 then (if signed then -1.0 / 0.0 else 1.0 / 0.0)
  else (if signed then x else 0.0)

/-- `x` to the power `y`. -/
def power (x y : Float) : Float :=
  if y == 0.0 || x == 1.0 then 1.0
  else if y == 1.0 then x
  else if x.isNaN || y.isNaN then 0.0 / 0.0
  else if x == 0.0 then zeroPower x y
  else if y.isInf then
    if x == -1.0 then 1.0
    else if (x.abs < 1.0) == (y > 0.0) then 0.0
    else 1.0 / 0.0
  else if x.isInf then
    if x < 0.0 then zeroPower (1.0 / x) (-y)
    else if y < 0.0 then 0.0
    else x
  else if y == 0.5 then x.sqrt
  else if y == -0.5 then 1.0 / x.sqrt
  else finitePower x y

end StuffScript.Number
