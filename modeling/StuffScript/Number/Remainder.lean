import StuffScript.Number.Binary

/-!
# The exact remainder

The remainder of a division whose quotient is cut towards zero. It is always a double, so nothing is
rounded; it has the sign of the dividend.
-/

namespace StuffScript.Number

/-- The magnitude of the remainder of two finite doubles, in units of the smaller of the two. -/
def remainderParts (a b : Binary) : Nat × Int :=
  let unit := min a.exponent b.exponent
  let scaled (x : Binary) : Nat := x.mantissa * Nat.pow 2 (x.exponent - unit).toNat
  (scaled a % scaled b, unit)

/-- The remainder of `x` by `y`. There is none of an infinite dividend or by zero; an infinite
divisor leaves the dividend. -/
def remainder (x y : Float) : Float :=
  match binary? x, binary? y with
  | some a, some b =>
    if b.mantissa = 0 then 0.0 / 0.0
    else
      let (m, e) := remainderParts a b
      let r := ofParts m e
      if a.negative then -r else r
  | some _, none => if y.isNaN then y else x
  | none, _ => 0.0 / 0.0

end StuffScript.Number
