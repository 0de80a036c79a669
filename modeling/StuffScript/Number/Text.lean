import StuffScript.Number.Shortest

/-!
# The text of a number

A number is written with the fewest digits that read back as it. The digits stand in positional
notation from `0.000001` up to, but not including, `10 ^ 21`, and in exponent notation outside.
Zero has no sign, and a whole number no point.
-/

namespace StuffScript.Number

/-- So many zeros. -/
def zeros (n : Nat) : List Char := List.replicate n '0'

/-- A decimal in positional notation. -/
def positional (d : Decimal) : List Char :=
  let digits := (Nat.repr d.digits).toList
  if 0 ≤ d.exponent then digits ++ zeros d.exponent.toNat
  else
    let places := (-d.exponent).toNat
    if digits.length ≤ places then '0' :: '.' :: zeros (places - digits.length) ++ digits
    else digits.take (digits.length - places) ++ '.' :: digits.drop (digits.length - places)

/-- A decimal in exponent notation: one digit before the point, and the exponent with its sign. -/
def scientific (d : Decimal) : List Char :=
  let digits := (Nat.repr d.digits).toList
  let exponent := d.exponent + digits.length - 1
  let fraction := digits.drop 1
  digits.take 1 ++ (if fraction.isEmpty then [] else '.' :: fraction) ++
    'e' :: (if exponent < 0 then '-' else '+') :: (Nat.repr exponent.natAbs).toList

/-- A positive decimal in the notation for its size. -/
def notated (d : Decimal) : List Char :=
  let leading := d.exponent + (Nat.repr d.digits).length - 1
  if leading < -6 || 21 ≤ leading then scientific d else positional d

/-- The text of a number. -/
def text (x : Float) : String :=
  match binary? x with
  | none => if x.isNaN then "NaN" else if x < 0 then "-Infinity" else "Infinity"
  | some b =>
    if b.mantissa = 0 then "0"
    else
      let body := notated (shortest b.mantissa b.exponent)
      String.ofList (if b.negative then '-' :: body else body)

end StuffScript.Number
