import StuffScript.Number.Shortest

/-!
# Reading decimals

A decimal is read as the nearest double, a tie going to the even mantissa. A decimal whose nearest
double would be infinite cannot be read.
-/

namespace StuffScript.Number

/-- Whether a character is an ASCII digit. -/
def isDigit (c : Char) : Bool := '0' ≤ c && c ≤ '9'

/-- The number that a list of digits denotes. -/
def ofDigits (digits : List Char) : Nat :=
  digits.foldl (fun n c => 10 * n + (c.toNat - 48)) 0

/-- The nearest double of a decimal. A decimal far outside the range of the doubles is decided by its
leading digit alone. -/
def Decimal.toFloat? (d : Decimal) : Option Float :=
  let leading := d.exponent + (Nat.repr d.digits).length
  if d.digits = 0 || leading < -400 then some 0.0
  else if 400 < leading then none
  else
    let x := Float.ofScientific d.digits (d.exponent < 0) d.exponent.natAbs
    if x.isInf then none else some x

/-- The decimal of digits before and after a point. -/
def Decimal.ofPlaces (whole fraction : List Char) : Decimal :=
  ⟨ofDigits (whole ++ fraction), -fraction.length⟩

/-- Read digits with at most one point among them. -/
def read? (lexeme : String) : Option Float :=
  let cs := lexeme.toList
  (Decimal.ofPlaces (cs.takeWhile isDigit) ((cs.dropWhile isDigit).drop 1)).toFloat?

end StuffScript.Number
