/-!
# The parts of a double

A finite double is an integer times a power of two. The integer has at most 53 bits, and the power
is at least `2 ^ (-1074)`.
-/

namespace StuffScript.Number

/-- The least binary exponent of a finite double. -/
def leastExponent : Int := -1074

/-- A finite double's magnitude, `mantissa * 2 ^ exponent`, with its sign. -/
structure Binary where
  negative : Bool
  mantissa : Nat
  exponent : Int
deriving DecidableEq, Repr

/-- The parts of a double; none for an infinity and for what is no number. -/
def binary? (x : Float) : Option Binary :=
  let bits := x.toBits.toNat
  let field : Nat := bits / Nat.pow 2 52 % Nat.pow 2 11
  let fraction : Nat := bits % Nat.pow 2 52
  if field = Nat.pow 2 11 - 1 then none
  else if field = 0 then some ⟨Nat.pow 2 63 ≤ bits, fraction, leastExponent⟩
  else some ⟨Nat.pow 2 63 ≤ bits, Nat.pow 2 52 + fraction, leastExponent + field - 1⟩

/-- The double `mantissa * 2 ^ exponent`, for a mantissa below `2 ^ 53`. -/
def ofParts (mantissa : Nat) (exponent : Int) : Float :=
  (Float.ofNat mantissa).scaleB exponent

end StuffScript.Number
