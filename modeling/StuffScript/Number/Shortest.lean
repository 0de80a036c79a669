import StuffScript.Number.Binary

/-!
# The shortest decimal of a double

The decimal with the fewest digits that rounds to a given double, and of those with that many digits
the one nearest to it. A double stands for the interval of reals that round to it; its ends belong to
it exactly when the mantissa is even, since a real halfway between two doubles goes to the even one.
On the grid of decimals with a given number of digits only the two neighbours of the double have to
be looked at.
-/

namespace StuffScript.Number

/-- The decimal `digits * 10 ^ exponent`. -/
structure Decimal where
  digits : Nat
  exponent : Int
deriving DecidableEq, Repr

/-- A positive double with the interval that rounds to it, all in units of `2 ^ unit`. -/
structure Interval where
  low : Nat
  value : Nat
  high : Nat
  unit : Int
  closed : Bool
deriving Repr

/-- The interval of `mantissa * 2 ^ exponent`. Below a power of two the doubles are twice as dense. -/
def Interval.of (mantissa : Nat) (exponent : Int) : Interval where
  low :=
    if mantissa = Nat.pow 2 52 && exponent ≠ leastExponent then 4 * mantissa - 1
    else 4 * mantissa - 2
  value := 4 * mantissa
  high := 4 * mantissa + 2
  unit := exponent - 2
  closed := mantissa % 2 = 0

/-- Whether a positive double is at least `10 ^ exponent`. -/
def Interval.reaches (i : Interval) (exponent : Int) : Bool :=
  Nat.pow 2 (-i.unit).toNat * Nat.pow 10 exponent.toNat ≤
    i.value * Nat.pow 2 i.unit.toNat * Nat.pow 10 (-exponent).toNat

/-- The exponent of the leading decimal digit of a positive double. It is estimated from the binary
exponent, which is off by at most one. -/
def Interval.leading (i : Interval) : Int :=
  let estimate := Int.fdiv ((i.value.log2 + i.unit) * 30103) 100000
  if !i.reaches estimate then estimate - 1
  else if i.reaches (estimate + 1) then estimate + 1
  else estimate

/-- The neighbour of the double on the grid of multiples of `10 ^ exponent`, if one rounds to it; of
two the nearer, and of two equally near the even one. -/
def Interval.onGrid? (i : Interval) (exponent : Int) : Option Decimal :=
  let scale := Nat.pow 2 i.unit.toNat * Nat.pow 10 (-exponent).toNat
  let step := Nat.pow 2 (-i.unit).toNat * Nat.pow 10 exponent.toNat
  let below := i.value * scale / step
  let above := below + 1
  let within (n : Nat) : Bool :=
    if i.closed then i.low * scale ≤ n * step && n * step ≤ i.high * scale
    else i.low * scale < n * step && n * step < i.high * scale
  let gapBelow := i.value * scale - below * step
  let gapAbove := above * step - i.value * scale
  if within below && (!within above || gapBelow < gapAbove ||
      (gapBelow = gapAbove && below % 2 = 0)) then some ⟨below, exponent⟩
  else if within above then some ⟨above, exponent⟩
  else none

/-- Try the grids from the given exponent downwards, at most so many of them. -/
def Interval.search (i : Interval) : (grids : Nat) → (exponent : Int) → Decimal
  | 0, exponent => (i.onGrid? exponent).getD ⟨0, 0⟩
  | grids + 1, exponent =>
    match i.onGrid? exponent with
    | some d => d
    | none => i.search grids (exponent - 1)

/-- Drop trailing zeros, at most so many. -/
def Decimal.trim : (zeros : Nat) → Decimal → Decimal
  | 0, d => d
  | zeros + 1, d =>
    if d.digits % 10 = 0 && d.digits ≠ 0 then Decimal.trim zeros ⟨d.digits / 10, d.exponent + 1⟩
    else d

/-- The shortest decimal of `mantissa * 2 ^ exponent`, where the mantissa is positive. Seventeen
digits tell any two doubles apart. -/
def shortest (mantissa : Nat) (exponent : Int) : Decimal :=
  let i := Interval.of mantissa exponent
  (i.search 17 i.leading).trim 20

end StuffScript.Number
