import StuffScript.Yaml.Timestamp

/-!
# The meaning of plain scalars

A scalar without quotes and tag means null, a truth value, a whole number, a float or a timestamp if
it has the form of one, and is a string otherwise. Underscores in whole numbers and floats are
skipped.
-/

namespace StuffScript.Yaml

open StuffScript.Number (isDigit ofDigits Decimal)

/-- What a scalar means. A timestamp is not looked into. -/
inductive Meaning where
  | null
  | bool (b : Bool)
  | int (n : Int)
  | float (x : Float)
  | timestamp
  | string

/-- The value of a digit in a base of at most sixteen. -/
def digitValue? (base : Nat) (c : Char) : Option Nat :=
  let v :=
    if '0' ≤ c && c ≤ '9' then c.toNat - 48
    else if 'a' ≤ c && c ≤ 'f' then c.toNat - 87
    else if 'A' ≤ c && c ≤ 'F' then c.toNat - 55
    else 16
  if v < base then some v else none

/-- The number that digits of a base denote; none when some character is no digit of it. -/
def ofBase? (base : Nat) (cs : List Char) : Option Nat :=
  cs.foldl (fun n c => n.bind fun n => (digitValue? base c).map fun v => base * n + v) (some 0)

/-- The sign of a numeral, and the text after it. -/
def splitSign : List Char → Bool × List Char
  | '-' :: rest => (true, rest)
  | '+' :: rest => (false, rest)
  | cs => (false, cs)

/-- A magnitude whose base is told by its prefix: `0b`, `0o` and `0x` in either case, and octal after
any other leading zero. -/
def magnitude? : List Char → Option Nat
  | '0' :: b :: c :: rest =>
    if b = 'b' || b = 'B' then ofBase? 2 (c :: rest)
    else if b = 'o' || b = 'O' then ofBase? 8 (c :: rest)
    else if b = 'x' || b = 'X' then ofBase? 16 (c :: rest)
    else ofBase? 8 (b :: c :: rest)
  | '0' :: rest => ofBase? 8 rest
  | [] => none
  | cs => ofBase? 10 cs

/-- Whether a number fits in 64 bits with a sign. -/
def fitsSigned (n : Int) : Bool := Int64.minValue.toInt ≤ n && n ≤ Int64.maxValue.toInt

/-- A whole number of 64 bits; only one without a sign may use all of them. -/
def wholeOf (signed : Bool) (negative : Bool) (magnitude : Nat) : Option Int :=
  let n : Int := if negative then -magnitude else magnitude
  if fitsSigned n || (!signed && n < UInt64.size) then some n else none

/-- A whole number with a base of its own. -/
def whole? (cs : List Char) : Option Int :=
  let (negative, body) := splitSign cs
  (magnitude? body).bind (wholeOf (body.length ≠ cs.length) negative)

/-- A whole number of a given base. -/
def wholeOfBase? (base : Nat) (cs : List Char) : Option Int :=
  let (negative, body) := splitSign cs
  if body.isEmpty then none
  else (ofBase? base body).bind (wholeOf (body.length ≠ cs.length) negative)

/-- A binary or octal number whose sign stands after its prefix. -/
def prefixedWhole? : List Char → Option Int
  | '0' :: 'b' :: rest => wholeOfBase? 2 rest
  | '-' :: '0' :: 'b' :: rest => wholeOfBase? 2 ('-' :: rest)
  | '0' :: 'o' :: rest => wholeOfBase? 8 rest
  | '-' :: '0' :: 'o' :: rest => wholeOfBase? 8 ('-' :: rest)
  | _ => none

/-- An exponent at the end of a numeral. One without digits is no exponent. -/
def exponent? : List Char → Option Int
  | [] => some 0
  | c :: rest =>
    if c = 'e' || c = 'E' then
      let (negative, digits) := splitSign rest
      if !digits.isEmpty && digits.all isDigit then
        some (if negative then -ofDigits digits else ofDigits digits)
      else none
    else none

/-- A decimal without sign: digits, a point and an exponent. A point may stand first only if digits
follow it. -/
def unsignedDecimal? (cs : List Char) : Option Decimal := do
  let whole := cs.takeWhile isDigit
  let (fraction, rest) := match cs.dropWhile isDigit with
    | '.' :: rest => (rest.takeWhile isDigit, rest.dropWhile isDigit)
    | rest => ([], rest)
  if whole.isEmpty && fraction.isEmpty then none else
  let exponent ← exponent? rest
  let d := Decimal.ofPlaces whole fraction
  some ⟨d.digits, d.exponent + exponent⟩

/-- A decimal with a sign as a double; none when it is too large for one. -/
def decimal? (cs : List Char) : Option Float := do
  let (negative, body) := splitSign cs
  let x ← (← unsignedDecimal? body).toFloat?
  return if negative then -x else x

/-- Whether every underscore stands between two digits. -/
def underscoresBetweenDigits : (previous : Char) → List Char → Bool
  | previous, [] => previous ≠ '_'
  | previous, c :: rest =>
    (if c = '_' then isDigit previous else previous ≠ '_' || isDigit c) &&
      underscoresBetweenDigits c rest

/-- The text without underscores. -/
def dropUnderscores (cs : List Char) : List Char := cs.filter (· ≠ '_')

/-- The words with a meaning of their own. -/
def wordMeaning? (s : String) : Option Meaning :=
  if s ∈ ["", "~", "null", "Null", "NULL"] then some .null
  else if s ∈ ["true", "True", "TRUE"] then some (.bool true)
  else if s ∈ ["false", "False", "FALSE"] then some (.bool false)
  else if s ∈ [".nan", ".NaN", ".NAN"] then some (.float (0.0 / 0.0))
  else if s ∈ [".inf", ".Inf", ".INF", "+.inf", "+.Inf", "+.INF"] then some (.float (1.0 / 0.0))
  else if s ∈ ["-.inf", "-.Inf", "-.INF"] then some (.float (-1.0 / 0.0))
  else none

/-- What a numeral means, after the forms of a timestamp. -/
def numeralMeaning (cs : List Char) : Meaning :=
  let digits := dropUnderscores cs
  match whole? digits with
  | some n => .int n
  | none =>
    match decimal? digits with
    | some x => .float x
    | none =>
      match prefixedWhole? digits with
      | some n => .int n
      | none => .string

/-- What a scalar means that has no quotes. A timestamp is looked for only if that is wanted. -/
def meaning (wantTimestamp : Bool) (s : String) : Meaning :=
  match wordMeaning? s with
  | some m => m
  | none =>
    match s.toList with
    | [] => .string
    | c :: rest =>
      if c = '.' then
        if underscoresBetweenDigits '.' rest then
          match decimal? (dropUnderscores (c :: rest)) with
          | some x => .float x
          | none => .string
        else .string
      else if isDigit c || c = '+' || c = '-' then
        if wantTimestamp && isTimestamp s then .timestamp else numeralMeaning (c :: rest)
      else .string

/-- The tag of a meaning. -/
def Meaning.tag : Meaning → String
  | .null => "!!null"
  | .bool _ => "!!bool"
  | .int _ => "!!int"
  | .float _ => "!!float"
  | .timestamp => "!!timestamp"
  | .string => "!!str"

end StuffScript.Yaml
