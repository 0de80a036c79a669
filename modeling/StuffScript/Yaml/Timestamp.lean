import StuffScript.Number.Reading

/-!
# Timestamps

A plain scalar is a timestamp when it is a date, or a date with a time of day. The year has four
digits; months, days, hours, minutes and seconds have one or two. A time after `T` or `t` names its
zone, `Z` or an offset; one after blanks names none.
-/

namespace StuffScript.Yaml

open StuffScript.Number (isDigit ofDigits)

/-- One or two digits, and the text after them. -/
def oneOrTwoDigits : List Char → Option (Nat × List Char)
  | a :: b :: rest =>
    if isDigit a then
      if isDigit b then some (ofDigits [a, b], rest) else some (ofDigits [a], b :: rest)
    else none
  | [a] => if isDigit a then some (ofDigits [a], []) else none
  | [] => none

/-- A given character, and the text after it. -/
def expectChar (c : Char) : List Char → Option (List Char)
  | d :: rest => if c = d then some rest else none
  | [] => none

/-- Whether a year has a 29th of February. -/
def isLeapYear (year : Nat) : Bool := year % 4 = 0 && (year % 100 ≠ 0 || year % 400 = 0)

/-- The number of days of a month. -/
def daysInMonth (year month : Nat) : Nat :=
  if month = 2 then (if isLeapYear year then 29 else 28)
  else if month ∈ [4, 6, 9, 11] then 30
  else 31

/-- A date at the start of a text, and the text after it. Its day is checked against the month. -/
def readDate (cs : List Char) : Option (List Char) := do
  let year := cs.takeWhile isDigit
  if year.length ≠ 4 then none else
  let rest ← expectChar '-' (cs.dropWhile isDigit)
  let (month, rest) ← oneOrTwoDigits rest
  let rest ← expectChar '-' rest
  let (day, rest) ← oneOrTwoDigits rest
  if 1 ≤ month && month ≤ 12 && 1 ≤ day && day ≤ daysInMonth (ofDigits year) month then some rest
  else none

/-- A fraction of a second, if there is one, and the text after it. -/
def skipFraction : List Char → List Char
  | c :: d :: rest =>
    if (c = '.' || c = ',') && isDigit d then rest.dropWhile isDigit else c :: d :: rest
  | cs => cs

/-- A time of day at the start of a text, and the text after it. -/
def readTime (cs : List Char) : Option (List Char) := do
  let (hour, rest) ← oneOrTwoDigits cs
  let rest ← expectChar ':' rest
  let (minute, rest) ← oneOrTwoDigits rest
  let rest ← expectChar ':' rest
  let (second, rest) ← oneOrTwoDigits rest
  if hour < 24 && minute < 60 && second < 60 then some (skipFraction rest) else none

/-- Whether a text is a time zone. -/
def isZone : List Char → Bool
  | ['Z'] => true
  | [sign, h₁, h₂, ':', m₁, m₂] =>
    (sign = '+' || sign = '-') && isDigit h₁ && isDigit h₂ && isDigit m₁ && isDigit m₂ &&
      ofDigits [h₁, h₂] ≤ 24 && ofDigits [m₁, m₂] ≤ 60
  | _ => false

/-- Whether a text is a timestamp. -/
def isTimestamp (s : String) : Bool :=
  match readDate s.toList with
  | none => false
  | some [] => true
  | some (c :: rest) =>
    if c = 'T' || c = 't' then
      match readTime rest with
      | some zone => isZone zone
      | none => false
    else if c = ' ' then readTime (rest.dropWhile (· = ' ')) = some []
    else false

end StuffScript.Yaml
