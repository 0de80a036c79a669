/-!
# Base64

Bytes written by the sixty-four letters, four for three bytes, padded to full groups. Line ends
between the letters do not count.
-/

namespace StuffScript.Text

/-- The six bits of a letter. -/
def sextet? (c : Char) : Option Nat :=
  if c.isUpper then some (c.toNat - 65)
  else if c.isLower then some (c.toNat - 71)
  else if c.isDigit then some (c.toNat + 4)
  else if c = '+' then some 62
  else if c = '/' then some 63
  else none

/-- The bytes of full groups of letters; only the last group may be padded. -/
def base64Groups? : List Char → Option (List UInt8)
  | [] => some []
  | [a, b, '=', '='] => do
    return [UInt8.ofNat ((← sextet? a) * 4 + (← sextet? b) / 16)]
  | [a, b, c, '='] => do
    let n := ((← sextet? a) * 64 + (← sextet? b)) * 64 + (← sextet? c)
    return [UInt8.ofNat (n / 1024), UInt8.ofNat (n / 4)]
  | a :: b :: c :: d :: rest => do
    let n := (((← sextet? a) * 64 + (← sextet? b)) * 64 + (← sextet? c)) * 64 + (← sextet? d)
    return UInt8.ofNat (n / 65536) :: UInt8.ofNat (n / 256) :: UInt8.ofNat n :: (← base64Groups? rest)
  | _ => none

/-- The bytes that a text in base64 stands for. -/
def decodeBase64? (s : String) : Option ByteArray :=
  (base64Groups? (s.toList.filter fun c => c ≠ '\n' && c ≠ '\r')).map fun bytes => ⟨bytes.toArray⟩

end StuffScript.Text
