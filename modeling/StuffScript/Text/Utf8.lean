/-!
# Reading bytes as text

Bytes are read as UTF-8. The shortest form is required, and surrogates and values past U+10FFFF are
no characters. A lenient reading puts U+FFFD for each byte that belongs to no character; a strict
one refuses the whole.
-/

namespace StuffScript.Text

/-- The payload of a continuation byte. -/
def continuation? (b : UInt8) : Option Nat :=
  if 0x80 ≤ b && b < 0xc0 then some (b.toNat - 0x80) else none

/-- The character that a byte string starts with, and the bytes after it. -/
def firstChar? : List UInt8 → Option (Char × List UInt8)
  | [] => none
  | b :: rest =>
    if b < 0x80 then some (Char.ofNat b.toNat, rest)
    else if 0xc2 ≤ b && b < 0xe0 then
      match rest with
      | b₁ :: rest => do
        let x₁ ← continuation? b₁
        some (Char.ofNat ((b.toNat - 0xc0) * 64 + x₁), rest)
      | _ => none
    else if 0xe0 ≤ b && b < 0xf0 then
      match rest with
      | b₁ :: b₂ :: rest => do
        let x₁ ← continuation? b₁
        let x₂ ← continuation? b₂
        let n := (b.toNat - 0xe0) * 4096 + x₁ * 64 + x₂
        if n < 0x800 || (0xd800 ≤ n && n < 0xe000) then none else some (Char.ofNat n, rest)
      | _ => none
    else if 0xf0 ≤ b && b < 0xf5 then
      match rest with
      | b₁ :: b₂ :: b₃ :: rest => do
        let x₁ ← continuation? b₁
        let x₂ ← continuation? b₂
        let x₃ ← continuation? b₃
        let n := (b.toNat - 0xf0) * 262144 + x₁ * 4096 + x₂ * 64 + x₃
        if n < 0x10000 || 0x110000 ≤ n then none else some (Char.ofNat n, rest)
      | _ => none
    else none

/-- The characters of a byte string, read one after another. A byte that starts no character is
passed to `stray`; the reading ends without a result where that gives none. The first argument
bounds the number of characters. -/
def decodeWith (stray : UInt8 → Option Char) : Nat → List UInt8 → List Char → Option (List Char)
  | _, [], read => some read.reverse
  | 0, _ :: _, read => some read.reverse
  | bound + 1, b :: rest, read =>
    match firstChar? (b :: rest) with
    | some (c, rest) => decodeWith stray bound rest (c :: read)
    | none => (stray b).bind fun c => decodeWith stray bound rest (c :: read)

/-- The lenient reading: U+FFFD stands for each byte that belongs to no character. -/
def decodeLenient (bytes : ByteArray) : String :=
  match String.fromUTF8? bytes with
  | some s => s
  | none =>
    String.ofList ((decodeWith (fun _ => some '�') bytes.size bytes.toList []).getD [])

/-- The strict reading: no result when some byte belongs to no character. -/
def decodeStrict? (bytes : ByteArray) : Option String := String.fromUTF8? bytes

end StuffScript.Text
