import StuffScript.Text.Hex
import StuffScript.Text.Utf8
import StuffScript.Yaml.Reader
import StuffScript.Yaml.Token

/-!
# Anchors, tags and directives

The tokens that start with an ampersand, an asterisk, an exclamation mark or a percent sign.
-/

namespace StuffScript.Yaml

/-- The characters of a class at the front, and the reader after them. -/
def Reader.take (p : Char → Bool) (r : Reader) : List Char × Reader :=
  (r.rest.takeWhile p, r.skipWhile p)

/-- Read the name of an anchor or alias, after its sign. -/
def readName (r : Reader) : Option (String × Reader) :=
  let (name, r) := r.take isNameChar
  let ended := r.blankAt 0 ||
    r.rest.head?.any (['?', ':', ',', ']', '}', '%', '@', '`'].contains ·)
  if name.isEmpty || !ended then none else some (String.ofList name, r)

/-- The bytes of a tag with its escapes resolved. -/
def tagBytes? : List Char → Option (List UInt8)
  | [] => some []
  | '%' :: a :: b :: rest => do
    let high ← Text.hexValue? a
    let low ← Text.hexValue? b
    return UInt8.ofNat (16 * high + low) :: (← tagBytes? rest)
  | c :: rest =>
    if c = '%' then none else (tagBytes? rest).map fun bytes => c.toNat.toUInt8 :: bytes

/-- Read the rest of a tag. It may be empty only after a start that was read before. -/
def readTagText (start : List Char) (r : Reader) : Option (String × Reader) := do
  let (body, r) := r.take isTagChar
  if start.isEmpty && body.isEmpty then none else
  let text ← Text.decodeStrict? ⟨(← tagBytes? body).toArray⟩
  return (String.ofList (start.drop 1) ++ text, r)

/-- Read a tag handle: names between exclamation marks. The second mark may be missing. -/
def readHandle (r : Reader) : Option (List Char × Reader) :=
  if !r.isAt '!' then none
  else
    let (name, after) := (r.skip 1).take isNameChar
    if after.isAt '!' then some ('!' :: name ++ ['!'], after.skip 1) else some ('!' :: name, after)

/-- Read the handle and the rest of a tag, at its exclamation mark. A tag in angle brackets has no
handle, and neither has a single mark. -/
def readTagBody (r : Reader) : Option (Lexeme × Reader) := do
  if r.rest[1]? = some '<' then
    let (suffix, r) ← readTagText [] (r.skip 2)
    if r.isAt '>' then some (.tag "" suffix, r.skip 1) else none
  else
    let (handle, r) ← readHandle r
    if 1 < handle.length && handle.getLast? = some '!' then
      let (suffix, r) ← readTagText [] r
      some (.tag (String.ofList handle) suffix, r)
    else
      let (suffix, r) ← readTagText handle r
      some (if suffix.isEmpty then .tag "" "!" else .tag "!" suffix, r)

/-- Read a tag, at its exclamation mark. A blank ends it, so nothing may follow it directly. -/
def readTag (r : Reader) : Option (Lexeme × Reader) := do
  let (lexeme, r) ← readTagBody r
  if r.blankAt 0 then some (lexeme, r) else none

/-- Read a number of one or two digits. -/
def readVersionNumber (r : Reader) : Option (Nat × Reader) :=
  let (digits, r) := r.take Char.isDigit
  if digits.isEmpty || 2 < digits.length then none
  else some (digits.foldl (fun n c => 10 * n + (c.toNat - 48)) 0, r)

/-- Read what a version directive says: two numbers with a point between them. -/
def readVersion (r : Reader) : Option (Lexeme × Reader) := do
  let (major, r) ← readVersionNumber r
  if r.isAt '.' then
    let (minor, r) ← readVersionNumber (r.skip 1)
    some (.version major minor, r)
  else none

/-- Read what a tag directive says: a handle, and after blanks what it stands for. A handle of more
than the single mark has to be closed by a second one. -/
def readTagHandle (r : Reader) : Option (Lexeme × Reader) := do
  let (handle, r) ← readHandle r
  let closed := handle.length = 1 || handle.getLast? = some '!'
  if closed && r.rest.head?.any isBlank then
    let (uri, r) ← readTagText [] (r.skipWhile isBlank)
    if r.blankAt 0 then some (.tagHandle (String.ofList handle) uri, r) else none
  else none

/-- Pass the rest of a directive's line, which may hold only blanks and a comment. The comment needs no
blank before it. -/
def skipDirectiveEnd (r : Reader) : Option Reader :=
  let r := r.skipWhile isBlank
  let r := if r.isAt '#' then r.skipWhile (!isBreak ·) else r
  if r.atLineEnd then some r.skipBreak else none

/-- Read a directive, at its percent sign, with the line it stands on. -/
def readDirective (r : Reader) : Option (Lexeme × Reader) := do
  let (name, r) := (r.skip 1).take isNameChar
  if r.blankAt 0 then
    let r := r.skipWhile isBlank
    let (lexeme, r) ←
      if name = "YAML".toList then readVersion r
      else if name = "TAG".toList then readTagHandle r
      else none
    some (lexeme, ← skipDirectiveEnd r)
  else none

end StuffScript.Yaml
