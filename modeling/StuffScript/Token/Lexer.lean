import StuffScript.Cursor
import StuffScript.Number.Reading

/-!
# Lexing

Tokens are separated by gaps of spaces, tabs, line ends and comments; a comment runs from `~` to the
end of its line. Each token is the longest of its class, and the class is told from its first
character. A string literal ends at the first quote that no backslash precedes, or with the source; a
backslash keeps the character after it as it is.

A lexer has one slot for a token that was looked at but not taken.
-/

namespace StuffScript

/-- The characters that separate tokens. -/
def isSpace (c : Char) : Bool := c = ' ' || c = '\t' || c = '\n' || c = '\r'

/-- The characters that an identifier may start with. -/
def isWordStart (c : Char) : Bool :=
  ('a' ≤ c && c ≤ 'z') || ('A' ≤ c && c ≤ 'Z') || c = 'λ' || c = 'Λ' || c = '_'

/-- The characters that an identifier may go on with. -/
def isWordPart (c : Char) : Bool := isWordStart c || c = '-' || Number.isDigit c

/-- The punctuation signs, each a token of its own. -/
def isPunctuationSign (c : Char) : Bool := c ∈ [',', ';', '(', ')', '[', ']']

/-- The characters that operators are made of. -/
def isOperatorSign (c : Char) : Bool :=
  c ∈ ['+', '-', '*', '/', '%', '=', '&', '|', '<', '>', '!']

/-- Split a text into the gap that it starts with and the rest. The flag tells whether a comment is
open. -/
def splitGap : (inComment : Bool) → List Char → List Char × List Char
  | _, [] => ([], [])
  | true, c :: cs => let (gap, rest) := splitGap (c ≠ '\n') cs; (c :: gap, rest)
  | false, c :: cs =>
    if isSpace c then let (gap, rest) := splitGap false cs; (c :: gap, rest)
    else if c = '~' then let (gap, rest) := splitGap true cs; (c :: gap, rest)
    else ([], c :: cs)

/-- A string literal whose opening quote is read: its source text, its content, the text after it. -/
def splitString : List Char → List Char × List Char × List Char
  | [] => ([], [], [])
  | ['\\'] => (['\\'], [], [])
  | '\\' :: c :: cs =>
    let (raw, body, rest) := splitString cs
    ('\\' :: c :: raw, c :: body, rest)
  | c :: cs =>
    if c = '"' then ([c], [], cs)
    else
      let (raw, body, rest) := splitString cs
      (c :: raw, c :: body, rest)

/-- The digits with at most one point that a text starts with, and the text after them. -/
def splitNumber (cs : List Char) : List Char × List Char :=
  let whole := cs.takeWhile Number.isDigit
  match cs.dropWhile Number.isDigit with
  | '.' :: rest => (whole ++ '.' :: rest.takeWhile Number.isDigit, rest.dropWhile Number.isDigit)
  | rest => (whole, rest)

/-- A token at the start of a text: its class, its lexeme, its source text, and the text after it. -/
structure Piece where
  kind : TokenKind
  lexeme : String
  raw : List Char
  rest : List Char
deriving DecidableEq, Repr

/-- The token that a text starts with. -/
def firstPiece? : List Char → Option Piece
  | [] => none
  | c :: cs =>
    if c = '"' then
      let (raw, body, rest) := splitString cs
      some ⟨.string, String.ofList body, c :: raw, rest⟩
    else if Number.isDigit c then
      let (raw, rest) := splitNumber (c :: cs)
      some ⟨.number, String.ofList raw, raw, rest⟩
    else if isWordStart c then
      let raw := (c :: cs).takeWhile isWordPart
      some ⟨wordKind (String.ofList raw), String.ofList raw, raw, (c :: cs).dropWhile isWordPart⟩
    else if isPunctuationSign c then some ⟨.punctuation, String.singleton c, [c], cs⟩
    else if isOperatorSign c then
      let raw := (c :: cs).takeWhile isOperatorSign
      some ⟨.operator, String.ofList raw, raw, (c :: cs).dropWhile isOperatorSign⟩
    else none

namespace Cursor

/-- The cursor past the gap ahead of it. -/
def skipGap (c : Cursor) : Cursor :=
  let (gap, rest) := splitGap false c.rest
  ⟨rest, c.position.afterAll gap⟩

/-- Read one token. At the end of the source this is a token without lexeme, again and again; before
a character that starts no token it is an error, with the cursor left before that character. -/
def readToken (c : Cursor) : Except Diagnostic Token × Cursor :=
  let c := c.skipGap
  match c.rest with
  | [] => (.ok ⟨.endOfInput, "", c.position.next⟩, c)
  | ch :: _ =>
    match firstPiece? c.rest with
    | some t => (.ok ⟨t.kind, t.lexeme, c.position.next⟩, ⟨t.rest, c.position.afterAll t.raw⟩)
    | none => (.error ((Complaint.badCharacter ch).located c.position), c)

end Cursor

/-- A cursor with a slot for one token of lookahead. -/
structure Lexer where
  cursor : Cursor
  ahead : Option Token := none
deriving Repr

namespace Lexer

/-- The lexer at the start of a text. -/
def ofString (source : String) : Lexer := { cursor := .ofString source }

/-- Take the next token. -/
def next (l : Lexer) : Except Diagnostic Token × Lexer :=
  match l.ahead with
  | some t => (.ok t, { l with ahead := none })
  | none => let (t, c) := l.cursor.readToken; (t, ⟨c, none⟩)

/-- Look at the next token. An error does not fill the slot. -/
def peek (l : Lexer) : Except Diagnostic Token × Lexer :=
  match l.ahead with
  | some t => (.ok t, l)
  | none =>
    match l.cursor.readToken with
    | (.ok t, c) => (.ok t, ⟨c, some t⟩)
    | (.error d, c) => (.error d, ⟨c, none⟩)

/-- Whether the next token is the end of the source. -/
def atEnd (l : Lexer) : Except Diagnostic Bool × Lexer :=
  let (t, l) := l.peek
  (t.map fun t => t.kind = .endOfInput, l)

end Lexer

end StuffScript
