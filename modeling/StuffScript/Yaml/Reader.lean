import StuffScript.Yaml.Char

/-!
# Places in a document

A reader is the text that is still to be read together with its place. Lines and columns count from
zero. A carriage return and a line feed after it are one break.
-/

namespace StuffScript.Yaml

/-- A place in a text. -/
structure Mark where
  index : Nat := 0
  line : Nat := 0
  column : Nat := 0
deriving DecidableEq, Repr

/-- The text ahead and its place, and whether nothing but blanks has been passed since a break. -/
structure Reader where
  rest : List Char
  mark : Mark := {}
  afterBreak : Bool := false

namespace Reader

/-- Whether a blank, a break or the end stands some characters ahead. -/
def blankAt (r : Reader) (n : Nat) : Bool := (r.rest[n]?.map fun c => isBlank c || isBreak c).getD true

/-- Whether a break or the end is next. -/
def atLineEnd (r : Reader) : Bool := (r.rest.head?.map isBreak).getD true

/-- Whether a character is next. -/
def isAt (r : Reader) (c : Char) : Bool := r.rest.head? = some c

/-- Pass characters of one line. -/
def skip (r : Reader) (n : Nat) : Reader :=
  { rest := r.rest.drop n,
    mark := { r.mark with index := r.mark.index + n, column := r.mark.column + n },
    afterBreak := r.afterBreak && (r.rest.take n).all isBlank }

/-- Pass the characters of one line that belong to a class. -/
def skipWhile (p : Char → Bool) (r : Reader) : Reader := r.skip (r.rest.takeWhile p).length

/-- Pass a break, if one is next. -/
def skipBreak (r : Reader) : Reader :=
  let onto (n : Nat) : Reader :=
    { rest := r.rest.drop n, mark := { index := r.mark.index + n, line := r.mark.line + 1, column := 0 },
      afterBreak := true }
  match r.rest with
  | '\r' :: '\n' :: _ => onto 2
  | c :: _ => if isBreak c then onto 1 else r
  | [] => r

/-- What the break ahead is read as: a line feed, save for the separators of lines and paragraphs. -/
def breakText (r : Reader) : List Char :=
  match r.rest with
  | c :: _ =>
    if c = '\u2028' || c = '\u2029' then [c] else if isBreak c then ['\n'] else []
  | [] => []

/-- Pass the rest of the line, up to its break. -/
def skipLine (r : Reader) : Reader := r.skipWhile fun c => !isBreak c

/-- Whether three given signs and a blank stand at the start of a line. -/
def atMark (r : Reader) (sign : Char) : Bool :=
  r.mark.column = 0 && r.rest.take 3 = [sign, sign, sign] && r.blankAt 3

/-- Whether the mark of a document's start or end is next. -/
def atDocumentMark (r : Reader) : Bool := r.atMark '-' || r.atMark '.'

/-- How far ahead a comment is looked for. -/
def commentReach : Nat := 512

/-- Pass blanks and a comment after them, if there is one on this line. -/
def skipLineComment (r : Reader) : Reader :=
  let blanks := r.rest.takeWhile isBlank
  if blanks.length < commentReach && r.rest[blanks.length]? = some '#' then r.skipLine else r

/-- Pass a comment and the comments on the lines after it, blank lines between them included. -/
def skipComments : Nat → Reader → Reader
  | 0, r => r
  | fuel + 1, r =>
    let r := r.skipLine
    let gap := r.rest.takeWhile fun c => isBlank c || c = '\n' || c = '\r'
    if gap.length < commentReach && r.rest[gap.length]? = some '#' then
      let breaks := gap.filter fun c => !isBlank c
      let pairs := (gap.zip gap.tail).countP fun p => p.1 = '\r' && p.2 = '\n'
      let last := (gap.reverse.takeWhile isBlank).length
      skipComments fuel
        { rest := r.rest.drop gap.length,
          mark := { index := r.mark.index + gap.length, line := r.mark.line + breaks.length - pairs,
                    column := last } }
    else r

end Reader

end StuffScript.Yaml
