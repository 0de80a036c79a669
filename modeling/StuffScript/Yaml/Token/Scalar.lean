import StuffScript.Text.Hex
import StuffScript.Yaml.Reader

/-!
# The text of scalars

Plain, quoted and block scalars. In the first two a single break reads as a space and each further
one as a line feed; a folded block keeps the breaks around lines that start with a blank.
-/

namespace StuffScript.Yaml

/-- Breaks between two parts of a folded text. -/
def foldBreaks : List Char → List Char
  | [] => []
  | c :: rest => if c = '\n' then (if rest.isEmpty then [' '] else rest) else c :: rest

/-- The space between two words of a scalar: blanks of one line, or breaks. -/
structure Gap where
  blanks : List Char := []
  breaks : List Char := []
  broken : Bool := false

/-- The text that a gap stands for. -/
def Gap.text (g : Gap) : List Char := if g.broken then foldBreaks g.breaks else g.blanks

/-- Read a gap. A tab in the indentation, left of the given column, is refused. -/
def readGap (indent : Int) : Nat → Gap → Reader → Option (Gap × Reader)
  | 0, _, _ => none
  | fuel + 1, g, r =>
    match r.rest with
    | [] => some (g, r)
    | c :: _ =>
      if isBlank c then
        if !g.broken then readGap indent fuel { g with blanks := g.blanks ++ [c] } (r.skip 1)
        else if c = '\t' && r.mark.column < indent then none
        else readGap indent fuel g (r.skip 1)
      else if isBreak c then
        readGap indent fuel { breaks := g.breaks ++ r.breakText, broken := true } r.skipBreak
      else some (g, r)

/-- The escapes of one letter. -/
def namedEscape? (c : Char) : Option Char :=
  [('0', '\x00'), ('a', '\x07'), ('b', '\x08'), ('t', '\t'), ('\t', '\t'), ('n', '\n'), ('v', '\x0b'),
    ('f', '\x0c'), ('r', '\r'), ('e', '\x1b'), (' ', ' '), ('"', '"'), ('\'', '\''), ('\\', '\\'),
    ('N', '\u0085'), ('_', '\u00a0'), ('L', '\u2028'), ('P', '\u2029')].lookup c

/-- The number of hexadecimal digits after an escape. -/
def escapeDigits? (c : Char) : Option Nat := [('x', 2), ('u', 4), ('U', 8)].lookup c

/-- The character with a code, given by a number of hexadecimal digits. -/
def charOfHex? (cs : List Char) (width : Nat) : Option Char :=
  let digits := cs.take width
  if digits.length < width then none
  else
    (digits.foldl (fun n c => n.bind fun n => (Text.hexValue? c).map fun v => 16 * n + v)
      (some 0)).bind fun n =>
        if h : n.isValidChar then some (Char.ofNatAux n h) else none

/-- An escape after its backslash: the character, and how many characters write it. -/
def escape? : List Char → Option (Char × Nat)
  | [] => none
  | c :: rest =>
    match namedEscape? c with
    | some d => some (d, 1)
    | none => (escapeDigits? c).bind fun width => (charOfHex? rest width).map fun d => (d, width + 1)

/-- Read a quoted scalar after its opening quote. What is read so far is kept backwards. -/
def readQuoted (double : Bool) : Nat → List Char → Reader → Option (String × Reader)
  | 0, _, _ => none
  | fuel + 1, done, r =>
    if r.atDocumentMark then none
    else
      match r.rest with
      | [] => none
      | c :: rest =>
        if isBlank c || isBreak c then do
          let (g, r) ← readGap (-1) (r.rest.length + 1) {} r
          readQuoted double fuel (g.text.reverse ++ done) r
        else if c = '\'' && !double then
          if rest.head? = some '\'' then readQuoted double fuel (c :: done) (r.skip 2)
          else some (String.ofList done.reverse, r.skip 1)
        else if c = '"' && double then some (String.ofList done.reverse, r.skip 1)
        else if c = '\\' && double then
          if (rest.head?.map isBreak).getD false then do
            let (g, r) ← readGap (-1) (r.rest.length + 1) { broken := true } (r.skip 1).skipBreak
            readQuoted double fuel (g.breaks.reverse ++ done) r
          else do
            let (d, n) ← escape? rest
            readQuoted double fuel (d :: done) (r.skip (n + 1))
        else readQuoted double fuel (c :: done) (r.skip 1)

/-- Whether a plain scalar ends before a character, told by the text from it on. -/
def endsPlain (inFlow : Bool) : List Char → Bool
  | [] => true
  | c :: rest =>
    isBlank c || isBreak c ||
    (c = ':' && (rest.head?.map fun d => isBlank d || isBreak d).getD true) ||
    (inFlow && c ∈ [',', '?', '[', ']', '{', '}'])

/-- The longest part of a plain scalar without a gap. -/
def plainWord (inFlow : Bool) : List Char → List Char
  | [] => []
  | c :: rest => if endsPlain inFlow (c :: rest) then [] else c :: plainWord inFlow rest

/-- Read a plain scalar. The flag tells whether it ended after a break. -/
def readPlain (inFlow : Bool) (indent : Int) : Nat → List Char → Gap → Reader →
    Option (String × Bool × Reader)
  | 0, _, _, _ => none
  | fuel + 1, done, g, r =>
    let word := if r.atDocumentMark || r.isAt '#' then [] else plainWord inFlow r.rest
    if word.isEmpty then some (String.ofList done.reverse, g.broken, r)
    else do
      let done := word.reverse ++ g.text.reverse ++ done
      let (g, r) ← readGap indent (r.rest.length + 1) {} (r.skip word.length)
      if !inFlow && r.mark.column < indent && (g.broken || !g.blanks.isEmpty) then
        some (String.ofList done.reverse, g.broken, r)
      else readPlain inFlow indent fuel done g r

/-- What happens to the breaks at the end of a block scalar. -/
inductive Chomp where
  | strip
  | clip
  | keep
deriving DecidableEq, Repr

/-- The marks of a block scalar's first line: chomping and depth, in either order. -/
def readBlockMarks (r : Reader) : Option (Chomp × Nat × Reader) :=
  let chomp (r : Reader) : Chomp × Reader :=
    if r.isAt '+' then (.keep, r.skip 1) else if r.isAt '-' then (.strip, r.skip 1) else (.clip, r)
  let depth (r : Reader) : Option (Nat × Reader) :=
    match r.rest with
    | c :: _ =>
      if c = '0' then none
      else if c.isDigit then some (c.toNat - 48, r.skip 1)
      else some (0, r)
    | [] => some (0, r)
  match chomp r with
  | (.clip, r) => do
    let (n, r) ← depth r
    let (c, r) := if n = 0 then (Chomp.clip, r) else chomp r
    return (c, n, r)
  | (c, r) => do
    let (n, r) ← depth r
    return (c, n, r)

/-- Pass empty lines of a block scalar and the indentation of the next one. A column of zero means
that it is not known yet; the greatest column seen is returned beside the breaks. -/
def readBlockBreaks (indent : Nat) : Nat → Nat → List Char → Reader →
    Option (Nat × List Char × Reader)
  | 0, _, _, _ => none
  | fuel + 1, greatest, breaks, r =>
    let spaces := (r.rest.takeWhile (· = ' ')).length
    let r := r.skip (if indent = 0 then spaces else min spaces (indent - r.mark.column))
    let greatest := max greatest r.mark.column
    if (indent = 0 || r.mark.column < indent) && r.isAt '\t' then none
    else if r.rest.isEmpty || !r.atLineEnd then some (greatest, breaks, r)
    else readBlockBreaks indent fuel greatest (breaks ++ r.breakText) r.skipBreak

/-- Read the lines of a block scalar. Kept are the text so far, backwards, the break of the last line,
whether that line started with a blank, and the breaks of the empty lines after it. -/
def readBlockLines (folded : Bool) (chomp : Chomp) (indent : Nat) : Nat → (done lineBreak : List Char) →
    (afterBlank : Bool) → (breaks : List Char) → Reader → Option (String × Reader)
  | 0, _, _, _, _, _ => none
  | fuel + 1, done, lineBreak, afterBlank, breaks, r =>
    if r.mark.column = indent && !r.rest.isEmpty then do
      let blank := (r.rest.head?.map isBlank).getD false
      let joint :=
        if folded && !afterBlank && !blank && lineBreak = ['\n'] then
          (if breaks.isEmpty then [' '] else [])
        else lineBreak
      let line := r.rest.takeWhile fun c => !isBreak c
      let r := r.skipLine
      let next := r.skipBreak
      let (_, after, next') ← readBlockBreaks indent (next.rest.length + 1) 0 [] next
      readBlockLines folded chomp indent fuel
        (line.reverse ++ breaks.reverse ++ joint.reverse ++ done) r.breakText blank after next'
    else
      let tail := match chomp with
        | .strip => []
        | .clip => lineBreak
        | .keep => lineBreak ++ breaks
      some (String.ofList (done.reverse ++ tail), r)

/-- Read a block scalar after its sign. The column is that of the block around it. -/
def readBlock (folded : Bool) (outer : Int) (r : Reader) : Option (String × Reader) := do
  let (chomp, depth, r) ← readBlockMarks r
  let r := r.skipWhile isBlank
  let r := if r.isAt '#' then r.skipLine else r
  if !r.atLineEnd then none else
  let r := r.skipBreak
  let known := if depth = 0 then 0 else depth + outer.toNat
  let (greatest, breaks, r) ← readBlockBreaks known (r.rest.length + 1) 0 [] r
  let indent := if known = 0 then max greatest (max (outer + 1).toNat 1) else known
  readBlockLines folded chomp indent (r.rest.length + 1) [] [] false breaks r

end StuffScript.Yaml
