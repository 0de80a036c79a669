import StuffScript.Yaml.Token.Scalar
import StuffScript.Yaml.Token.Tag

/-!
# Reading tokens

Blocks are found by columns: a sign further right than the block around it opens a block, one further
left closes blocks. A scalar on one line may turn out to be a key when a colon follows, so that the
tokens that announce a key are put in front of it later.

Tokens are read as they are needed. Two tokens after the one that is looked at are read ahead, and more
of them as long as it is awaited whether that one is a key. A token that was taken already cannot have
anything put in front of it any more; what would have been put there goes to the end.
-/

namespace StuffScript.Yaml

/-- The latest place in a context where a key may have started, and the number of its token. It may no
longer be possible that it is a key. A required one has to be a key, since it stands where only a key
may. -/
structure KeyStart where
  possible : Bool
  required : Bool
  number : Nat
  mark : Mark

/-- Whether a colon at a place can still belong to a key. -/
def KeyStart.reaches (k : KeyStart) (m : Mark) : Bool :=
  k.mark.line = m.line && m.index ≤ k.mark.index + 1024

/-- The tokens read ahead, the number of tokens taken, and what their surroundings ask for. There is one
entry of keys for the block context and one for each open bracket, innermost first. A token that is
awaited has its number listed with the level of the entry that decides. -/
structure Scan where
  reader : Reader
  queue : List Token := []
  taken : Nat := 0
  indent : Int := -1
  outer : List Int := []
  keyAllowed : Bool := true
  keys : List KeyStart := [⟨false, false, 0, {}⟩]
  awaited : List (Nat × Nat) := []

namespace Scan

/-- The greatest number of blocks or brackets inside each other. -/
def deepest : Nat := 10000

/-- Whether a bracket is open. -/
def inFlow (s : Scan) : Bool := 1 < s.keys.length

/-- The number that the next token gets. -/
def number (s : Scan) : Nat := s.taken + s.queue.length

/-- Add a token that starts here. -/
def push (s : Scan) (l : Lexeme) : Scan :=
  { s with queue := s.queue ++ [⟨l, s.reader.mark.line + 1⟩] }

/-- Put a token in front of the one with a number, or at the end if that one was taken. -/
def insertAt (s : Scan) (number line : Nat) (l : Lexeme) : Scan :=
  let before := if number < s.taken then s.queue.length else number - s.taken
  { s with queue := s.queue.take before ++ ⟨l, line + 1⟩ :: s.queue.drop before }

/-- Pass characters. -/
def skip (s : Scan) (n : Nat) : Scan := { s with reader := s.reader.skip n }

/-- No longer await the token with a number. -/
def forget (s : Scan) (number : Nat) : Scan :=
  { s with awaited := s.awaited.filter fun a => a.1 ≠ number }

/-- Give up the possible key of the innermost context; a required one cannot be given up. -/
def dropKey (s : Scan) : Option Scan :=
  match s.keys with
  | k :: rest =>
    if !k.possible then some s
    else if k.required then none
    else some ({ s with keys := { k with possible := false } :: rest }.forget k.number)
  | [] => some s

/-- Note that a key may start here, and await what comes of it. -/
def saveKey (s : Scan) : Option Scan :=
  if s.keyAllowed then do
    let s ← s.dropKey
    let k : KeyStart :=
      { possible := true, required := !s.inFlow && s.indent = s.reader.mark.column,
        number := s.number, mark := s.reader.mark }
    let s := s.forget k.number
    return { s with keys := k :: s.keys.tail, awaited := (k.number, s.keys.length - 1) :: s.awaited }
  else some s

/-- Open a block at a column if it is further right, by a token before the one with a number. -/
def openBlock (s : Scan) (column number line : Nat) (l : Lexeme) : Option Scan :=
  if !s.inFlow && s.indent < column then
    let s := { s.insertAt number line l with indent := column, outer := s.indent :: s.outer }
    if deepest < s.outer.length then none else some s
  else some s

/-- Close the blocks that are further right than a column, innermost first. -/
def closeOver (column : Int) : List Int → Scan → Scan
  | [], s => s
  | next :: rest, s =>
    if column < s.indent then closeOver column rest { s.push .blockEnd with indent := next, outer := rest }
    else s

/-- Close the blocks that are further right than a column. Brackets keep all of them open. -/
def closeBlocks (s : Scan) (column : Int) : Scan :=
  if s.inFlow then s else closeOver column s.outer s

/-- Pass blanks, comments and breaks. Tabs do not count as blanks where a key may start. -/
def skipGap : Nat → Scan → Scan
  | 0, s => s
  | fuel + 1, s =>
    let r := s.reader
    let r := if r.mark.index = 0 && r.isAt '\ufeff' then r.skip 1 else r
    let r := r.skipWhile fun c => c = ' ' || (c = '\t' && (s.inFlow || !s.keyAllowed))
    let r := if r.isAt '#' then r.skipComments (r.rest.length + 1) else r
    if r.rest.isEmpty || !r.atLineEnd then { s with reader := r }
    else skipGap fuel { s with reader := r.skipBreak, keyAllowed := s.keyAllowed || !s.inFlow }

/-- The end of the text, which ends its line too. -/
def finish (s : Scan) : Option Scan := do
  let m := s.reader.mark
  let m := if m.column = 0 then m else { m with line := m.line + 1, column := 0 }
  let s ← ({ s with reader := { s.reader with mark := m } }.closeBlocks (-1)).dropKey
  return { s with keyAllowed := false }.push .finish

/-- A directive. -/
def directive (s : Scan) : Option Scan := do
  let s ← (s.closeBlocks (-1)).dropKey
  let (l, r) ← readDirective s.reader
  return { s.push l with reader := r, keyAllowed := false }

/-- The mark of a document's start or end. -/
def documentMark (s : Scan) (l : Lexeme) : Option Scan := do
  let s ← (s.closeBlocks (-1)).dropKey
  return { s.push l with keyAllowed := false }.skip 3

/-- An opening bracket. Until a key may start inside it, the entry of its context bears its number. -/
def openFlow (s : Scan) (l : Lexeme) : Option Scan := do
  let s ← s.saveKey
  if deepest < s.keys.length then none
  else
    let k : KeyStart := ⟨false, false, s.number, s.reader.mark⟩
    return { s.push l with keys := k :: s.keys, keyAllowed := true }.skip 1

/-- A closing bracket. The token that the entry of its context names is no longer awaited: if no key may
have started inside, that is the opening bracket. -/
def closeFlow (s : Scan) (l : Lexeme) : Option Scan := do
  let s ← s.dropKey
  let s := match s.keys with
    | k :: outer :: rest => { s with keys := outer :: rest }.forget k.number
    | _ => s
  return { s.push l with keyAllowed := false }.skip 1

/-- A comma between items. -/
def comma (s : Scan) : Option Scan := do
  let s ← s.dropKey
  return { s.push .comma with keyAllowed := true }.skip 1

/-- A sign that starts an item or a key of a block, and opens the block if it is the first. -/
def blockSign (s : Scan) (opening sign : Lexeme) (keyAfter : Bool) : Option Scan := do
  if !s.inFlow && !s.keyAllowed then none else
  let s ← s.openBlock s.reader.mark.column s.number s.reader.mark.line opening
  let s ← s.dropKey
  return { s.push sign with keyAllowed := keyAfter }.skip 1

/-- The entry of the innermost context with its key no longer possible. -/
def closeKey (s : Scan) : Scan :=
  match s.keys with
  | k :: rest => { s with keys := { k with possible := false } :: rest }
  | [] => s

/-- A colon after something that reads as a key. -/
def colonAfter (s : Scan) (k : KeyStart) : Option Scan := do
  let s ← (s.insertAt k.number k.mark.line .key).openBlock k.mark.column k.number k.mark.line .blockMapping
  let s := s.closeKey.forget k.number
  return { s.push .value with keyAllowed := false }.skip 1

/-- A colon. -/
def colon (s : Scan) : Option Scan :=
  match s.keys with
  | k :: _ =>
    if k.possible && k.reaches s.reader.mark then s.colonAfter k
    else if k.possible && k.required then none
    else s.closeKey.blockSign .blockMapping .value (!s.inFlow)
  | [] => none

/-- A token that may be or start a key: what it is, and the reader after it. -/
def keyToken (s : Scan) (l : Lexeme) (r : Reader) (keyAfter : Bool) : Option Scan := do
  let s ← s.saveKey
  return { s.push l with reader := r, keyAllowed := keyAfter }

/-- A block scalar. -/
def blockScalar (s : Scan) (folded : Bool) : Option Scan := do
  let s ← s.dropKey
  let (text, r) ← readBlock folded s.indent (s.reader.skip 1)
  return { s.push (.scalar text false) with reader := r, keyAllowed := true }

/-- A quoted scalar. -/
def quoted (s : Scan) (double : Bool) : Option Scan := do
  let r := s.reader.skip 1
  let (text, r) ← readQuoted double (r.rest.length + 1) [] r
  s.keyToken (.scalar text false) r false

/-- A plain scalar. A key may follow it if it ended with a line. -/
def plain (s : Scan) : Option Scan := do
  let (text, broken, r) ←
    readPlain s.inFlow (s.indent + 1) (s.reader.rest.length + 1) [] {} s.reader
  s.keyToken (.scalar text true) r broken

/-- Whether a plain scalar may start here. -/
def plainStarts (s : Scan) (c : Char) : Bool :=
  !(s.reader.blankAt 0 || isIndicator c || c ∈ ['-', '?', ':']) ||
  (c = '-' && !s.reader.blankAt 1) || (!s.inFlow && (c = '?' || c = ':') && !s.reader.blankAt 1)

/-- A token that starts with a given character. -/
def token (s : Scan) (c : Char) : Option Scan :=
  let r := s.reader
  if c = '[' then s.openFlow .openSequence
  else if c = '{' then s.openFlow .openMapping
  else if c = ']' then s.closeFlow .closeSequence
  else if c = '}' then s.closeFlow .closeMapping
  else if c = ',' then s.comma
  else if c = '-' && r.blankAt 1 then s.blockSign .blockSequence .dash true
  else if c = '?' && (s.inFlow || r.blankAt 1) then s.blockSign .blockMapping .key (!s.inFlow)
  else if c = ':' && (s.inFlow || r.blankAt 1) then s.colon
  else if c = '*' then (readName (r.skip 1)).bind fun (name, r) => s.keyToken (.reference name) r false
  else if c = '&' then (readName (r.skip 1)).bind fun (name, r) => s.keyToken (.anchor name) r false
  else if c = '!' then (readTag r).bind fun (l, r) => s.keyToken l r false
  else if (c = '|' || c = '>') && !s.inFlow then s.blockScalar (c = '>')
  else if c = '\'' || c = '"' then s.quoted (c = '"')
  else if s.plainStarts c then s.plain
  else none

/-- Pass a comment after a token on its line. A dash leaves it to what follows. -/
def skipTrailing (s : Scan) : Scan :=
  if s.reader.afterBreak || (s.queue.getLast?.map Token.lexeme) = some .dash then s
  else { s with reader := s.reader.skipLineComment }

/-- Read one more token, with the ends of blocks before it. -/
def next (s : Scan) : Option Scan :=
  let s := skipGap (s.reader.rest.length + 1) s
  match s.reader.rest with
  | [] => s.finish
  | c :: _ =>
    let s := s.closeBlocks s.reader.mark.column
    if s.reader.mark.column = 0 && c = '%' then s.directive
    else if s.reader.atMark '-' then s.documentMark .documentStart
    else if s.reader.atMark '.' then s.documentMark .documentEnd
    else (s.token c).map skipTrailing

/-- Whether the first token of the queue is awaited. A key that a colon cannot reach any more is given
up, unless it is required. -/
def awaitsFirst (s : Scan) : Option (Bool × Scan) :=
  match s.awaited.lookup s.taken with
  | none => some (false, s)
  | some level =>
    let entry := s.keys.length - 1 - level
    match s.keys[entry]? with
    | none => some (false, s)
    | some k =>
      if !k.possible then some (false, s)
      else if k.reaches s.reader.mark then some (true, s)
      else if k.required then none
      else some (false, { s with keys := s.keys.set entry { k with possible := false } })

/-- Read ahead until the first token of the queue can be looked at. -/
def ready : Nat → Scan → Option Scan
  | 0, _ => none
  | fuel + 1, s =>
    if s.queue.length < 3 then s.next.bind (ready fuel)
    else do
      let (waiting, s) ← s.awaitsFirst
      if waiting then s.next.bind (ready fuel) else some s

/-- The first token that is not taken yet. -/
def first (s : Scan) : Option (Token × Scan) := do
  let s ← ready (s.reader.rest.length + 4) s
  return (← s.queue.head?, s)

/-- Take the first token. -/
def take (s : Scan) : Scan := { s with queue := s.queue.tail, taken := s.taken + 1 }

end Scan

end StuffScript.Yaml
