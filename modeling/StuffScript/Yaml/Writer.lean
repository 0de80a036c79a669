import StuffScript.Text.Hex
import StuffScript.Yaml.Char
import StuffScript.Yaml.Node
import StuffScript.Yaml.Plain

/-!
# Writing documents

Mappings and sequences are written in block style, two columns deeper per level; no line is folded. A
scalar is written plain if that reads back as it was. A string that would read as something else goes
in double quotes, one with line ends in literal style; where the plain form is not possible single
quotes are used, and double quotes where those would lose something.
-/

namespace StuffScript.Yaml

/-- The characters that are written as themselves, line ends among them. Those past U+FFFF are not. -/
def isWritable (c : Char) : Bool :=
  let n := c.toNat
  n = 0x0a || (0x20 ≤ n && n ≤ 0x7e) || (0xa0 ≤ n && n ≤ 0xfffd && n ≠ 0xfeff)

/-- Whether some two neighbours in a text are as described. -/
def anyNeighbours (p : Char → Char → Bool) : List Char → Bool
  | a :: b :: rest => p a b || anyNeighbours p (b :: rest)
  | _ => false

/-- Whether a text starts with the mark of a document's start or end. -/
def startsDocument (cs : List Char) : Bool :=
  cs.take 3 = ['-', '-', '-'] || cs.take 3 = ['.', '.', '.']

/-- Whether a sign that is special before a blank stands before one, or at the end. -/
def beforeBlank (sign : Char) (cs : List Char) : Bool :=
  anyNeighbours (fun a b => a = sign && isBlank b) cs || cs.getLast? = some sign

/-- Whether a text cannot be plain in block style because of the signs in it. -/
def hasBlockIndicator (cs : List Char) : Bool :=
  startsDocument cs ||
  (match cs with
    | [] => false
    | c :: rest => isIndicator c || ((c = '-' || c = '?') && (rest.head?.map isBlank).getD true)) ||
  beforeBlank ':' cs || anyNeighbours (fun a b => (isBlank a || isBreak a) && b = '#') cs

/-- Whether a text cannot be plain in flow style because of the signs in it. -/
def hasFlowIndicator (cs : List Char) : Bool :=
  hasBlockIndicator cs || cs.any fun c => c ∈ [',', '?', '[', ']', '{', '}', ':']

/-- Whether a text has a break or blank at one of its ends, or a break anywhere. -/
def hasLoosePart (cs : List Char) : Bool :=
  cs.head? = some ' ' || cs.getLast? = some ' ' || cs.any isBreak

/-- Whether a text holds what only an escape can write. -/
def hasSpecial (cs : List Char) : Bool := cs.any fun c => c ≠ '\t' && !isWritable c

/-- Whether a text has a space right before a break. -/
def hasSpaceBreak (cs : List Char) : Bool := anyNeighbours (fun a b => a = ' ' && isBreak b) cs

/-- Whether a text can be written plain. -/
def plainFits (inFlow : Bool) (cs : List Char) : Bool :=
  !hasLoosePart cs && !cs.contains '\t' && !hasSpecial cs &&
    !(if inFlow then cs.isEmpty || hasFlowIndicator cs else hasBlockIndicator cs)

/-- Whether a text can be written in single quotes. -/
def singleFits (cs : List Char) : Bool :=
  !hasSpaceBreak cs && !anyNeighbours (fun a b => isBreak a && b = ' ') cs &&
    !cs.contains '\t' && !hasSpecial cs

/-- Whether a text can be written in literal style. -/
def literalFits (cs : List Char) : Bool :=
  cs.getLast? ≠ some ' ' && !hasSpaceBreak cs && !hasSpecial cs

/-- The ways to write a scalar. -/
inductive Style where
  | plain
  | single
  | double
  | literal
deriving DecidableEq, Repr

/-- The way a scalar is written. -/
def styleOf (isString inFlow : Bool) (s : String) : Style :=
  let cs := s.toList
  if cs.contains '\n' then
    if !inFlow && literalFits cs then .literal else .double
  else if isString && (meaning true s).tag ≠ "!!str" then .double
  else if plainFits inFlow cs then .plain
  else if singleFits cs then .single
  else .double

/-- The text written so far, latest first, and whether its last line is still empty. -/
structure Page where
  written : List Char := []
  fresh : Bool := true

namespace Page

/-- Write on the current line. -/
def put (p : Page) (cs : List Char) : Page :=
  if cs.isEmpty then p else { written := cs.reverse ++ p.written, fresh := false }

/-- Write on the current line. -/
def puts (p : Page) (s : String) : Page := p.put s.toList

/-- Write a character that ends the line. -/
def breakLine (p : Page) (c : Char) : Page := { written := c :: p.written, fresh := true }

/-- Go to a column of a line on which nothing is written yet. -/
def indent (p : Page) (columns : Nat) : Page :=
  (if p.fresh then p else p.breakLine '\n').put (List.replicate columns ' ')

/-- Write a text whose lines start at a column. The flag tells whether a line is to be started. -/
def putLines (columns : Nat) (encode : Char → List Char) : (starting : Bool) → List Char → Page → Page
  | _, [], p => p
  | starting, c :: cs, p =>
    if isBreak c then putLines columns encode true cs (p.breakLine c)
    else putLines columns encode false cs ((if starting then p.indent columns else p).put (encode c))

end Page

/-- A character inside double quotes. When the text starts with a byte order mark every character of
it is escaped. -/
def escapeDouble (all : Bool) (c : Char) : List Char :=
  if !all && isWritable c && !isBreak c && c ≠ '"' && c ≠ '\\' then [c]
  else
    let n := c.toNat
    let named : List (Nat × Char) := [(0x00, '0'), (0x07, 'a'), (0x08, 'b'), (0x09, 't'),
      (0x0a, 'n'), (0x0b, 'v'), (0x0c, 'f'), (0x0d, 'r'), (0x1b, 'e'), (0x22, '"'), (0x5c, '\\'),
      (0x85, 'N'), (0xa0, '_'), (0x2028, 'L'), (0x2029, 'P')]
    match named.lookup n with
    | some letter => ['\\', letter]
    | none =>
      let digits (width : Nat) : List Char := (Text.hexDigits width n).map Char.toUpper
      if n ≤ 0xff then '\\' :: 'x' :: digits 2
      else if n ≤ 0xffff then '\\' :: 'u' :: digits 4
      else '\\' :: 'U' :: digits 8

/-- The marks after the bar of a literal: the depth if the text starts with a blank or break, and how
the breaks at its end are meant. -/
def literalMarks (cs : List Char) : List Char :=
  (match cs.head? with
    | some c => if c = ' ' || isBreak c then ['2'] else []
    | none => []) ++
  match cs.reverse with
  | [] => ['-']
  | [c] => if isBreak c then ['+'] else ['-']
  | c :: d :: _ => if !isBreak c then ['-'] else if isBreak d then ['+'] else []

/-- Write a scalar after what stands on the line; further lines of it start at a column. -/
def Page.scalar (p : Page) (columns : Nat) (isString inFlow : Bool) (s : String) : Page :=
  let cs := s.toList
  match styleOf isString inFlow s with
  | .plain => p.put cs
  | .single =>
    (Page.putLines columns (fun c => if c = '\'' then [c, c] else [c]) false cs (p.puts "'")).puts "'"
  | .double => p.put ('"' :: cs.flatMap (escapeDouble (cs.head? = some '\ufeff')) ++ ['"'])
  | .literal => Page.putLines columns (fun c => [c]) true cs (p.put ('|' :: literalMarks cs))

/-- Write the items of a flow sequence. -/
def Page.flowItems (columns : Nat) : List String → Page → Page
  | [], p => p
  | [s], p => p.scalar columns true true s
  | s :: rest, p => Page.flowItems columns rest ((p.scalar columns true true s).puts ", ")

mutual

/-- Write a node that is the value of a key, whose mapping stands at a column. -/
def Page.value (columns : Nat) : Node → Page → Page
  | .string s, p => (p.puts " ").scalar (columns + 2) true false s
  | .bare s, p => (if s.isEmpty then p else p.puts " ").scalar (columns + 2) false false s
  | .flow items, p => (Page.flowItems (columns + 4) items (p.puts " [")).puts "]"
  | .sequence items, p =>
    if items.isEmpty then p.puts " []" else Page.items (columns + 2) items p
  | .mapping entries, p =>
    if entries.isEmpty then p.puts " \x7b\x7d" else Page.entries (columns + 2) false entries p

/-- Write the items of a sequence, each after a dash at a column. -/
def Page.items (columns : Nat) : List Node → Page → Page
  | [], p => p
  | item :: rest, p => Page.items columns rest (Page.item columns item ((p.indent columns).puts "-"))

/-- Write an item after its dash. -/
def Page.item (columns : Nat) : Node → Page → Page
  | .string s, p => (p.puts " ").scalar (columns + 2) true false s
  | .bare s, p => (if s.isEmpty then p else p.puts " ").scalar (columns + 2) false false s
  | .flow items, p => (Page.flowItems (columns + 4) items (p.puts " [")).puts "]"
  | .sequence items, p =>
    if items.isEmpty then p.puts " []" else Page.items (columns + 2) items p
  | .mapping entries, p =>
    if entries.isEmpty then p.puts " \x7b\x7d" else Page.entries (columns + 2) true entries (p.puts " ")

/-- Write the entries of a mapping, each key at a column. The first one may go on the current line. -/
def Page.entries (columns : Nat) : (inLine : Bool) → List (String × Node) → Page → Page
  | _, [], p => p
  | inLine, (key, node) :: rest, p =>
    Page.entries columns false rest
      (Page.value columns node
        (((if inLine then p else p.indent columns).scalar columns true false key).puts ":"))

end

/-- The text of a document whose root is a mapping, ending with a line end. -/
def render (entries : List (String × Node)) : String :=
  let p := Page.entries 0 false entries {}
  String.ofList (if p.fresh then p else p.breakLine '\n').written.reverse

end StuffScript.Yaml
