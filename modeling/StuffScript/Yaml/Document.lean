import StuffScript.Text.Utf8
import StuffScript.Yaml.Tokens
import StuffScript.Yaml.Tree

/-!
# Reading a document

The first document of a text as a tree. Nothing after it matters, save for the tokens past its end that
are read ahead. A text that is no document has no tree, whatever is wrong with it.
-/

namespace StuffScript.Yaml

/-- The tokens ahead, the nodes that have names, latest first, and the handles of tags. -/
structure Composition where
  scan : Scan
  anchors : List (String × Tree) := []
  handles : List (String × String) := []

/-- A part of reading a document, which fails if there is no document. -/
abbrev Compose := StateT Composition Option

namespace Compose

/-- The next token. -/
def peek : Compose Token := do
  match (← get).scan.first with
  | some (t, scan) =>
    modify fun c => { c with scan := scan }
    return t
  | none => failure

/-- Take the next token. -/
def take : Compose Unit := modify fun c => { c with scan := c.scan.take }

/-- Whether the next token is one of some signs. -/
def at? (signs : List Lexeme) : Compose Bool := do return signs.contains (← peek).lexeme

/-- The tag of the whole name, in the short form if it has one. -/
def shortTag (tag : String) : String :=
  let standard := "tag:yaml.org,2002:"
  if tag.startsWith standard then "!!" ++ (tag.drop standard.length).toString else tag

/-- The tag that a handle and a suffix name. A single mark names none. -/
def resolveTag (handle suffix : String) : Compose (Option String) := do
  if handle.isEmpty then return if suffix = "!" then none else some (shortTag suffix)
  match (← get).handles.lookup handle with
  | some uri => return some (shortTag (uri ++ suffix))
  | none => failure

/-- The properties in front of a node. -/
structure Properties where
  present : Bool := false
  anchor? : Option String := none
  tag? : Option String := none

/-- An anchor, if one is next. -/
def anchor (p : Properties) : Compose Properties := do
  match (← peek).lexeme with
  | .anchor name => take; return { p with present := true, anchor? := some name }
  | _ => return p

/-- A tag, if one is next. -/
def tag (p : Properties) : Compose Properties := do
  match (← peek).lexeme with
  | .tag handle suffix =>
    take
    return { p with present := true, tag? := ← resolveTag handle suffix }
  | _ => return p

/-- An anchor and a tag in either order; each may be missing. -/
def properties : Compose Properties := do
  match (← peek).lexeme with
  | .anchor _ => tag (← anchor {})
  | _ =>
    let p ← tag {}
    if p.present then anchor p else return p

/-- The tag of a scalar that has none written. -/
def impliedTag (text : String) (plain : Bool) : String :=
  if !plain then Meaning.string.tag else if text = "<<" then "!!merge" else (meaning true text).tag

/-- Give a node its name. -/
def name (p : Properties) (t : Tree) : Compose Tree := do
  match p.anchor? with
  | some a => modify fun c => { c with anchors := (a, t) :: c.anchors }
  | none => pure ()
  return t

/-- Read the inside of a node while its name stands for a node that is still open. -/
def within (p : Properties) (placeholder : Tree) (inside : Compose Tree) : Compose Tree := do
  match p.anchor? with
  | none => inside
  | some a =>
    let before := (← get).anchors.length
    modify fun c => { c with anchors := (a, placeholder) :: c.anchors }
    let t ← inside
    modify fun c => { c with anchors := c.anchors.set (c.anchors.length - 1 - before) (a, t) }
    return t

mutual

/-- Read a node. Blocks may stand only where a block is around, and a sequence without indentation
only as part of a mapping. -/
def node : Nat → (block bare : Bool) → Compose Tree
  | 0, _, _ => failure
  | fuel + 1, block, bare => do
    let first ← peek
    match first.lexeme with
    | .reference a =>
      take
      match (← get).anchors.lookup a with
      | some t => return .reference first.line a t
      | none => failure
    | _ =>
      let p ← properties
      let here ← peek
      let sequence := p.tag?.getD "!!seq"
      let mapping := p.tag?.getD "!!map"
      match here.lexeme with
      | .scalar text plain =>
        take
        name p (.scalar first.line (p.tag?.getD (impliedTag text plain)) text)
      | .openSequence =>
        take
        within p (.enclosing first.line sequence false) do
          return .sequence first.line sequence (← flowItems fuel true)
      | .openMapping =>
        take
        within p (.enclosing first.line mapping true) do
          return .mapping first.line mapping (← flowEntries fuel true)
      | l =>
        if l = .dash && bare then
          within p (.enclosing first.line sequence false) do
            return .sequence first.line sequence (← bareItems fuel)
        else if l = .blockSequence && block then
          take
          within p (.enclosing first.line sequence false) do
            return .sequence first.line sequence (← blockItems fuel)
        else if l = .blockMapping && block then
          take
          within p (.enclosing first.line mapping true) do
            return .mapping first.line mapping (← blockEntries fuel)
        else if p.present then
          name p (.scalar first.line (p.tag?.getD (impliedTag "" true)) "")
        else failure

/-- A node, or an empty one on a line if one of some signs is next. -/
def nodeOr : Nat → (block bare : Bool) → (line : Nat) → List Lexeme → Compose Tree
  | 0, _, _, _, _ => failure
  | fuel + 1, block, bare, line, ends => do
    if ← at? ends then return .empty line else node fuel block bare

/-- The items of a block sequence and its end. -/
def blockItems : Nat → Compose (List Tree)
  | 0 => failure
  | fuel + 1 => do
    let here ← peek
    match here.lexeme with
    | .dash =>
      take
      let t ← nodeOr fuel true false here.line [.dash, .blockEnd]
      return t :: (← blockItems fuel)
    | .blockEnd => take; return []
    | _ => failure

/-- The items of a sequence without indentation. -/
def bareItems : Nat → Compose (List Tree)
  | 0 => failure
  | fuel + 1 => do
    let here ← peek
    match here.lexeme with
    | .dash =>
      take
      let t ← nodeOr fuel true false here.line [.dash, .key, .value, .blockEnd]
      return t :: (← bareItems fuel)
    | _ => return []

/-- The value of an entry, empty if there is no colon. -/
def entryValue : Nat → (block : Bool) → List Lexeme → Compose Tree
  | 0, _, _ => failure
  | fuel + 1, block, ends => do
    let here ← peek
    if here.lexeme = .value then
      take
      nodeOr fuel block block here.line ends
    else return .empty here.line

/-- The entries of a block mapping and its end. -/
def blockEntries : Nat → Compose (List (Tree × Tree))
  | 0 => failure
  | fuel + 1 => do
    let here ← peek
    match here.lexeme with
    | .key =>
      take
      let k ← nodeOr fuel true true here.line [.key, .value, .blockEnd]
      let v ← entryValue fuel true [.key, .value, .blockEnd]
      return (k, v) :: (← blockEntries fuel)
    | .blockEnd => take; return []
    | _ => failure

/-- An item of a flow sequence that is a single entry. A sign that stands in place of the key is
passed over. -/
def flowPair : Nat → Compose Tree
  | 0 => failure
  | fuel + 1 => do
    let here ← peek
    take
    let missing ← at? [.value, .comma, .closeSequence]
    let k ← nodeOr fuel false false (← peek).line [.value, .comma, .closeSequence]
    if missing then take
    let v ← entryValue fuel false [.comma, .closeSequence]
    return .mapping here.line "!!map" [(k, v)]

/-- The items of a flow sequence and its end. All but the first follow a comma. -/
def flowItems : Nat → (first : Bool) → Compose (List Tree)
  | 0, _ => failure
  | fuel + 1, first => do
    if ← at? [.closeSequence] then
      take
      return []
    if !first then
      if ← at? [.comma] then take else failure
    match (← peek).lexeme with
    | .closeSequence => take; return []
    | .key =>
      let t ← flowPair fuel
      return t :: (← flowItems fuel false)
    | _ =>
      let t ← node fuel false false
      return t :: (← flowItems fuel false)

/-- The entries of a flow mapping and its end. All but the first follow a comma. -/
def flowEntries : Nat → (first : Bool) → Compose (List (Tree × Tree))
  | 0, _ => failure
  | fuel + 1, first => do
    if ← at? [.closeMapping] then
      take
      return []
    if !first then
      if ← at? [.comma] then take else failure
    match (← peek).lexeme with
    | .closeMapping => take; return []
    | .key =>
      take
      let k ← nodeOr fuel false false (← peek).line [.value, .comma, .closeMapping]
      let v ← entryValue fuel false [.comma, .closeMapping]
      return (k, v) :: (← flowEntries fuel false)
    | _ =>
      let k ← node fuel false false
      return (k, .empty k.line) :: (← flowEntries fuel false)

end

/-- The directives in front of a document: at most one version, which has to be 1.1, and handles of
tags without repetition. Whether there were any is returned. -/
def directives : Nat → (versionSeen any : Bool) → Compose Bool
  | 0, _, _ => failure
  | fuel + 1, versionSeen, any => do
    match (← peek).lexeme with
    | .version major minor =>
      if versionSeen || major ≠ 1 || minor ≠ 1 then failure
      take
      directives fuel true true
    | .tagHandle handle uri =>
      if ((← get).handles.lookup handle).isSome then failure
      modify fun c => { c with handles := (handle, uri) :: c.handles }
      take
      directives fuel versionSeen true
    | _ => return any

/-- The root of the first document, if there is one. -/
def root (fuel : Nat) : Compose (Option Tree) := do
  let directed ← directives fuel false false
  modify fun c => { c with handles := c.handles ++ [("!", "!"), ("!!", "tag:yaml.org,2002:")] }
  match (← peek).lexeme with
  | .documentStart =>
    take
    let here ← peek
    match here.lexeme with
    | .version .. | .tagHandle .. | .documentStart | .documentEnd | .finish => return some (.empty here.line)
    | _ => return some (← node fuel true false)
  | .finish => if directed then failure else return none
  | _ => if directed then failure else return some (← node fuel true false)

/-- The first document, if there is one. It ends when the token after it has been looked at. -/
def document (fuel : Nat) : Compose (Option Tree) := do
  let t ← root fuel
  let _ ← peek
  return t

end Compose

/-- The first document of a text. -/
def documentOf? (cs : List Char) : Option (Option Tree) :=
  ((Compose.document (8 * cs.length + 16)).run { scan := { reader := { rest := cs } } }).map Prod.fst

/-- The first document of some bytes. -/
def readDocument? (bytes : ByteArray) : Option (Option Tree) := do
  let cs := (← Text.decodeStrict? bytes).toList
  let cs := if cs.head? = some '\ufeff' then cs.tail else cs
  if cs.all isAllowed then documentOf? cs else none

end StuffScript.Yaml
