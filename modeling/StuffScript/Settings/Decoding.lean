import StuffScript.Settings
import StuffScript.Text.Base64
import StuffScript.Text.Quoted
import StuffScript.Yaml.Document

/-!
# Settings from a document

Settings are read from a mapping over the defaults. Values that do not fit and keys that are not known
are collected, in the order in which they are met, and all of them are reported. A scalar whose tag
contradicts its text makes the whole document unusable.
-/

namespace StuffScript.Settings

open StuffScript.Yaml (Tree Meaning)

/-- The settings that a document can hold. -/
inductive Field where
  | maxDepth
  | banner
  | trace
  | prompt
  | historyFile
deriving DecidableEq, Repr

namespace Field

/-- The field with a name. -/
def ofName? (name : String) : Option Field :=
  [("max_depth", maxDepth), ("banner", banner), ("trace", trace), ("prompt", prompt),
    ("history_file", historyFile)].lookup name

/-- The kind of value that a field holds, by name. -/
def kindName : Field → String
  | maxDepth => "int"
  | banner | trace => "bool"
  | prompt | historyFile => "string"

end Field

/-- The name of settings as a kind of value. -/
def kindName : String := "config.Config"

/-- What a scalar with a tag holds. A text beside the meaning is what a string field takes. -/
structure Content where
  meaning : Meaning
  text : String

/-- The content of a scalar. Tags of other than the plain kinds leave the text as it is. -/
def content? (tag text : String) : Option Content :=
  if tag = "!!binary" then
    (Text.decodeBase64? text).map fun bytes => ⟨.string, Text.decodeLenient bytes⟩
  else if tag ∈ ["!!null", "!!bool", "!!int", "!!float", "!!timestamp"] then
    let m := Yaml.meaning (tag = "!!timestamp") text
    if m.tag = tag then some ⟨m, text⟩
    else
      match m with
      | .int n =>
        if tag = "!!float" && Yaml.fitsSigned n then some ⟨.float (Float.ofInt n), text⟩ else none
      | _ => none
  else some ⟨.string, text⟩

/-- A float as a whole number, cut towards zero; what lies below the range of 64 bits, or just above it,
becomes the least number. -/
def wholeOfFloat? (x : Float) : Option Int :=
  if x < 9223372036854775808.0 && -9223372036854775808.0 ≤ x then some x.toInt64.toInt
  else if x ≤ 9223372036854775808.0 then some Int64.minValue.toInt
  else none

/-- A meaning as a whole number of 64 bits. -/
def whole? : Meaning → Option Int
  | .int n => if Yaml.fitsSigned n then some n else none
  | .float x => wholeOfFloat? x
  | _ => none

/-- A content as a truth value, for which some words stand too. -/
def truth? (c : Content) : Option Bool :=
  match c.meaning with
  | .bool b => some b
  | .string =>
    if c.text ∈ ["y", "Y", "yes", "Yes", "YES", "on", "On", "ON"] then some true
    else if c.text ∈ ["n", "N", "no", "No", "NO", "off", "Off", "OFF"] then some false
    else none
  | _ => none

/-- Put a content into a field; none if it does not fit. -/
def set? (s : Settings) (c : Content) : Field → Option Settings
  | .maxDepth => (whole? c.meaning).map fun n => { s with maxDepth := n }
  | .banner => (truth? c).map fun b => { s with banner := b }
  | .trace => (truth? c).map fun b => { s with trace := b }
  | .prompt => some { s with prompt := c.text }
  | .historyFile => some { s with historyFile := c.text }

/-- A line of a report. -/
def problemLine (line : Nat) (message : String) : String := "line " ++ toString line ++ ": " ++ message

/-- The start of a value, if it is longer than ten bytes. -/
def excerpt (text : String) : String :=
  if 10 < text.utf8ByteSize then Text.decodeLenient (text.toUTF8.extract 0 7) ++ "..." else text

/-- The report of a value that does not fit. -/
def unfitLine (line : Nat) (tag text kind : String) : String :=
  let value := if tag = "!!seq" || tag = "!!map" then text else " `" ++ excerpt text ++ "`"
  problemLine line ("cannot unmarshal " ++ tag ++ value ++ " into " ++ kind)

/-- The reports of keys that stand twice in a mapping. -/
def repeatedKeys : List (Tree × Tree) → List String
  | [] => []
  | (k, _) :: rest =>
    (rest.filter fun e => k.sameKey e.1).map (fun e =>
      problemLine e.1.line
        ("mapping key " ++ Text.quote e.1.keyText ++ " already defined at line " ++ toString k.line)) ++
    repeatedKeys rest

/-- The settings so far, and the reports, latest first. -/
structure Progress where
  settings : Settings := {}
  reports : List String := []

/-- A part of reading settings, which fails if the document cannot be used. -/
abbrev Decode := StateT Progress Option

/-- Add a report. -/
def report (line : String) : Decode Unit := modify fun p => { p with reports := line :: p.reports }

/-- Report a node that holds other nodes in place of a single value. -/
def reportUnfit (kind : String) : Tree → Decode Unit
  | .scalar line tag text => report (unfitLine line tag text kind)
  | .sequence line tag _ | .enclosing line tag _ => report (unfitLine line tag "" kind)
  | .mapping line tag entries =>
    match repeatedKeys entries with
    | [] => report (unfitLine line tag "" kind)
    | lines => lines.forM report
  | .reference .. => pure ()

/-- Put a node into a field. A null leaves the field as it is. -/
def decodeField (f : Field) (t : Tree) : Decode Unit := do
  match t.target with
  | .scalar line tag text =>
    match content? tag text with
    | none => failure
    | some c =>
      match c.meaning with
      | .null => pure ()
      | _ =>
        match set? (← get).settings c f with
        | some s => modify fun p => { p with settings := s }
        | none => report (unfitLine line tag text f.kindName)
  | other => reportUnfit f.kindName other

/-- The name that a key gives; a null gives none. -/
def decodeKey (t : Tree) : Decode (Option String) := do
  match t.target with
  | .scalar _ tag text =>
    match content? tag text with
    | none => failure
    | some c =>
      match c.meaning with
      | .null => return none
      | _ => return some c.text
  | other =>
    reportUnfit "string" other
    return none

/-- The name of a key that is a string. -/
def stringKey? (t : Tree) : Option String :=
  match t.target with
  | .scalar _ tag text =>
    (content? tag text).bind fun c =>
      match c.meaning with
      | .string => some c.text
      | _ => none
  | _ => none

/-- The names of the keys of a mapping into which another is taken. A key that holds other nodes cannot
be looked up, so the document cannot be used, unless the key is faulty itself and is left out. -/
def ownNames : List (Tree × Tree) → Decode (List String)
  | [] => return []
  | (k, _) :: rest => do
    match k.target with
    | .scalar .. => return (stringKey? k).toList ++ (← ownNames rest)
    | .mapping _ _ entries =>
      match repeatedKeys entries with
      | [] => failure
      | lines =>
        lines.forM report
        ownNames rest
    | _ => failure

/-- Read the entries of a mapping. The names that count as read already are given where entries are
taken in from another mapping, and those read here are added to them; elsewhere a field may be set
only once. -/
def decodeEntries : (set : List Field) → (seen : Option (List String)) → List (Tree × Tree) →
    Decode (Option (List String))
  | _, seen, [] => return seen
  | set, seen, (k, v) :: rest => do
    if k.isMergeKey then decodeEntries set seen rest
    else
      match ← decodeKey k with
      | none => decodeEntries set seen rest
      | some name =>
        if (seen.getD []).contains name then decodeEntries set seen rest
        else
          let seen := seen.map (name :: ·)
          match Field.ofName? name with
          | none =>
            report (problemLine k.line ("field " ++ name ++ " not found in type " ++ kindName))
            decodeEntries set seen rest
          | some f =>
            if set.contains f then
              report (problemLine k.line ("field " ++ name ++ " already set in type " ++ kindName))
              decodeEntries set seen rest
            else
              decodeField f v
              decodeEntries (f :: set) seen rest

mutual

/-- Read settings from a node. -/
def decodeTree : Nat → (seen : Option (List String)) → Tree → Decode (Option (List String))
  | 0, _, _ => failure
  | fuel + 1, seen, t => do
    match t.target with
    | .mapping _ _ entries =>
      match repeatedKeys entries with
      | [] =>
        let seen ← decodeEntries [] seen entries
        match entries.find? fun e => e.1.isMergeKey with
        | none => return seen
        | some (_, source) =>
          match seen with
          | none =>
            let _ ← merge fuel (← ownNames entries) source
            return none
          | some names => return some (← merge fuel names source)
      | lines =>
        lines.forM report
        return seen
    | .scalar line tag text =>
      match content? tag text with
      | none => failure
      | some c =>
        match c.meaning with
        | .null => return seen
        | _ =>
          report (unfitLine line tag text kindName)
          return seen
    | other =>
      reportUnfit kindName other
      return seen

/-- Take in the entries of a mapping, or of each mapping of a sequence. -/
def merge : Nat → (seen : List String) → Tree → Decode (List String)
  | 0, _, _ => failure
  | fuel + 1, seen, t => do
    match t with
    | .sequence _ _ items => mergeAll fuel seen items
    | _ =>
      match t.target with
      | .mapping .. => return (← decodeTree fuel (some seen) t).getD seen
      | _ => failure

/-- Take in the entries of several mappings; the first that has an entry gives it. -/
def mergeAll : Nat → (seen : List String) → List Tree → Decode (List String)
  | _, seen, [] => return seen
  | 0, _, _ => failure
  | fuel + 1, seen, t :: rest => do
    match t.target with
    | .mapping .. =>
      let seen := (← decodeTree fuel (some seen) t).getD seen
      mergeAll fuel seen rest
    | _ => failure

end

/-- How many steps reading a tree takes at most. -/
def steps (t : Tree) (bytes : ByteArray) : Nat := 4 * t.height + bytes.size + 4

/-- Read settings from the bytes of a document. An empty document gives the defaults. -/
def decode (bytes : ByteArray) : Except Problem Settings :=
  match Yaml.readDocument? bytes with
  | none => .error .malformed
  | some none => check {}
  | some (some t) =>
    match (decodeTree (steps t bytes) none t).run {} with
    | none => .error .malformed
    | some (_, p) => if p.reports.isEmpty then check p.settings else .error (.unfit p.reports.reverse)

end StuffScript.Settings
