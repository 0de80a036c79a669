import StuffScript.Yaml.Plain

/-!
# Documents that were read

The tree of a document, with the line each node starts on. Every node has a tag, written or implied.
An alias holds what it stands for; only where it stands inside of that, the tree stops at a node that
tells no more than its form.
-/

namespace StuffScript.Yaml

/-- A node of a document. -/
inductive Tree where
  | scalar (line : Nat) (tag text : String)
  | sequence (line : Nat) (tag : String) (items : List Tree)
  | mapping (line : Nat) (tag : String) (entries : List (Tree × Tree))
  | reference (line : Nat) (name : String) (target : Tree)
  | enclosing (line : Nat) (tag : String) (isMapping : Bool)

namespace Tree

instance : Inhabited Tree := ⟨.scalar 0 "" ""⟩

/-- The line a node starts on. -/
def line : Tree → Nat
  | scalar n .. | sequence n .. | mapping n .. | reference n .. | enclosing n .. => n

/-- What a node stands for. -/
def target : Tree → Tree
  | reference _ _ t => t
  | t => t

mutual

/-- How many nodes lie inside each other, through aliases too. -/
def height : Tree → Nat
  | scalar .. | enclosing .. => 1
  | sequence _ _ items => itemsHeight items + 1
  | mapping _ _ entries => entriesHeight entries + 1
  | reference _ _ t => t.height + 1

/-- The greatest height of some nodes. -/
def itemsHeight : List Tree → Nat
  | [] => 0
  | t :: ts => max t.height (itemsHeight ts)

/-- The greatest height of some keys and values. -/
def entriesHeight : List (Tree × Tree) → Nat
  | [] => 0
  | (k, v) :: rest => max (max k.height v.height) (entriesHeight rest)

end

/-- A node without text. -/
def empty (line : Nat) : Tree := .scalar line Meaning.null.tag ""

/-- Whether two keys count as one: they have the same form, and the same text or the same name. -/
def sameKey : Tree → Tree → Bool
  | scalar _ _ a, scalar _ _ b => a = b
  | reference _ a _, reference _ b _ => a = b
  | sequence .., sequence .. | mapping .., mapping .. => true
  | _, _ => false

/-- The text of a key. -/
def keyText : Tree → String
  | scalar _ _ a | reference _ a _ => a
  | _ => ""

/-- Whether a key asks for the entries of its value to be taken in. -/
def isMergeKey : Tree → Bool
  | scalar _ tag text => tag = "!!merge" && text = "<<"
  | _ => false

end Tree

end StuffScript.Yaml
