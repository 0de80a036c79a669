/-!
# Tokens of a document

The signs and scalars of a document. Where a block ends or begins is told by columns; the tokens say
so explicitly.
-/

namespace StuffScript.Yaml

/-- What a token is. -/
inductive Lexeme where
  | version (major minor : Nat)
  | tagHandle (handle uri : String)
  | documentStart
  | documentEnd
  | blockSequence
  | blockMapping
  | blockEnd
  | openSequence
  | closeSequence
  | openMapping
  | closeMapping
  | dash
  | comma
  | key
  | value
  | anchor (name : String)
  | reference (name : String)
  | tag (handle suffix : String)
  | scalar (text : String) (plain : Bool)
  | finish
deriving DecidableEq, Repr

/-- A token and the line it starts on, counted from one. -/
structure Token where
  lexeme : Lexeme
  line : Nat
deriving DecidableEq, Repr

end StuffScript.Yaml
