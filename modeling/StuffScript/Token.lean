import StuffScript.Position
import StuffScript.Text.Quoted

/-!
# Tokens

A token is a piece of source text with its class and the place where it starts. The lexeme of a
string literal is its content, without quotes and escaping backslashes; that of any other token is
its source text.
-/

namespace StuffScript

/-- The class of a token. The lexer gives the named ones; a host may make tokens of a class of its
own. -/
inductive TokenKind where
  | endOfInput
  | number
  | string
  | identifier
  | keyword
  | operator
  | punctuation
  | other (name : String)
deriving DecidableEq, Repr

namespace TokenKind

/-- The name that a class goes by in messages. -/
def name : TokenKind → String
  | endOfInput => "EOF"
  | number => "NUMBER"
  | string => "STRING"
  | identifier => "IDENT"
  | keyword => "KEYWORD"
  | operator => "OP"
  | punctuation => "PUNC"
  | other name => name

/-- The class that goes by a name. -/
def ofName : String → TokenKind
  | "EOF" => endOfInput
  | "NUMBER" => number
  | "STRING" => string
  | "IDENT" => identifier
  | "KEYWORD" => keyword
  | "OP" => operator
  | "PUNC" => punctuation
  | name => other name

end TokenKind

/-- The reserved words. The word `then` is reserved although no rule of the grammar uses it. -/
def keywords : List String :=
  ["if", "then", "else", "fun", "true", "false", "loop", "stuff", "unstuff"]

/-- The class of a word. -/
def wordKind (word : String) : TokenKind :=
  if word ∈ keywords then .keyword else .identifier

/-- A token with the position of its first character. -/
structure Token where
  kind : TokenKind
  lexeme : String
  position : Position
deriving DecidableEq, Repr

namespace Token

/-- The token on one line: its class, its lexeme if it has one, and where it starts. -/
def text (t : Token) : String :=
  let place := " @ " ++ t.position.text
  match t.kind with
  | .string => t.kind.name ++ "(" ++ Text.quote t.lexeme ++ ")" ++ place
  | .endOfInput => t.kind.name ++ place
  | _ => t.kind.name ++ "(" ++ t.lexeme ++ ")" ++ place

/-- Whether a token has a class and, unless it is empty, a lexeme. -/
def is (t : Token) (kind : TokenKind) (lexeme : String) : Bool :=
  t.kind = kind && (lexeme = "" || t.lexeme = lexeme)

/-- Whether a token is this punctuation sign. -/
def isPunctuation (t : Token) (sign : String) : Bool := t.is .punctuation sign

/-- Whether a token is this reserved word. -/
def isKeyword (t : Token) (word : String) : Bool := t.is .keyword word

end Token

end StuffScript
