import StuffScript.Token

/-!
# Diagnostics

What is wrong with a source text, and where. A complaint says what is wrong; a diagnostic carries its
wording and a position.
-/

namespace StuffScript

/-- Whether the characters or the tokens of a source are at fault. -/
inductive DiagnosticKind where
  | lexical
  | syntactic
deriving DecidableEq, Repr

namespace DiagnosticKind

/-- The name that a kind goes by. -/
def name : DiagnosticKind → String
  | lexical => "LexicalError"
  | syntactic => "SyntaxError"

/-- The kind of a number: one is syntactic, every other number lexical. -/
def ofCode (code : Int) : DiagnosticKind := if code = 1 then syntactic else lexical

end DiagnosticKind

/-- A message about a place in a source text. -/
structure Diagnostic where
  kind : DiagnosticKind
  message : String
  position : Position
deriving DecidableEq, Repr

/-- The message with its place. -/
def Diagnostic.text (d : Diagnostic) : String := d.message ++ " (" ++ d.position.text ++ ")"

/-- What can be wrong with a source text. -/
inductive Complaint where
  | badCharacter (c : Char)
  | badNumber (lexeme : String)
  | wantPunctuation (sign : String)
  | wantKeyword (word : String)
  | wantParameter
  | unexpectedEnd
  | unexpectedToken (kind : TokenKind) (lexeme : String)
deriving DecidableEq, Repr

namespace Complaint

/-- Only a bad character is a fault of the characters. -/
def kind : Complaint → DiagnosticKind
  | badCharacter _ => .lexical
  | _ => .syntactic

/-- The wording of a complaint. -/
def message : Complaint → String
  | badCharacter c => "Can't handle character: " ++ String.singleton c
  | badNumber lexeme => "Invalid number " ++ Text.quote lexeme
  | wantPunctuation sign => "Expecting punctuation: " ++ Text.quote sign
  | wantKeyword word => "Expecting keyword: " ++ Text.quote word
  | wantParameter => "Expecting argument name"
  | unexpectedEnd => "Unexpected end of input"
  | unexpectedToken kind lexeme => "Unexpected token: " ++ kind.name ++ " " ++ Text.quote lexeme

/-- A complaint about a place. -/
def located (c : Complaint) (p : Position) : Diagnostic := ⟨c.kind, c.message, p⟩

end Complaint

end StuffScript
