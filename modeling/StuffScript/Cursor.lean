import StuffScript.Diagnostic

/-!
# Cursors

A cursor is a source text with a place in it: what is still to be read, and the position reached.
-/

namespace StuffScript

/-- The unread text and the position before it. -/
structure Cursor where
  rest : List Char
  position : Position := .start
deriving DecidableEq, Repr

namespace Cursor

/-- The cursor at the start of a text. -/
def ofString (source : String) : Cursor := { rest := source.toList }

/-- Whether all is read. -/
def atEnd (c : Cursor) : Bool := c.rest.isEmpty

/-- The next character, if there is one. -/
def peek? (c : Cursor) : Option Char := c.rest.head?

/-- The cursor past the next character; at the end it stays. -/
def advance (c : Cursor) : Cursor :=
  match c.rest with
  | [] => c
  | ch :: rest => ⟨rest, c.position.after ch⟩

/-- A diagnostic about the place reached. -/
def fail (c : Cursor) (kind : DiagnosticKind) (message : String) : Diagnostic :=
  ⟨kind, message, c.position⟩

end Cursor

end StuffScript
