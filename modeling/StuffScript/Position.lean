/-!
# Positions in a source text

Lines count from one. A position says how far a reader has come: its column is the number of
characters read on its line, so the next character stands one column further.
-/

namespace StuffScript

/-- A line and a column. -/
structure Position where
  line : Int
  col : Int
deriving DecidableEq, Repr

namespace Position

/-- The position before anything is read. -/
def start : Position := ⟨1, 0⟩

/-- The position after one more character. -/
def after (p : Position) (c : Char) : Position :=
  if c = '\n' then ⟨p.line + 1, 0⟩ else ⟨p.line, p.col + 1⟩

/-- The position after some more text. -/
def afterAll (p : Position) (cs : List Char) : Position := cs.foldl after p

/-- The position that the next character has. -/
def next (p : Position) : Position := ⟨p.line, p.col + 1⟩

/-- The line and the column, with a colon between. -/
def text (p : Position) : String := toString p.line ++ ":" ++ toString p.col

/-- No text takes the place no further. -/
@[simp] theorem afterAll_nil (p : Position) : p.afterAll [] = p := rfl

/-- Text takes the place further one character after another. -/
@[simp] theorem afterAll_cons (p : Position) (c : Char) (cs : List Char) :
    p.afterAll (c :: cs) = (p.after c).afterAll cs := rfl

/-- One text after another takes the place further from where the first ends. -/
theorem afterAll_append (p : Position) (cs ds : List Char) :
    p.afterAll (cs ++ ds) = (p.afterAll cs).afterAll ds := List.foldl_append

end Position

end StuffScript
