/-!
# Open brackets

How many brackets are open after a line, so that a chunk of input can span lines. Brackets in strings
and comments do not count.
-/

namespace StuffScript.Repl

/-- Where in a line the count is: in code, in a string, or in a string after a backslash. -/
inductive LineState where
  | code
  | inString
  | escaped
deriving DecidableEq, Repr

/-- Count the brackets of a line. -/
def countBrackets : LineState → Int → List Char → Int
  | _, depth, [] => depth
  | .escaped, depth, _ :: rest => countBrackets .inString depth rest
  | .inString, depth, c :: rest =>
    if c = '\\' then countBrackets .escaped depth rest
    else if c = '"' then countBrackets .code depth rest
    else countBrackets .inString depth rest
  | .code, depth, c :: rest =>
    if c = '~' then depth
    else if c = '"' then countBrackets .inString depth rest
    else if c = '[' || c = '(' then countBrackets .code (depth + 1) rest
    else if c = ']' || c = ')' then countBrackets .code (depth - 1) rest
    else countBrackets .code depth rest

/-- How many brackets are open after a line, if some were open before it; never less than none. -/
def openAfter (depth : Int) (line : String) : Int := max (countBrackets .code depth line.toList) 0

end StuffScript.Repl
