/-!
# Paths

Paths as text, with their parts divided by slashes. Cleaning a path is done on the text alone: empty
parts and single dots vanish, and two dots take away the part before them.
-/

namespace StuffScript.Path

/-- One more part, after the parts so far, latest first. -/
def push (rooted : Bool) (parts : List String) (part : String) : List String :=
  if part = "" || part = "." then parts
  else if part = ".." then
    match parts with
    | [] => if rooted then [] else [part]
    | last :: rest => if last = ".." then part :: parts else rest
  else part :: parts

/-- The shortest path that reads the same. -/
def clean (path : String) : String :=
  let rooted := path.startsWith "/"
  let parts := ((path.splitOn "/").foldl (push rooted) []).reverse
  let body := "/".intercalate parts
  if rooted then "/" ++ body else if body.isEmpty then "." else body

/-- One path below another, cleaned. An empty one does not count. -/
def join (base below : String) : String :=
  if base.isEmpty && below.isEmpty then ""
  else if base.isEmpty then clean below
  else if below.isEmpty then clean base
  else clean (base ++ "/" ++ below)

end StuffScript.Path
