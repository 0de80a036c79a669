import StuffScript.Text.Quoted
import StuffScript.Transcript

/-!
# Traces

A trace line names an event and lists its attributes as `name=value`. Values are quoted where they
would be hard to tell apart otherwise.
-/

namespace StuffScript.Trace

/-- The characters that force quotes: blanks, equals signs, quotes, what is not printable, and the
replacement character. A backslash and the delete character do not. -/
def needsQuotes (c : Char) : Bool :=
  if c.toNat < 0x80 then c.toNat ≤ 0x20 || c = '=' || c = '"'
  else c = Char.ofNat 0xfffd || !Text.isPrintable c

/-- A value as it stands in a trace line. -/
def value (s : String) : String := if s.isEmpty || s.toList.any needsQuotes then Text.quote s else s

/-- A trace line. -/
def line (event : String) (attributes : List (String × String)) : String :=
  " ".intercalate
    ((("level", "DEBUG") :: ("msg", event) :: attributes).map fun a => a.1 ++ "=" ++ value a.2)

/-- Say a trace line, if traces are wanted. -/
def say (wanted : Bool) (event : String) (attributes : List (String × String)) : Transcript :=
  if wanted then [⟨.trace, line event attributes ++ "\n"⟩] else []

end StuffScript.Trace
