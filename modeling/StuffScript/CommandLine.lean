import StuffScript.Repl
import StuffScript.Settings.Loading

/-!
# The command line

A file is run, or its outline is shown, or lines are read interactively.
-/

namespace StuffScript.CommandLine

/-- What the arguments ask for. -/
inductive Request where
  | run (file : String)
  | outline (file : String)
  | interactive
deriving DecidableEq, Repr

/-- The request that the arguments make, if they make one. -/
def Request.ofArgs? : List String → Option Request
  | [] => none
  | "repl" :: rest => if rest.isEmpty then some interactive else none
  | "ast" :: rest =>
    match rest with
    | [file] => some (outline file)
    | _ => none
  | "run" :: rest =>
    match rest with
    | [file] => some (run file)
    | _ => none
  | file :: rest => if rest.isEmpty then some (run file) else none

/-- How to call the program. -/
def usage : Transcript :=
  ["Usage:", "  rscc <file>", "  rscc run <file>", "  rscc ast <file>", "  rscc repl"].flatMap
    Transcript.sayLine

/-- What a call comes to: the end with a code, or interactive use. -/
inductive Conclusion where
  | exit (code : UInt8)
  | interactive (r : Repl)

/-- End with a complaint if there is one. -/
def conclude : Transcript × Except RunError Unit → Transcript × Conclusion
  | (said, .ok _) => (said, .exit 0)
  | (said, .error e) => (said ++ Transcript.complain e.text, .exit 1)

/-- Do something with a file, given what reading it gave. -/
def withFile (file : String) (act : Source → Transcript × Except RunError Unit) :
    FileResult → Transcript × Conclusion
  | .error e =>
    (Transcript.complain ("Error reading " ++ file ++ ": " ++ e.text file), .exit 1)
  | .ok bytes => conclude (act ⟨file, bytes⟩)

/-- Answer a request. -/
def answer {m : Type → Type} [Monad m] (read : String → m FileResult) (settings : Settings) :
    Option Request → m (Transcript × Conclusion)
  | none => return (usage, .exit 1)
  | some (.run file) => return withFile file (Source.runFile settings) (← read file)
  | some (.outline file) => return withFile file (Source.outline settings) (← read file)
  | some .interactive => return (Repl.greeting, .interactive (Repl.new settings))

/-- Start the program. Settings are loaded first unless there are no arguments at all. -/
def start {m : Type → Type} [Monad m] (read : String → m FileResult) (named : String)
    (args : List String) : m (Transcript × Conclusion) := do
  if args.isEmpty then return (usage, .exit 1)
  else
    match ← Settings.load read named with
    | .error p => return (Transcript.complain p.text, .exit 1)
    | .ok settings => answer read settings (Request.ofArgs? args)

/-- The whole of a call whose input is known: what is said, and the code it ends with. -/
def run {m : Type → Type} [Monad m] (read : String → m FileResult) (named : String)
    (args : List String) (input : String) : m (Transcript × UInt8) := do
  match ← start read named args with
  | (said, .exit code) => return (said, code)
  | (said, .interactive r) => return (said ++ (← r.converse read (Repl.inputLines input)), 0)

end StuffScript.CommandLine
