import StuffScript.Files
import StuffScript.Settings.Decoding

/-!
# Settings from files

Settings are read from the file that the environment names; if it names none, from a file of the
working directory, which need not exist.
-/

namespace StuffScript.Settings

/-- The variable that names a file of settings. -/
def environmentVariable : String := "RSCC_CONFIG"

/-- The file that is read if the variable names none. -/
def defaultFile : String := ".rscc.yaml"

/-- Why settings cannot be loaded from a file. -/
inductive LoadProblem where
  | unreadable (path : String) (e : FileError)
  | unusable (path : String) (p : Problem)

/-- The text of the problem. -/
def LoadProblem.text : LoadProblem → String
  | unreadable path .isDirectory =>
    "config " ++ path ++ ": yaml: input error: " ++ FileError.isDirectory.text path
  | unreadable path e => "config: " ++ e.text path
  | unusable path p => "config " ++ path ++ ": " ++ p.text

/-- Settings from what reading a file gave. -/
def ofFile (path : String) : FileResult → Except LoadProblem Settings
  | .error e => .error (.unreadable path e)
  | .ok bytes => (decode bytes).mapError (.unusable path)

/-- Load settings. The value of the variable is given; an empty one counts as none. -/
def load {m : Type → Type} [Monad m] (read : String → m FileResult) (named : String) :
    m (Except LoadProblem Settings) := do
  if named.isEmpty then
    match ← read defaultFile with
    | .error .missing => return .ok {}
    | found => return ofFile defaultFile found
  else return ofFile named (← read named)

end StuffScript.Settings
