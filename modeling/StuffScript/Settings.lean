import StuffScript.Path
import StuffScript.Session

/-!
# Settings

What a user can choose: how deep evaluation may go, whether a run is framed by banners and traced, and
the prompt and history of interactive use.
-/

namespace StuffScript

/-- The settings. -/
structure Settings where
  maxDepth : Int := defaultDepth
  banner : Bool := true
  trace : Bool := false
  prompt : String := "rscc> "
  historyFile : String := "~/.rscc_history"
deriving DecidableEq, Repr

namespace Settings

/-- What can be wrong with written settings: the text is no document, the document does not fit, or the
depth is out of range. -/
inductive Problem where
  | malformed
  | unfit (lines : List String)
  | depth (found : Int)
deriving DecidableEq, Repr

/-- The text of a problem. -/
def Problem.text : Problem → String
  | malformed => "yaml: malformed document"
  | unfit lines => "yaml: unmarshal errors:\n  " ++ "\n  ".intercalate lines
  | depth found =>
    "max_depth must be between 1 and " ++ toString greatestDepth ++ ", got " ++ toString found

/-- Settings are accepted if the depth is in range. -/
def check (s : Settings) : Except Problem Settings :=
  if 1 ≤ s.maxDepth && s.maxDepth ≤ greatestDepth then .ok s else .error (.depth s.maxDepth)

/-- Where history is kept. A path below `~` is taken below the home directory; nothing is kept if that
is not known. -/
def historyPath (s : Settings) (home : String) : String :=
  if s.historyFile.startsWith "~/" then
    if home.isEmpty then "" else Path.join home (s.historyFile.drop 2).toString
  else s.historyFile

end Settings

end StuffScript
