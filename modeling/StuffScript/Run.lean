import StuffScript.Evaluation
import StuffScript.Expr.Outline
import StuffScript.Expr.Parser
import StuffScript.Settings
import StuffScript.Text.Utf8
import StuffScript.Trace

/-!
# Running source texts

A source text is parsed and then run in a session. A whole file gets a session of its own, and banners
around its output if they are wanted. Each phase can be traced.
-/

namespace StuffScript

/-- Why a source text has no result: it is no program, or running it failed. -/
inductive RunError where
  | source (d : Diagnostic)
  | failed (f : Failure)

/-- The text of the error. -/
def RunError.text : RunError → String
  | source d => d.text
  | failed f => f.text

/-- A source text. Its bytes need not be well-formed text. -/
structure Source where
  name : String
  bytes : ByteArray

namespace Source

/-- The characters of a source. -/
def text (src : Source) : String := Text.decodeLenient src.bytes

/-- The number of expressions of a program. -/
def exprCount : Expr → Nat
  | .block _ items => items.length
  | _ => 1

/-- Parse a source, tracing it if that is wanted. -/
def parse (trace : Bool) (src : Source) : Transcript × Except Diagnostic Expr :=
  let start := Trace.say trace "parse" [("file", src.name), ("bytes", toString src.bytes.size)]
  match StuffScript.parse src.text with
  | .error d => (start, .error d)
  | .ok e =>
    (start ++ Trace.say trace "parsed" [("file", src.name), ("exprs", toString (exprCount e))], .ok e)

end Source

namespace Settings

/-- A new session with the functions that every program starts with. -/
def session (s : Settings) : Session := (Session.new s.maxDepth).register

end Settings

/-- Run a source in a session: what is said, how it ends, and the session after it. -/
def Session.runSource (trace : Bool) (src : Source) (s : Session) :
    Transcript × Except RunError Value × Session :=
  match src.parse trace with
  | (said, .error d) => (said, .error (.source d), s)
  | (said, .ok program) =>
    let (ending, after) := s.run Host.none program
    let (written, after) := after.takeWritten
    match ending with
    | .error f =>
      (said ++ Transcript.say written ++
        Trace.say trace "run failed" [("file", src.name), ("err", f.text)], .error (.failed f), after)
    | .ok v =>
      (said ++ Transcript.say written ++
        Trace.say trace "run done" [("file", src.name), ("result", v.text)], .ok v, after)

/-- The line that opens a run. -/
def startBanner : String := "==============INTERPRETER STARTED==========="

/-- The line that names the file of a run. -/
def fileBanner (name : String) : String := "=========INTERPRETING: " ++ name ++ "========="

/-- The line that closes a run without errors. -/
def successBanner : String := "==============SUCCESSFUL====================="

/-- Run a whole file in a new session. -/
def Source.runFile (settings : Settings) (src : Source) : Transcript × Except RunError Unit :=
  let opening :=
    if settings.banner then Transcript.sayLine startBanner ++ Transcript.sayLine (fileBanner src.name)
    else []
  match settings.session.runSource settings.trace src with
  | (said, .error e, _) => (opening ++ said, .error e)
  | (said, .ok _, _) =>
    (opening ++ said ++ (if settings.banner then Transcript.sayLine successBanner else []), .ok ())

/-- Say the outline of a file. -/
def Source.outline (settings : Settings) (src : Source) : Transcript × Except RunError Unit :=
  match src.parse settings.trace with
  | (said, .error d) => (said, .error (.source d))
  | (said, .ok e) => (said ++ Transcript.say e.dump, .ok ())

end StuffScript
