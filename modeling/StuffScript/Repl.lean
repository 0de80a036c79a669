import StuffScript.Files
import StuffScript.Repl.Brackets
import StuffScript.Run
import StuffScript.Text.Blank

/-!
# Interactive use

Lines are gathered until no bracket is open and then run as one chunk; all chunks share one session. A
line that starts with a colon is a command, but only while nothing is gathered. In paste mode lines
are gathered up to a line that ends it, whatever their brackets.
-/

namespace StuffScript

/-- The state of interactive use: the lines gathered, and those pasted, each with its line end. -/
structure Repl where
  settings : Settings
  session : Session
  buffer : String := ""
  depth : Int := 0
  chunk : Nat := 0
  pasting : Bool := false
  pasted : String := ""
  quit : Bool := false

namespace Repl

/-- The state to start from. -/
def new (settings : Settings) : Repl := { settings := settings, session := settings.session }

/-- The prompt for the next line. -/
def prompt (r : Repl) : String :=
  if r.pasting then "paste> " else if 0 < r.depth then "...   " else r.settings.prompt

/-- Give up what is being gathered or pasted. -/
def interrupt (r : Repl) : Transcript × Repl :=
  if r.pasting then
    (Transcript.sayLine "^C (paste cancelled)", { r with pasting := false, pasted := "" })
  else if !r.buffer.isEmpty || 0 < r.depth then
    (Transcript.sayLine "^C (buffer cleared)", { r with buffer := "", depth := 0 })
  else ([], r)

/-- The name under which a chunk is run. -/
def chunkName (n : Nat) : String := "<repl:" ++ toString n ++ ">"

/-- Run a chunk and show its value. -/
def runChunk (r : Repl) (text : String) : Transcript × Repl :=
  let chunk := r.chunk + 1
  let (said, result, session) :=
    r.session.runSource r.settings.trace ⟨chunkName chunk, text.toUTF8⟩
  let shown := match result with
    | .error e => Transcript.complain e.text
    | .ok .undefined => []
    | .ok v => Transcript.sayLine ("=> " ++ v.text)
  (said ++ shown, { r with chunk := chunk, session := session })

/-- A line in paste mode. -/
def feedPaste (r : Repl) (line : String) : Transcript × Repl :=
  let trimmed := Text.trimBlanks line
  if trimmed = "." || trimmed = ":endpaste" then
    let after := { r with pasting := false, pasted := "" }
    if Text.allBlank r.pasted then (Transcript.sayLine "(paste buffer empty)", after)
    else after.runChunk r.pasted
  else if trimmed = ":cancel" then
    (Transcript.sayLine "(paste cancelled)", { r with pasting := false, pasted := "" })
  else ([], { r with pasted := r.pasted ++ line ++ "\n" })

/-- A line of code. It is run with the lines gathered before it unless a bracket is open. -/
def feedCode (r : Repl) (line : String) : Transcript × Repl :=
  let text := r.buffer ++ line ++ "\n"
  let depth := openAfter r.depth line
  if 0 < depth then ([], { r with buffer := text, depth := depth })
  else
    let after := { r with buffer := "", depth := depth }
    if Text.allBlank text then ([], after) else after.runChunk text

/-- The commands. -/
inductive Command where
  | quit
  | help
  | load (path : String)
  | reset
  | clear
  | paste
  | vars
  | funcs
  | unknown
deriving DecidableEq, Repr

/-- The command that a line without blanks around it gives. -/
def Command.ofText (text : String) : Command :=
  if text ∈ [":q", ":quit", ":exit"] then quit
  else if text ∈ [":h", ":help"] then help
  else if text.startsWith ":load" then load (Text.trimBlanks (text.drop 5).toString)
  else if text = ":reset" then reset
  else if text = ":clear" then clear
  else if text = ":paste" then paste
  else if text = ":vars" then vars
  else if text = ":funcs" then funcs
  else unknown

/-- The text of the help. -/
def helpLines : List String :=
  ["Commands:",
    "  :help              Show this help",
    "  :quit              Exit the REPL",
    "  :load <file>       Run a file (fresh interpreter, like the CLI)",
    "  :reset             Clear buffered multi-line input",
    "  :clear             Clear the screen",
    "  :paste             Start paste mode (end with '.' or :endpaste)",
    "  :vars              Show global bindings",
    "  :funcs             Show global functions"]

/-- Run a file, given what reading it gave. -/
def loadFile (settings : Settings) (path : String) : FileResult → Transcript
  | .error e => Transcript.complain ("Failed to read " ++ path ++ ": " ++ e.text path)
  | .ok bytes =>
    match (Source.mk path bytes).runFile settings with
    | (said, .ok _) => said
    | (said, .error e) => said ++ Transcript.complain e.text

/-- Carry out a command that reads no file. -/
def perform (r : Repl) : Command → Transcript × Repl
  | .quit => ([], { r with quit := true })
  | .help => (helpLines.flatMap Transcript.sayLine, r)
  | .load _ => (Transcript.complain "Usage: :load <file>", r)
  | .reset => (Transcript.sayLine "(buffer cleared)", { r with buffer := "", depth := 0 })
  | .clear => (Transcript.say "\x1b[2J\x1b[H", r)
  | .paste =>
    (Transcript.sayLine "(paste mode: end with '.' or :endpaste, cancel with :cancel)",
      { r with buffer := "", depth := 0, pasted := "", pasting := true })
  | .vars =>
    (r.session.globals.flatMap fun g => Transcript.sayLine (g.1 ++ " = " ++ g.2.value.text), r)
  | .funcs => (r.session.functionNames.flatMap Transcript.sayLine, r)
  | .unknown => (Transcript.sayLine "Unknown command. Try :help", r)

/-- The command that a line gives now, if it gives one. -/
def commandOf? (r : Repl) (line : String) : Option Command :=
  let trimmed := Text.trimBlanks line
  if !r.pasting && r.depth = 0 && r.buffer.isEmpty && trimmed.startsWith ":" then
    some (Command.ofText trimmed)
  else none

/-- A line, where files are read by an action. -/
def feed {m : Type → Type} [Monad m] (read : String → m FileResult) (r : Repl) (line : String) :
    m (Transcript × Repl) := do
  match r.commandOf? line with
  | some (.load path) =>
    if path.isEmpty then return r.perform (.load path)
    else return (loadFile r.settings path (← read path), r)
  | some c => return r.perform c
  | none => return if r.pasting then r.feedPaste line else r.feedCode line

/-- What is said at the start. -/
def greeting : Transcript :=
  Transcript.sayLine "rscc REPL. :help for commands, :quit to exit." ++
  Transcript.sayLine "Input continues while [ or ( are left open." ++ Transcript.sayLine ""

/-- What is said when the input ends. -/
def farewell : Transcript := Transcript.sayLine ""

/-- Feed lines until one of them quits or the input ends. -/
def converse {m : Type → Type} [Monad m] (read : String → m FileResult) :
    List String → Repl → m Transcript
  | [], _ => return farewell
  | line :: rest, r => do
    let (said, r) ← r.feed read line
    if r.quit then return said else return said ++ (← converse read rest r)

/-- The lines of an input. A last line need not be ended. -/
def inputLines (text : String) : List String :=
  let lines := String.ofList (text.toList.map fun c => if c = '\r' then '\n' else c) |>.splitOn "\n"
  if lines.getLast? = some "" then lines.dropLast else lines

end Repl

end StuffScript
