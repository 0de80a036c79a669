import StuffScript.CommandLine

/-!
# The program

Reads files, the environment and the input, and says what the command line has to say.
-/

namespace StuffScript.Main

open StuffScript

/-- The way in which reading a file failed. -/
def fileError : IO.Error → FileError
  | .noFileOrDirectory .. => .missing
  | .inappropriateType _ code _ =>
    if code = 21 then .isDirectory else .notDirectory
  | .invalidArgument .. => .invalid
  | e => .other (toString e)

/-- Read a file. -/
def readFile (path : String) : IO FileResult := do
  try return .ok (← IO.FS.readBinFile path)
  catch e => return .error (fileError e)

/-- Say what is to be said; traces go with complaints. -/
def say (t : Transcript) : IO Unit :=
  t.forM fun u => do
    let stream ← match u.channel with
      | .out => IO.getStdout
      | .err | .trace => IO.getStderr
    stream.putStr u.text
    stream.flush

/-- Read lines until one of them quits or the input ends. A prompt is shown only to a person. -/
partial def converse (input : IO.FS.Stream) (r : Repl) : IO Unit := do
  if ← input.isTty then say (Transcript.say r.prompt)
  let text ← input.getLine
  if text.isEmpty then say Repl.farewell
  else
    let mut r := r
    for line in Repl.inputLines text do
      if !r.quit then
        let (said, next) ← r.feed readFile line
        say said
        r := next
    if !r.quit then converse input r

end StuffScript.Main

open StuffScript in
/-- Run the program. -/
def main (args : List String) : IO UInt32 := do
  let named := (← IO.getEnv Settings.environmentVariable).getD ""
  let (said, conclusion) ← CommandLine.start Main.readFile named args
  Main.say said
  match conclusion with
  | .exit code => return code.toUInt32
  | .interactive r =>
    Main.converse (← IO.getStdin) r
    return 0
