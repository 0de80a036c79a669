import StuffScript.Number.Power
import StuffScript.Number.Product
import StuffScript.Session

/-!
# Host functions

A call of a host function is a finite conversation with the evaluator: the function writes text, has
closures called or carries out another host function, and in the end it returns. It learns of the
session only through the answers it gets. The functions of a host share a memory that they can read and
change in the course of a conversation, so a function may do something else when it is called again, and
may pass on a value that it was given in an earlier call.
-/

namespace StuffScript

/-- What a host function does when it is called. -/
inductive HostProgram where
  | done (result : Outcome Value)
  | write (text : String) (next : Option String → HostProgram)
  | invoke (f : Closure) (args : List Value) (next : Outcome Value → HostProgram)
  | nested (inner : HostProgram) (next : Outcome Value → HostProgram)
  | recollect (next : List Value → HostProgram)
  | remember (values : List Value) (next : HostProgram)

instance : Inhabited HostProgram := ⟨.done (.ok .undefined)⟩

/-- What the routines of a host do, given the routine, the function's own name and the arguments. -/
abbrev Host := (behaviour name : String) → List Value → HostProgram

/-- The host without routines of its own: all of them return nothing. -/
def Host.none : Host := fun _ _ _ => .done (.ok .undefined)

/-- The argument of a function at an index, which has to be a number. -/
def numberArgument (function : String) (args : List Value) (index : Nat) : Except Fault Float :=
  match args[index]? with
  | none => .error (.missingArgument function index)
  | some (.number n) => .ok n
  | some v => .error (.badArgument function index v)

/-- Return a number, or fail with a fault. -/
def HostProgram.ofNumber (result : Except Fault Float) : HostProgram :=
  match result with
  | .ok n => .done (.ok (.number n))
  | .error f => .done (.error (.runtime f.error))

/-- Write the first argument on a line of its own. -/
def printProgram (args : List Value) : HostProgram :=
  .write ((args.head?.getD .undefined).text ++ "\n") fun
    | none => .done (.ok .undefined)
    | some reason => .done (.error (.plain ("print: " ++ reason)))

/-- Raise the first argument to the power of the second. -/
def expProgram (args : List Value) : HostProgram := .ofNumber do
  let base ← numberArgument "exp" args 0
  let exponent ← numberArgument "exp" args 1
  return Number.power base exponent

/-- Multiply the whole numbers up to the first argument. -/
def factProgram (args : List Value) : HostProgram := .ofNumber do
  let bound ← numberArgument "fact" args 0
  return Number.factorial bound

/-- What a host function does with its arguments. -/
def Native.program (host : Host) (f : Native) (args : List Value) : HostProgram :=
  match f.routine with
  | .print => printProgram args
  | .exp => expProgram args
  | .fact => factProgram args
  | .host behaviour => host behaviour f.name args

end StuffScript
