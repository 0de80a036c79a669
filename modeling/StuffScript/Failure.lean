import StuffScript.Value

/-!
# Failures

Why an evaluation stopped. Faults are the causes that the language itself knows. The runtime error of
a fault carries its wording and, once it is raised inside a call, the names of the calls in progress.
A host function may also fail in a way of its own, or wrap a runtime error.
-/

namespace StuffScript

/-- The kinds of runtime errors. -/
inductive ErrorKind where
  | undefinedVariable
  | undefinedMetadata
  | type
  | divisionByZero
  | arity
  | stackExhausted
  | other
deriving DecidableEq, Repr

namespace ErrorKind

/-- The name that a kind goes by. -/
def name : ErrorKind → String
  | undefinedVariable => "UndefinedVariableError"
  | undefinedMetadata => "UndefinedMetadataError"
  | type => "TypeError"
  | divisionByZero => "DivisionByZeroError"
  | arity => "ArityError"
  | stackExhausted => "StackExhaustedError"
  | other => "RuntimeError"

/-- The kind with a number, counted from zero in the order above. -/
def ofCode (code : Int) : ErrorKind :=
  match code with
  | 0 => undefinedVariable
  | 1 => undefinedMetadata
  | 2 => type
  | 3 => divisionByZero
  | 4 => arity
  | 5 => stackExhausted
  | _ => other

end ErrorKind

/-- A runtime error with the calls that were in progress, innermost first; none are listed until it is
raised inside a call. -/
structure RuntimeError where
  kind : ErrorKind
  message : String
  stack : List String := []
deriving DecidableEq, Repr

/-- How many calls a runtime error lists at most. -/
def stackLimit : Nat := 32

namespace RuntimeError

/-- The text without the line ends that it ends with. -/
def trimLines (cs : List Char) : List Char := (cs.reverse.dropWhile (· = '\n')).reverse

/-- The error on one line, and the calls in progress on lines of their own. -/
def text (e : RuntimeError) : String :=
  let head := e.kind.name ++ ": " ++ e.message ++ "\n"
  let calls := if e.stack.isEmpty then ""
    else "Stack:\n" ++ String.join (e.stack.map fun f => "  at " ++ f ++ "()\n")
  String.ofList (trimLines (head ++ calls).toList)

end RuntimeError

/-- The causes of runtime errors. -/
inductive Fault where
  | undefinedVariable (name : String)
  | undefinedStuff (name : String)
  | badAssignment (target : Expr)
  | badStuffTarget (base : Expr)
  | badUnstuffTarget (base : Expr)
  | wantNumber (got : Value)
  | divisionByZero
  | badOperator (op : String)
  | badLoopCondition (cond : Expr)
  | badLoopParts (count : Nat)
  | notFunction (name : String) (got : Value)
  | missingArgument (function : String) (index : Nat)
  | badArgument (function : String) (index : Nat) (got : Value)
  | stackExhausted (limit : Nat)

namespace Fault

/-- The kind of error that a fault raises. -/
def kind : Fault → ErrorKind
  | undefinedVariable _ => .undefinedVariable
  | undefinedStuff _ => .undefinedMetadata
  | divisionByZero => .divisionByZero
  | badLoopParts _ => .arity
  | stackExhausted _ => .stackExhausted
  | _ => .type

/-- The wording of a fault. -/
def message : Fault → String
  | undefinedVariable name => "Undefined variable: " ++ name
  | undefinedStuff name => "Undefined stuffed variable: " ++ name
  | badAssignment target => "Failed assignment: " ++ target.render
  | badStuffTarget base =>
    "Stuff target must be a block holding one variable, got: " ++ base.render
  | badUnstuffTarget base =>
    "Unstuff target must be a block holding one variable, got: " ++ base.render
  | wantNumber got => "Number was expected. Instead got: " ++ got.text
  | divisionByZero => "Division by zero is unsupported"
  | badOperator op => "Error applying operator: " ++ op
  | badLoopCondition cond => "Loop condition must be a block, got: " ++ cond.render
  | badLoopParts count =>
    "Unexpected arguments amount in loop condition. Expected 1 or 3, got: " ++ Nat.repr count
  | notFunction name got => name ++ " is not a function (got " ++ got.kindName ++ ")"
  | missingArgument function index =>
    function ++ "() expects a number as argument " ++ Nat.repr (index + 1) ++ ", got nothing"
  | badArgument function index got =>
    function ++ "() expects a number as argument " ++ Nat.repr (index + 1) ++ ", got " ++ got.text
  | stackExhausted limit =>
    "Stack exhausted: evaluation nested deeper than " ++ Nat.repr limit ++ " levels"

/-- The runtime error of a fault, before it is raised. -/
def error (f : Fault) : RuntimeError := { kind := f.kind, message := f.message }

end Fault

/-- What an evaluation fails with. -/
inductive Failure where
  | runtime (e : RuntimeError)
  | wrapped (text : String) (cause : RuntimeError)
  | plain (text : String)
deriving DecidableEq, Repr

namespace Failure

/-- The text of a failure. -/
def text : Failure → String
  | runtime e => e.text
  | wrapped text _ => text
  | plain text => text

/-- The runtime error at the bottom of a failure. -/
def cause? : Failure → Option RuntimeError
  | runtime e => some e
  | wrapped _ e => some e
  | plain _ => none

/-- Whether a failure comes down to a runtime error of a kind. -/
def hasKind (f : Failure) (kind : ErrorKind) : Bool :=
  match f.cause? with
  | some e => e.kind = kind
  | none => false

/-- Record the calls in progress, innermost first, on a runtime error that lists none. This unwraps a
wrapped error. Outside every call there is nothing to record. -/
def recordCalls (calls : List String) (f : Failure) : Failure :=
  match f.cause? with
  | none => f
  | some e =>
    if e.stack.isEmpty && !calls.isEmpty then
      .runtime { e with stack := calls.take stackLimit }
    else f

end Failure

end StuffScript
