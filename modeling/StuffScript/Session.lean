import StuffScript.Scope

/-!
# Sessions

A session is the state that evaluation works on: all scopes, the depth of evaluation and its limit,
the calls in progress, the text printed, and what the host's own functions keep between calls. An action
changes a session and ends in a result or in a failure; what it did before a failure stays done.
-/

namespace StuffScript

/-- Where printed text goes: it is kept, or every attempt to write fails. -/
structure Console where
  written : String := ""
  fault : Option String := none

/-- The state of evaluation. Calls in progress are listed innermost first. The memory is the host's own:
the rules of evaluation neither read nor change it. Whatever host functions remember they keep there as
values, data as text or numbers and functions as they are. -/
structure Session where
  limit : Nat
  scopes : Scopes := {}
  depth : Nat := 0
  calls : List String := []
  console : Console := {}
  nextId : Nat := 0
  memory : List Value := []

/-- The limit on the depth of evaluation when none is asked for. -/
def defaultDepth : Nat := 20000

/-- The largest limit on the depth of evaluation. -/
def greatestDepth : Nat := 100000

/-- The limit for a request: the default for one that is not positive, and never too large. -/
def depthLimit (requested : Int) : Nat :=
  if requested ≤ 0 then defaultDepth else min requested.toNat greatestDepth

/-- What an action ends in. -/
abbrev Outcome (α : Type) := Except Failure α

/-- An action on a session. -/
abbrev Action (α : Type) := ExceptT Failure (StateM Session) α

namespace Session

/-- The root scope. -/
def root : ScopeId := 0

/-- A session with an empty root scope. -/
def new (requested : Int) : Session :=
  { limit := depthLimit requested, scopes := Scopes.root {} |>.2 }

/-- The session whose attempts to write all fail for a reason. -/
def withFault (s : Session) (reason : String) : Session :=
  { s with console := { s.console with fault := some reason } }

/-- The failure of a fault that arises now. -/
def failure (s : Session) (f : Fault) : Failure := (Failure.runtime f.error).recordCalls s.calls

/-- Bind a name in the root scope. -/
def define (s : Session) (name : String) (v : Value) : Session :=
  { s with scopes := s.scopes.assign root name v }

/-- Make a host function and bind it in the root scope. -/
def defineNative (s : Session) (name : String) (f : String) (routine : Routine) : Session :=
  { s with nextId := s.nextId + 1 }.define name (.native ⟨s.nextId, f, routine⟩)

/-- Bind the functions that every program starts with. -/
def register (s : Session) : Session :=
  s.defineNative "print" "print" .print
    |>.defineNative "exp" "exp" .exp
    |>.defineNative "fact" "fact" .fact

/-- The text printed so far, and the session with none. -/
def takeWritten (s : Session) : String × Session :=
  (s.console.written, { s with console := { s.console with written := "" } })

/-- The names bound in the root scope, with their bindings, in order. -/
def globals (s : Session) : List (String × Binding) :=
  (s.scopes.names root).filterMap fun n =>
    ((s.scopes.get? root).bind (·.find? n)).map fun b => (n, b)

/-- The names bound to functions in the root scope, in order. -/
def functionNames (s : Session) : List String :=
  (s.globals.filter fun g => g.2.value.isFunction).map (·.1)

end Session

namespace Action

/-- Fail with a fault, listing the calls in progress. -/
def raise {α : Type} (f : Fault) : Action α := fun s => (.error (s.failure f), s)

/-- Go one level deeper, unless the limit is reached. -/
def enter : Action Unit := fun s =>
  if s.depth < s.limit then (.ok (), { s with depth := s.depth + 1 })
  else (.error (s.failure (.stackExhausted s.limit)), s)

/-- Come one level up. -/
def leave (s : Session) : Session := { s with depth := s.depth - 1 }

/-- Begin a call. -/
def pushCall (name : String) : Action Unit := fun s =>
  (.ok (), { s with calls := name :: s.calls })

/-- End the innermost call. -/
def popCall (s : Session) : Session := { s with calls := s.calls.tail }

/-- The value of a variable. -/
def value (scope : ScopeId) (name : String) : Action Value := fun s =>
  match s.scopes.value scope name with
  | .ok v => (.ok v, s)
  | .error f => (.error (s.failure f), s)

/-- Assign a variable; the result is its new value. -/
def assign (scope : ScopeId) (name : String) (v : Value) : Action Value := fun s =>
  (.ok v, { s with scopes := s.scopes.assign scope name v })

/-- Stuff a value on a variable; the result is that value. -/
def stuff (scope : ScopeId) (name : String) (v : Value) : Action Value := fun s =>
  match s.scopes.stuff scope name v with
  | .ok scopes => (.ok v, { s with scopes := scopes })
  | .error f => (.error (s.failure f), s)

/-- The value stuffed on a variable. -/
def stuffed (scope : ScopeId) (name : String) : Action Value := fun s =>
  match s.scopes.stuffed scope name with
  | .ok v => (.ok v, s)
  | .error f => (.error (s.failure f), s)

/-- Make a scope inside another. -/
def extend (parent : ScopeId) : Action ScopeId := fun s =>
  let (id, scopes) := s.scopes.extend parent
  (.ok id, { s with scopes := scopes })

/-- Make a closure. -/
def close (params : List String) (body : Expr) (scope : ScopeId) : Action Value := fun s =>
  (.ok (.closure ⟨s.nextId, params, body, scope⟩), { s with nextId := s.nextId + 1 })

/-- Bind parameters to arguments one by one. A parameter without an argument is `false`, and an
argument without a parameter is dropped. -/
def bindParams (ss : Scopes) (scope : ScopeId) : List String → List Value → Scopes
  | [], _ => ss
  | p :: params, [] => bindParams (ss.assign scope p (.bool false)) scope params []
  | p :: params, v :: args => bindParams (ss.assign scope p v) scope params args

/-- Make the scope of a call. -/
def openCall (f : Closure) (args : List Value) : Action ScopeId := fun s =>
  let (id, scopes) := s.scopes.extend f.scope
  (.ok id, { s with scopes := bindParams scopes id f.params args })

/-- Write text; the result is the reason if that fails. -/
def write (text : String) : Action (Option String) := fun s =>
  match s.console.fault with
  | some reason => (.ok (some reason), s)
  | none => (.ok none, { s with console := { s.console with written := s.console.written ++ text } })

/-- What the host's functions remember. -/
def recollect : Action (List Value) := fun s => (.ok s.memory, s)

/-- Remember values in place of what the host's functions remembered before. -/
def remember (values : List Value) : Action Unit := fun s => (.ok (), { s with memory := values })

end Action

end StuffScript
