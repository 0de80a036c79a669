import StuffScript.Failure

/-!
# Scopes

A scope holds bindings and may have a parent. Scopes are numbered in the order they are made and are
never removed, so a parent has a smaller number than its children, and looking a name up from a scope
outwards comes to an end. A binding is a value, on which a second value may be stuffed.
-/

namespace StuffScript

/-- A value, and the value stuffed on it. -/
structure Binding where
  value : Value
  stuffed : Option Value := none

/-- The bindings made directly in a scope, oldest first, each name once. -/
structure Scope where
  parent : Option ScopeId := none
  bindings : List (String × Binding) := []

namespace Scope

/-- The binding of a name in this very scope. -/
def find? (s : Scope) (name : String) : Option Binding := s.bindings.lookup name

/-- Replace the binding of a name, or add one after the others. -/
def put (name : String) (b : Binding) : List (String × Binding) → List (String × Binding)
  | [] => [(name, b)]
  | (n, old) :: rest => if n = name then (name, b) :: rest else (n, old) :: put name b rest

/-- Bind a name in this scope. -/
def bind (s : Scope) (name : String) (b : Binding) : Scope :=
  { s with bindings := put name b s.bindings }

/-- The names bound in this scope, in order of their characters. -/
def names (s : Scope) : List String := (s.bindings.map (·.1)).mergeSort (fun a b => a ≤ b)

end Scope

/-- All scopes made so far. -/
structure Scopes where
  scopes : Array Scope := #[]

namespace Scopes

/-- The scope with a number. -/
def get? (ss : Scopes) (id : ScopeId) : Option Scope := ss.scopes[id]?

/-- Make a scope without a parent. -/
def root (ss : Scopes) : ScopeId × Scopes := (ss.scopes.size, ⟨ss.scopes.push {}⟩)

/-- Make a scope inside another. -/
def extend (ss : Scopes) (parent : ScopeId) : ScopeId × Scopes :=
  (ss.scopes.size, ⟨ss.scopes.push { parent := some parent }⟩)

/-- The scope around a scope. -/
def parent? (ss : Scopes) (id : ScopeId) : Option ScopeId := (ss.get? id).bind (·.parent)

/-- The nearest binding of a name, from a scope outwards. -/
def lookup (ss : Scopes) (id : ScopeId) (name : String) : Option Binding :=
  match ss.get? id with
  | none => none
  | some s =>
    match s.find? name with
    | some b => some b
    | none =>
      match s.parent with
      | none => none
      | some p => if p < id then ss.lookup p name else none
termination_by id

/-- The value of the nearest binding of a name. -/
def value (ss : Scopes) (id : ScopeId) (name : String) : Except Fault Value :=
  match ss.lookup id name with
  | some b => .ok b.value
  | none => .error (.undefinedVariable name)

/-- Bind a name in a scope, whatever its binding was before there. -/
def put (ss : Scopes) (id : ScopeId) (name : String) (b : Binding) : Scopes :=
  ⟨ss.scopes.modify id (·.bind name b)⟩

/-- Assign a name in a scope and never in one around it; a value stuffed on it before is dropped. -/
def assign (ss : Scopes) (id : ScopeId) (name : String) (v : Value) : Scopes :=
  ss.put id name { value := v }

/-- Whether a scope itself binds a name. -/
def owns (ss : Scopes) (id : ScopeId) (name : String) : Bool :=
  ((ss.get? id).bind (·.find? name)).isSome

/-- Stuff a value on a name. The nearest value of the name is copied into the scope to carry it. -/
def stuff (ss : Scopes) (id : ScopeId) (name : String) (v : Value) : Except Fault Scopes :=
  match ss.lookup id name with
  | some b => .ok (ss.put id name { value := b.value, stuffed := some v })
  | none => .error (.undefinedVariable name)

/-- The value stuffed on the nearest binding of a name. -/
def stuffed (ss : Scopes) (id : ScopeId) (name : String) : Except Fault Value :=
  match ss.lookup id name with
  | some { stuffed := some v, .. } => .ok v
  | _ => .error (.undefinedStuff name)

/-- The names that a scope itself binds, in order. -/
def names (ss : Scopes) (id : ScopeId) : List String := ((ss.get? id).map (·.names)).getD []

end Scopes

end StuffScript
