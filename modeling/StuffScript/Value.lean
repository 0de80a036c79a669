import StuffScript.Expr
import StuffScript.Number.Text

/-!
# Values

What expressions evaluate to. A function value has an identity of its own, given when it is made, and
is equal only to itself. A closure refers to the scope that it was made in by the scope's number; a
host function refers to a routine that the evaluator knows how to carry out.
-/

namespace StuffScript

/-- The number of a scope. -/
abbrev ScopeId := Nat

/-- What a host function does. A routine of a host has a name that the host gives meaning to. -/
inductive Routine where
  | print
  | exp
  | fact
  | host (behaviour : String)
deriving DecidableEq, Repr

/-- A function provided by the host. -/
structure Native where
  id : Nat
  name : String
  routine : Routine
deriving DecidableEq, Repr

/-- A function written in the language, with the scope that it was made in. -/
structure Closure where
  id : Nat
  params : List String
  body : Expr
  scope : ScopeId

/-- A value. Host functions without a result give `undefined`. -/
inductive Value where
  | undefined
  | number (n : Float)
  | string (s : String)
  | bool (b : Bool)
  | native (f : Native)
  | closure (f : Closure)

namespace Value

instance : Inhabited Value := ⟨.undefined⟩

/-- The name of a value's kind. -/
def kindName : Value → String
  | undefined => "undefined"
  | number _ => "number"
  | string _ => "string"
  | bool _ => "bool"
  | native _ | closure _ => "function"

/-- Whether a value is a function. -/
def isFunction : Value → Bool
  | native _ | closure _ => true
  | _ => false

/-- Only `false` does not count as true. -/
def truthy : Value → Bool
  | bool b => b
  | _ => true

/-- The text of a value. -/
def text : Value → String
  | undefined => "undefined"
  | number n => Number.text n
  | string s => s
  | bool b => if b then "true" else "false"
  | native f => "[Function: " ++ f.name ++ "]"
  | closure _ => "[Function: fun]"

/-- Equality without conversion: values of different kinds differ, and functions are told apart by
their identity. -/
def equals : Value → Value → Bool
  | undefined, undefined => true
  | number a, number b => a == b
  | string a, string b => a == b
  | bool a, bool b => a == b
  | native a, native b => a.id == b.id
  | closure a, closure b => a.id == b.id
  | _, _ => false

end Value

end StuffScript
