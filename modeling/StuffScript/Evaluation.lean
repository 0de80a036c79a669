import StuffScript.Evaluation.Stackless

/-!
# Evaluation

What a host can do with a session: evaluate an expression, run a program, call a function. Each is
carried out by tasks, so that its depth is bounded by the session's limit alone, and each equals the
action that the rules give for it.
-/

namespace StuffScript

namespace Session

/-- How many levels deeper evaluation may go. -/
def levels (s : Session) : Nat := s.limit - s.depth

/-- Evaluate an expression in a scope. -/
def eval (host : Host) (e : Expr) (scope : ScopeId) (s : Session) : Ending :=
  (evalIn (m := Task) host s.levels e scope).run s

/-- Run a program in the root scope, from depth zero and outside every call. -/
def run (host : Host) (program : Expr) (s : Session) : Ending :=
  { s with depth := 0, calls := [] }.eval host program root

/-- Call a closure from outside the language. -/
def callClosure (host : Host) (f : Closure) (args : List Value) (s : Session) : Ending :=
  (StuffScript.callClosure (m := Task) (evalIn host s.levels) f args).run s

/-- Call a host function from outside the language. -/
def callNative (host : Host) (f : Native) (args : List Value) (s : Session) : Ending :=
  ((f.program host args).perform (m := Task)
    (StuffScript.callClosure (evalIn host s.levels))).run s

/-- Evaluation is what the rules give for plain actions. -/
theorem eval_eq (host : Host) (e : Expr) (scope : ScopeId) (s : Session) :
    s.eval host e scope = evalIn (m := Action) host s.levels e scope s :=
  Task.Performs.run_eq (performance.evalIn host s.levels e scope) s

/-- Calling a closure evaluates its body with the levels that are left. -/
theorem callClosure_eq (host : Host) (f : Closure) (args : List Value) (s : Session) :
    s.callClosure host f args =
      StuffScript.callClosure (m := Action) (evalIn host s.levels) f args s :=
  Task.Performs.run_eq (performance.callClosure (performance.evalIn host s.levels) f args) s

/-- Calling a host function performs its program, whose calls have the levels that are left. -/
theorem callNative_eq (host : Host) (f : Native) (args : List Value) (s : Session) :
    s.callNative host f args = (f.program host args).perform (m := Action)
      (StuffScript.callClosure (evalIn host s.levels)) s :=
  Task.Performs.run_eq
    (performance.perform (performance.callClosure (performance.evalIn host s.levels)) _) s

end Session

end StuffScript
