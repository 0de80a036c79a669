import StuffScript.Evaluation.Carrier
import StuffScript.Host
import StuffScript.Number.Remainder

/-!
# The rules of evaluation

Every evaluation of an expression, and every round of a counted loop, goes one level deeper. Loops
repeat by evaluating themselves again, so that each round costs a level as well. The rules for one level
take what happens on the next as given. Evaluation ties them together: it carries the number of levels
that are left, which is what it recurses on; where none is left it fails in the same way as the session's
own limit does.
-/

namespace StuffScript

/-- A number, or the fault of not being one. -/
def Value.number? : Value → Except Fault Float
  | .number n => .ok n
  | v => .error (.wantNumber v)

/-- Apply an operator to the values of its operands. Only equality takes operands that are no
numbers. -/
def applyOperator (op : String) (left right : Value) : Except Fault Value :=
  if op = "==" then .ok (.bool (left.equals right))
  else if op = "!=" then .ok (.bool (!left.equals right))
  else do
    let a ← left.number?
    let b ← right.number?
    match op with
    | "+" => .ok (.number (a + b))
    | "-" => .ok (.number (a - b))
    | "*" => .ok (.number (a * b))
    | "/" => if b == 0.0 then .error .divisionByZero else .ok (.number (a / b))
    | "%" => if b == 0.0 then .error .divisionByZero else .ok (.number (Number.remainder a b))
    | "<" => .ok (.bool (a < b))
    | ">" => .ok (.bool (a > b))
    | "<=" => .ok (.bool (a ≤ b))
    | ">=" => .ok (.bool (a ≥ b))
    | _ => .error (.badOperator op)

/-- Perform an operation, raising its fault. -/
def Action.operate (op : String) (left right : Value) : Action Value := fun s =>
  match applyOperator op left right with
  | .ok v => (.ok v, s)
  | .error f => (.error (s.failure f), s)

/-- End in a given outcome, recording the calls in progress on a failure that lists none. -/
def Action.conclude (result : Outcome Value) : Action Value := fun s =>
  match result with
  | .ok v => (.ok v, s)
  | .error f => (.error (f.recordCalls s.calls), s)

/-- The variable that a loop's first part assigns. -/
def Expr.assigned? : Expr → Option String
  | .assign _ (.ident _ name) _ => some name
  | _ => none

/-- Whether the first part of a counted loop is to be evaluated in this round: in the first round, or
if it is an assignment, as long as the loop's scope does not bind its variable. -/
def Action.firstPartDue (first : Expr) (isFirst : Bool) (scope : ScopeId) : Action Bool := fun s =>
  match first.assigned? with
  | some name => (.ok (!s.scopes.owns scope name), s)
  | none => (.ok isFirst, s)

section Rules

variable {m : Type → Type} [Carrier m]

/-- Evaluate an expression only if that is due. -/
def evalIf (due : Bool) (eval : Expr → m Value) (e : Expr) : m Value :=
  if due then eval e else pure .undefined

/-- Evaluate one after another; the result is the last value. -/
def lastOf (eval : Expr → m Value) : Value → List Expr → m Value
  | last, [] => pure last
  | _, e :: es => do
    let v ← eval e
    lastOf eval v es

/-- Evaluate one after another; the results before are given, the last of them first. -/
def allOf (eval : Expr → m Value) : List Value → List Expr → m (List Value)
  | values, [] => pure values.reverse
  | values, e :: es => do
    let v ← eval e
    allOf eval (v :: values) es

/-- Carry out a host function, given how to call a closure. -/
def HostProgram.perform (call : Closure → List Value → m Value) : HostProgram → m Value
  | .done result => Carrier.act (Action.conclude result)
  | .write text next => do
    let reason ← Carrier.act (Action.write text)
    (next reason).perform call
  | .invoke f args next => do
    let result ← Carrier.attempt (call f args)
    (next result).perform call
  | .nested inner next => do
    let result ← Carrier.attempt (inner.perform call)
    (next result).perform call
  | .recollect next => do
    let values ← Carrier.act Action.recollect
    (next values).perform call
  | .remember values next => do
    Carrier.act (Action.remember values)
    next.perform call

/-- Call a closure, given how to evaluate its body. -/
def callClosure (eval : Expr → ScopeId → m Value) (f : Closure) (args : List Value) : m Value := do
  let scope ← Carrier.act (Action.openCall f args)
  eval f.body scope

/-- Call a function value, which a call knows by a name; given how to evaluate. -/
def callValue (host : Host) (eval : Expr → ScopeId → m Value) (name : String) (f : Value)
    (args : List Value) : m Value :=
  match f with
  | .closure f =>
    Carrier.within (Action.pushCall name) Action.popCall fun _ => callClosure eval f args
  | .native f =>
    Carrier.within (Action.pushCall name) Action.popCall fun _ =>
      (f.program host args).perform (callClosure eval)
  | v => Carrier.act (Action.raise (.notFunction name v))

section OneLevel

variable (host : Host) (eval : Expr → ScopeId → m Value)
  (round : (first test update body : Expr) → (isFirst : Bool) → ScopeId → m Value)

/-- What evaluating an expression comes to, given how to evaluate one level deeper. -/
@[inline] def evalStep (e : Expr) (scope : ScopeId) : m Value :=
  match e with
  | .number _ _ n => pure (.number n)
  | .string _ s => pure (.string s)
  | .bool _ b => pure (.bool b)
  | .ident _ name => Carrier.act (Action.value scope name)
  | .assign _ target value =>
    match target with
    | .ident _ name => do
      let v ← eval value scope
      Carrier.act (Action.assign scope name v)
    | _ => Carrier.act (Action.raise (.badAssignment target))
  | .binary _ left op right => do
    let l ← eval left scope
    if op = "&&" then
      if l.truthy then eval right scope else pure l
    else if op = "||" then
      if l.truthy then pure l else eval right scope
    else do
      let r ← eval right scope
      Carrier.act (Action.operate op l r)
  | .call _ callee args => do
    let f ← eval callee scope
    let values ← allOf (eval · scope) [] args
    callValue host eval callee.calleeName f values
  | .function _ params body => Carrier.act (Action.close params body scope)
  | .ifThen _ cond body => do
    let c ← eval cond scope
    if c.truthy then eval body scope else pure (.bool false)
  | .ifElse _ cond body other => do
    let c ← eval cond scope
    if c.truthy then eval body scope else eval other scope
  | .loop span cond body =>
    match cond with
    | .block _ [_] => do
      let c ← eval cond scope
      if c.truthy then do
        let _ ← eval body scope
        eval (.loop span cond body) scope
      else pure (.bool false)
    | .block _ [first, test, update] => do
      let inner ← Carrier.act (Action.extend scope)
      round first test update body true inner
    | .block _ items => Carrier.act (Action.raise (.badLoopParts items.length))
    | _ => Carrier.act (Action.raise (.badLoopCondition cond))
  | .stuff _ base value =>
    match base.stuffTarget? with
    | none => Carrier.act (Action.raise (.badStuffTarget base))
    | some name => do
      let _ ← eval base scope
      let v ← eval value scope
      Carrier.act (Action.stuff scope name v)
  | .unstuff _ base =>
    match base.stuffTarget? with
    | none => Carrier.act (Action.raise (.badUnstuffTarget base))
    | some name => do
      let _ ← eval base scope
      Carrier.act (Action.stuffed scope name)
  | .block _ items => lastOf (eval · scope) (.bool false) items

/-- What a round of a counted loop comes to in the loop's own scope, given how to evaluate one level
deeper and how to go on with the next round. -/
@[inline] def roundStep (first test update body : Expr) (isFirst : Bool) (scope : ScopeId) : m Value := do
  let due ← Carrier.act (Action.firstPartDue first isFirst scope)
  let _ ← evalIf due (eval · scope) first
  let c ← eval test scope
  if c.truthy then do
    let _ ← eval body scope
    let _ ← eval update scope
    round first test update body false scope
  else pure (.bool false)

end OneLevel

mutual

/-- Evaluate an expression in a scope with so many levels left. -/
@[specialize] def evalIn (host : Host) : (levels : Nat) → Expr → ScopeId → m Value
  | 0, _, _ => Carrier.act fun s => (.error (s.failure (.stackExhausted s.limit)), s)
  | levels + 1, e, scope => Carrier.within Action.enter Action.leave fun _ =>
    evalStep host (evalIn host levels) (roundIn host levels) e scope

/-- A round of a counted loop in its own scope, and the rounds after it, with so many levels left. -/
@[specialize] def roundIn (host : Host) :
    (levels : Nat) → (first test update body : Expr) → (isFirst : Bool) → ScopeId → m Value
  | 0, _, _, _, _, _, _ => Carrier.act fun s => (.error (s.failure (.stackExhausted s.limit)), s)
  | levels + 1, first, test, update, body, isFirst, scope =>
    Carrier.within Action.enter Action.leave fun _ =>
      roundStep (evalIn host levels) (roundIn host levels) first test update body isFirst scope

end

end Rules

end StuffScript
