import StuffScript.Evaluation.Rules

/-!
# Evaluating on two carriers

The rules of evaluation say the same on every carrier. An agreement relates the computations of two
carriers so that each operation which the rules use respects it: giving a result, one computation after
another, a single action, catching a failure, going one level deeper, and a call.

The main statement is `Agreement.evalIn_roundIn`: then evaluating an expression respects it as well, and
so do calls. It rests on two others that ask for less. `RuleAgreement.evalStepCalling` is about the rules for
one level, with calls done in any two ways that respect the relation. `RuleAgreement.of_levels` goes from
there to any number of levels, where the relation need not be the same on each. Which single actions the
rules perform is listed once, in `Action.Single`.
-/

namespace StuffScript

/-- The single actions that the rules of evaluation perform. -/
inductive Action.Single : {α : Type} → Action α → Prop
  | exhausted : Single fun s => ((.error (s.failure (.stackExhausted s.limit)) : Outcome Value), s)
  | raise (f : Fault) : Single (Action.raise f : Action Value)
  | value (scope : ScopeId) (name : String) : Single (Action.value scope name)
  | assign (scope : ScopeId) (name : String) (v : Value) : Single (Action.assign scope name v)
  | stuff (scope : ScopeId) (name : String) (v : Value) : Single (Action.stuff scope name v)
  | stuffed (scope : ScopeId) (name : String) : Single (Action.stuffed scope name)
  | extend (parent : ScopeId) : Single (Action.extend parent)
  | close (params : List String) (body : Expr) (scope : ScopeId) :
    Single (Action.close params body scope)
  | openCall (f : Closure) (args : List Value) : Single (Action.openCall f args)
  | operate (op : String) (left right : Value) : Single (Action.operate op left right)
  | firstPartDue (first : Expr) (isFirst : Bool) (scope : ScopeId) :
    Single (Action.firstPartDue first isFirst scope)
  | write (text : String) : Single (Action.write text)
  | recollect : Single Action.recollect
  | remember (values : List Value) : Single (Action.remember values)
  | conclude (result : Outcome Value) : Single (Action.conclude result)

/-- Carrying out a host function respects a relation between the computations of two carriers, if the
operations that it is made of do and calling closures does. -/
theorem HostProgram.perform_related {m n : Type → Type} [Carrier m] [Carrier n]
    {R : {α : Type} → m α → n α → Prop}
    (hbind : ∀ {α β : Type} {x : m α} {y : n α} {f : α → m β} {g : α → n β},
      R x y → (∀ a, R (f a) (g a)) → R (x >>= f) (y >>= g))
    (hact : ∀ {α : Type} {x : Action α}, x.Single → R (Carrier.act x : m α) (Carrier.act x : n α))
    (hattempt : ∀ {α : Type} {x : m α} {y : n α}, R x y → R (Carrier.attempt x) (Carrier.attempt y))
    {f : Closure → List Value → m Value} {g : Closure → List Value → n Value}
    (h : ∀ c args, R (f c args) (g c args)) (p : HostProgram) : R (p.perform f) (p.perform g) := by
  induction p with
  | done result => exact hact (.conclude result)
  | write text next ih => exact hbind (hact (.write text)) ih
  | invoke c args next ih => exact hbind (hattempt (h c args)) ih
  | nested inner next ihInner ih => exact hbind (hattempt ihInner) ih
  | recollect next ih => exact hbind (hact .recollect) ih
  | remember values next ih => exact hbind (hact (.remember values)) fun _ => ih

section Calling

variable {m : Type → Type} [Carrier m] (call : String → Value → List Value → m Value)
  (eval : Expr → ScopeId → m Value)
  (round : (first test update body : Expr) → (isFirst : Bool) → ScopeId → m Value)

/-- What evaluating an expression comes to when calls are done in a given way. -/
def evalStepCalling (e : Expr) (scope : ScopeId) : m Value :=
  match e with
  | .call _ callee args => do
    let f ← eval callee scope
    let values ← allOf (eval · scope) [] args
    call callee.calleeName f values
  | e => evalStep Host.none eval round e scope

/-- The rules of evaluation do calls by calling values. -/
theorem evalStepCalling_callValue (host : Host) (e : Expr) (scope : ScopeId) :
    evalStepCalling (callValue host eval) eval round e scope = evalStep host eval round e scope := by
  cases e <;> rfl

end Calling

/-- A relation between the computations of two carriers that the operations of the rules for one level
respect, calls apart. -/
structure RuleAgreement (m n : Type → Type) [Carrier m] [Carrier n] where
  holds {α : Type} : m α → n α → Prop
  pure {α : Type} (a : α) : holds (Pure.pure a) (Pure.pure a)
  bind {α β : Type} {x : m α} {y : n α} {f : α → m β} {g : α → n β} :
    holds x y → (∀ a, holds (f a) (g a)) → holds (x >>= f) (y >>= g)
  act {α : Type} {x : Action α} : x.Single → holds (Carrier.act x) (Carrier.act x)

namespace RuleAgreement

variable {m n : Type → Type} [Carrier m] [Carrier n] (A : RuleAgreement m n)

/-- Two ways to evaluate are related in every scope. -/
def Evaluates (eval : Expr → ScopeId → m Value) (eval' : Expr → ScopeId → n Value) : Prop :=
  ∀ e scope, A.holds (eval e scope) (eval' e scope)

/-- Two ways to carry out the rounds of a counted loop are related in every scope. -/
def Repeats (round : Expr → Expr → Expr → Expr → Bool → ScopeId → m Value)
    (round' : Expr → Expr → Expr → Expr → Bool → ScopeId → n Value) : Prop :=
  ∀ first test update body isFirst scope,
    A.holds (round first test update body isFirst scope) (round' first test update body isFirst scope)

/-- Two ways to call values are related. -/
def Calls (call : String → Value → List Value → m Value) (call' : String → Value → List Value → n Value) :
    Prop :=
  ∀ name v args, A.holds (call name v args) (call' name v args)

section Parts

variable {f : Expr → m Value} {g : Expr → n Value} (h : ∀ e, A.holds (f e) (g e))
include h

/-- Evaluating only what is due respects an agreement. -/
theorem evalIf (due : Bool) (e : Expr) : A.holds (evalIf due f e) (evalIf due g e) := by
  cases due
  · exact A.pure _
  · exact h e

/-- Evaluating the items of a block respects an agreement. -/
theorem lastOf (v : Value) (es : List Expr) : A.holds (lastOf f v es) (lastOf g v es) := by
  induction es generalizing v with
  | nil => exact A.pure v
  | cons e es ih => exact A.bind (h e) ih

/-- Evaluating arguments respects an agreement. -/
theorem allOf (vs : List Value) (es : List Expr) : A.holds (allOf f vs es) (allOf g vs es) := by
  induction es generalizing vs with
  | nil => exact A.pure _
  | cons e es ih => exact A.bind (h e) fun v => ih (v :: vs)

end Parts

section Steps

variable {eval : Expr → ScopeId → m Value} {eval' : Expr → ScopeId → n Value}
  {round : Expr → Expr → Expr → Expr → Bool → ScopeId → m Value}
  {round' : Expr → Expr → Expr → Expr → Bool → ScopeId → n Value}
  {call : String → Value → List Value → m Value} {call' : String → Value → List Value → n Value}
  (heval : A.Evaluates eval eval') (hround : A.Repeats round round') (hcall : A.Calls call call')

include heval

/-- Calling a closure respects an agreement if evaluating its body does. -/
theorem callClosure (c : Closure) (args : List Value) :
    A.holds (callClosure eval c args) (callClosure eval' c args) :=
  A.bind (A.act (.openCall c args)) fun scope => heval c.body scope

include hround hcall

/-- Evaluating an expression respects an agreement if evaluating one level deeper does, and calls do. -/
theorem evalStepCalling (e : Expr) (scope : ScopeId) :
    A.holds (evalStepCalling call eval round e scope) (evalStepCalling call' eval' round' e scope) := by
  cases e with
  | number => exact A.pure _
  | string => exact A.pure _
  | bool => exact A.pure _
  | ident span name => exact A.act (.value scope name)
  | assign span target value =>
    simp only [StuffScript.evalStepCalling, StuffScript.evalStep]
    split
    · exact A.bind (heval _ _) fun _ => A.act (.assign ..)
    · exact A.act (.raise _)
  | binary span left op right =>
    refine A.bind (heval _ _) fun l => ?_
    split
    · split
      · exact heval _ _
      · exact A.pure _
    · split
      · split
        · exact A.pure _
        · exact heval _ _
      · exact A.bind (heval _ _) fun _ => A.act (.operate ..)
  | call span callee args =>
    refine A.bind (heval _ _) fun f => ?_
    refine A.bind (A.allOf (fun e => heval e scope) [] args) fun values => ?_
    exact hcall _ f values
  | function span params body => exact A.act (.close params body scope)
  | ifThen span cond body =>
    refine A.bind (heval _ _) fun c => ?_
    split
    · exact heval _ _
    · exact A.pure _
  | ifElse span cond body other =>
    refine A.bind (heval _ _) fun c => ?_
    split <;> exact heval _ _
  | loop span cond body =>
    simp only [StuffScript.evalStepCalling, StuffScript.evalStep]
    split
    · refine A.bind (heval _ _) fun c => ?_
      split
      · exact A.bind (heval _ _) fun _ => heval _ _
      · exact A.pure _
    · exact A.bind (A.act (.extend scope)) fun inner => hround _ _ _ _ _ inner
    · exact A.act (.raise _)
    · exact A.act (.raise _)
  | stuff span base value =>
    simp only [StuffScript.evalStepCalling, StuffScript.evalStep]
    split
    · exact A.act (.raise _)
    · exact A.bind (heval _ _) fun _ => A.bind (heval _ _) fun _ => A.act (.stuff ..)
  | unstuff span base =>
    simp only [StuffScript.evalStepCalling, StuffScript.evalStep]
    split
    · exact A.act (.raise _)
    · exact A.bind (heval _ _) fun _ => A.act (.stuffed ..)
  | block span items => exact A.lastOf (fun e => heval e scope) _ items

omit hcall

/-- A round of a counted loop respects an agreement if evaluating one level deeper does. -/
theorem roundStep (first test update body : Expr) (isFirst : Bool) (scope : ScopeId) :
    A.holds (roundStep eval round first test update body isFirst scope)
      (roundStep eval' round' first test update body isFirst scope) := by
  refine A.bind (A.act (.firstPartDue ..)) fun due => ?_
  refine A.bind (A.evalIf (fun e => heval e scope) due first) fun _ => ?_
  refine A.bind (heval _ _) fun c => ?_
  split
  · exact A.bind (heval _ _) fun _ => A.bind (heval _ _) fun _ => hround _ _ _ _ _ _
  · exact A.pure _

end Steps

/-- Two ways to evaluate that are each built up level by level are related on every level, by an agreement
for each: they are where no level is left, and one level more carries over what the rules make of it. -/
theorem of_levels {eval : Nat → Expr → ScopeId → m Value} {eval' : Nat → Expr → ScopeId → n Value}
    {round : Nat → Expr → Expr → Expr → Expr → Bool → ScopeId → m Value}
    {round' : Nat → Expr → Expr → Expr → Expr → Bool → ScopeId → n Value}
    {call : Nat → String → Value → List Value → m Value}
    {call' : Nat → String → Value → List Value → n Value} (A : Nat → RuleAgreement m n)
    (hcall : ∀ k, (A k).Evaluates (eval k) (eval' k) → (A k).Calls (call k) (call' k))
    (hzero : (A 0).Evaluates (eval 0) (eval' 0)) (hlast : (A 0).Repeats (round 0) (round' 0))
    (hsucc : ∀ k e scope, (A k).holds (StuffScript.evalStepCalling (call k) (eval k) (round k) e scope)
      (StuffScript.evalStepCalling (call' k) (eval' k) (round' k) e scope) →
      (A (k + 1)).holds (eval (k + 1) e scope) (eval' (k + 1) e scope))
    (hnext : ∀ k first test update body isFirst scope,
      (A k).holds (StuffScript.roundStep (eval k) (round k) first test update body isFirst scope)
        (StuffScript.roundStep (eval' k) (round' k) first test update body isFirst scope) →
      (A (k + 1)).holds (round (k + 1) first test update body isFirst scope)
        (round' (k + 1) first test update body isFirst scope)) (levels : Nat) :
    (A levels).Evaluates (eval levels) (eval' levels) ∧ (A levels).Repeats (round levels) (round' levels) := by
  induction levels with
  | zero => exact ⟨hzero, hlast⟩
  | succ levels ih =>
    obtain ⟨heval, hround⟩ := ih
    refine ⟨fun e scope => hsucc levels e scope ?_, fun first test update body isFirst scope => ?_⟩
    · exact (A levels).evalStepCalling heval hround (hcall levels heval) e scope
    · exact hnext levels first test update body isFirst scope
        ((A levels).roundStep heval hround first test update body isFirst scope)

end RuleAgreement

/-- A relation between the computations of two carriers that the operations of the rules for one level
respect, with host functions taken as a whole. -/
structure StepAgreement (host : Host) (m n : Type → Type) [Carrier m] [Carrier n] extends
    RuleAgreement m n where
  calling {x : m Value} {y : n Value} (name : String) : holds x y →
    holds (Carrier.within (Action.pushCall name) Action.popCall fun _ => x)
      (Carrier.within (Action.pushCall name) Action.popCall fun _ => y)
  native (f : Native) (args : List Value) {call : Closure → List Value → m Value}
    {call' : Closure → List Value → n Value} : (∀ c args, holds (call c args) (call' c args)) →
    holds ((f.program host args).perform call) ((f.program host args).perform call')

namespace StepAgreement

variable {host : Host} {m n : Type → Type} [Carrier m] [Carrier n] (A : StepAgreement host m n)
  {eval : Expr → ScopeId → m Value} {eval' : Expr → ScopeId → n Value} (heval : A.Evaluates eval eval')

include heval

/-- Calling values respects an agreement if evaluating does. -/
theorem callValue : A.Calls (callValue host eval) (callValue host eval') := by
  intro name v args
  cases v with
  | closure c => exact A.calling name (A.callClosure heval c args)
  | native f => exact A.calling name (A.native f args (A.callClosure heval))
  | _ => exact A.act (.raise _)

/-- Evaluating an expression respects an agreement if evaluating one level deeper does. -/
theorem evalStep {round : Expr → Expr → Expr → Expr → Bool → ScopeId → m Value}
    {round' : Expr → Expr → Expr → Expr → Bool → ScopeId → n Value} (hround : A.Repeats round round')
    (e : Expr) (scope : ScopeId) :
    A.holds (evalStep host eval round e scope) (evalStep host eval' round' e scope) := by
  rw [← evalStepCalling_callValue, ← evalStepCalling_callValue]
  exact A.evalStepCalling heval hround (A.callValue heval) e scope

end StepAgreement

/-- A relation between the computations of two carriers that all operations of the rules respect. -/
structure Agreement (m n : Type → Type) [Carrier m] [Carrier n] extends RuleAgreement m n where
  attempt {α : Type} {x : m α} {y : n α} :
    holds x y → holds (Carrier.attempt x) (Carrier.attempt y)
  deeper {x : m Value} {y : n Value} : holds x y →
    holds (Carrier.within Action.enter Action.leave fun _ => x)
      (Carrier.within Action.enter Action.leave fun _ => y)
  calling {x : m Value} {y : n Value} (name : String) : holds x y →
    holds (Carrier.within (Action.pushCall name) Action.popCall fun _ => x)
      (Carrier.within (Action.pushCall name) Action.popCall fun _ => y)

namespace Agreement

variable {m n : Type → Type} [Carrier m] [Carrier n] (A : Agreement m n)

/-- Carrying out a host function respects an agreement if calling closures does. -/
theorem perform {f : Closure → List Value → m Value} {g : Closure → List Value → n Value}
    (h : ∀ c args, A.holds (f c args) (g c args)) (p : HostProgram) :
    A.holds (p.perform f) (p.perform g) :=
  HostProgram.perform_related A.bind A.act A.attempt h p

/-- An agreement holds for the rules of one level, whatever the host. -/
def toStep (host : Host) : StepAgreement host m n where
  toRuleAgreement := A.toRuleAgreement
  calling := A.calling
  native f args _ _ h := A.perform h (f.program host args)

/-- Evaluating an expression respects an agreement, and so does a round of a counted loop. -/
theorem evalIn_roundIn (host : Host) (levels : Nat) :
    A.Evaluates (evalIn host levels) (evalIn host levels) ∧
      A.Repeats (roundIn host levels) (roundIn host levels) := by
  refine RuleAgreement.of_levels (fun _ => A.toRuleAgreement) (fun _ => (A.toStep host).callValue)
    (fun e scope => ?_) (fun first test update body isFirst scope => ?_) (fun k e scope h => ?_)
    (fun k first test update body isFirst scope h => ?_) levels
  · simp only [StuffScript.evalIn]
    exact A.act .exhausted
  · simp only [StuffScript.roundIn]
    exact A.act .exhausted
  · simp only [StuffScript.evalIn, ← evalStepCalling_callValue]
    exact A.deeper h
  · simp only [StuffScript.roundIn]
    exact A.deeper h

/-- Evaluating an expression respects an agreement. -/
theorem evalIn (host : Host) (levels : Nat) : A.Evaluates (evalIn host levels) (evalIn host levels) :=
  (A.evalIn_roundIn host levels).1

end Agreement

end StuffScript
