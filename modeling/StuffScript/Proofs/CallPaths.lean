import StuffScript.Proofs.Builtins
import StuffScript.Proofs.Conformance
import StuffScript.Proofs.SingleActions

/-!
# The calls that an error lists

A runtime error lists the calls in progress where it was raised. The session keeps them as a list that
calls put their name on and take it off again, and an error copies the list when it is raised. Here the
same is told without any such list: evaluation is told the way of calls that led to it, and hands it on to
what it evaluates, longer by one name for the body of a function and for what a host function does. Where
something goes wrong, the mishap is noted with that way, and then it is only passed on.

The main statement is `error_lists_call_path`, about programs that call no host functions but the ones
every program starts with.
-/

namespace StuffScript

/-- A failure as it arises, and the calls in progress there, innermost first. -/
structure Mishap where
  failure : Failure
  path : List String

/-- An action that is told which calls are in progress, innermost first. -/
def Placed (α : Type) : Type := (path : List String) → Session → Except Mishap α × Session

namespace Placed

/-- Give a result. -/
def pure {α : Type} (a : α) : Placed α := fun _ s => (.ok a, s)

/-- One after another, in the same calls; a mishap is passed on as it is. -/
def bind {α β : Type} (x : Placed α) (f : α → Placed β) : Placed β := fun path s =>
  match x path s with
  | (.ok a, t) => f a path t
  | (.error mishap, t) => (.error mishap, t)

/-- Perform an action; if it fails, that is a mishap here. -/
def act {α : Type} (x : Action α) : Placed α := fun path s =>
  match x s with
  | (.ok a, t) => (.ok a, t)
  | (.error f, t) => (.error ⟨f, path⟩, t)

/-- Perform, and give mishaps as results, listing the calls that were in progress. -/
def attempt {α : Type} (x : Placed α) : Placed (Outcome α) := fun path s =>
  match x path s with
  | (.ok a, t) => (.ok (.ok a), t)
  | (.error mishap, t) => (.ok (.error (mishap.failure.recordCalls mishap.path)), t)

/-- Perform between an entry and an exit. -/
def within {α : Type} (enter : Action Unit) (leave : Session → Session) (x : Unit → Placed α) :
    Placed α := fun path s =>
  match enter s with
  | (.error f, t) => (.error ⟨f, path⟩, t)
  | (.ok _, t) => ((x () path t).1, leave (x () path t).2)

/-- Perform inside one more call. -/
def inCall {α : Type} (name : String) (x : Placed α) : Placed α := fun path s => x (name :: path) s

end Placed

instance : Carrier Placed where
  pure := Placed.pure
  bind := Placed.bind
  act := Placed.act
  attempt := Placed.attempt
  within := Placed.within

/-- Call a value. The call is in progress while the body of a closure is evaluated, or while a host
function is carried out; what is no function is not called. -/
def callAlong (host : Host) (eval : Expr → ScopeId → Placed Value) (name : String) (f : Value)
    (args : List Value) : Placed Value :=
  match f with
  | .closure f => Placed.inCall name (callClosure eval f args)
  | .native f => Placed.inCall name ((f.program host args).perform (callClosure eval))
  | v => Placed.act (Action.raise (.notFunction name v))

mutual

/-- Evaluate an expression, told the calls in progress. Only a call adds to them. -/
def evalAlong (host : Host) : (levels : Nat) → Expr → ScopeId → Placed Value
  | 0, _, _ => Placed.act Action.exhausted
  | levels + 1, e, scope => Placed.within Action.enter Action.leave fun _ =>
    evalStepCalling (callAlong host (evalAlong host levels)) (evalAlong host levels)
      (roundAlong host levels) e scope

/-- A round of a counted loop, and the rounds after it, told the calls in progress. -/
def roundAlong (host : Host) :
    (levels : Nat) → (first test update body : Expr) → (isFirst : Bool) → ScopeId → Placed Value
  | 0, _, _, _, _, _, _ => Placed.act Action.exhausted
  | levels + 1, first, test, update, body, isFirst, scope =>
    Placed.within Action.enter Action.leave fun _ =>
      roundStep (evalAlong host levels) (roundAlong host levels) first test update body isFirst scope

end

/-- How an outcome tells of a mishap: a runtime error lists the innermost calls in progress, as many as an
error lists at most. -/
inductive Outcome.Tells {α : Type} (R : α → Prop) : Outcome α → Except Mishap α → Prop
  | ok {a : α} (h : R a) : Tells R (.ok a) (.ok a)
  | runtime (kind : ErrorKind) (message : String) (path : List String) :
    Tells R (.error (.runtime ⟨kind, message, path.take stackLimit⟩))
      (.error ⟨.runtime ⟨kind, message, []⟩, path⟩)
  | plain (text : String) (path : List String) :
    Tells R (.error (.plain text)) (.error ⟨.plain text, path⟩)

/-- A failure that is recorded with the calls in progress where it arises tells of them. -/
theorem Failure.Bare.tells {α : Type} {R : α → Prop} {f : Failure} (h : f.Bare) (path : List String) :
    Outcome.Tells R (.error (f.recordCalls path)) (.error ⟨f.recordCalls [], path⟩) := by
  cases f with
  | runtime e =>
    obtain ⟨kind, message, stack⟩ := e
    cases h
    have hrecorded : Failure.recordCalls path (.runtime ⟨kind, message, []⟩) =
        .runtime ⟨kind, message, path.take stackLimit⟩ := by
      cases path <;> rfl
    rw [hrecorded]
    exact .runtime kind message path
  | wrapped text cause => exact h.elim
  | plain text => exact .plain text path

/-- Wherever no calls are listed in the session, the second computation, told the calls that the first one
has in its session, ends in the same session but for them, and the outcome of the first tells of it. -/
def Placed.Explains {α : Type} (R : α → Prop) (x : Action α) (y : Placed α) : Prop :=
  ∀ (path : List String) (s : Session), s.calls = [] →
    Outcome.Tells R (x { s with calls := path }).1 (y path s).1 ∧
    (x { s with calls := path }).2 = { (y path s).2 with calls := path } ∧ (y path s).2.calls = []

namespace Placed.Explains

variable {α β : Type} {R : α → Prop} {S : β → Prop}

/-- Giving a value needs no path. -/
theorem pure {a : α} (h : R a) : Explains R (Pure.pure a) (Pure.pure a : Placed α) :=
  fun _ _ hs => ⟨.ok h, rfl, hs⟩

/-- One computation after another is explained, if each of them is. -/
theorem bind {x : Action α} {y : Placed α} {f : α → Action β} {g : α → Placed β}
    (hx : Explains R x y) (hf : ∀ a, R a → Explains S (f a) (g a)) :
    Explains S (x >>= f) (y >>= g) := by
  intro path s hs
  obtain ⟨htells, hsession, hcalls⟩ := hx path s hs
  change Outcome.Tells S ((x >>= f) { s with calls := path }).1 (Placed.bind y g path s).1 ∧
    ((x >>= f) { s with calls := path }).2 = { (Placed.bind y g path s).2 with calls := path } ∧
    (Placed.bind y g path s).2.calls = []
  rw [Action.bind_apply, Placed.bind]
  revert htells hsession hcalls
  rcases x { s with calls := path } with ⟨r, t⟩
  rcases y path s with ⟨q, u⟩
  intro htells hsession hcalls
  cases htells with
  | @ok a ha =>
    simp only at hsession
    subst hsession
    exact hf a ha path u hcalls
  | runtime kind message path' => exact ⟨.runtime kind message path', hsession, hcalls⟩
  | plain text path' => exact ⟨.plain text path', hsession, hcalls⟩

/-- A single action fails without calls of its own, so it is explained by the path that it is told. -/
theorem act {x : Action α} (h : x.Blind Failure.Bare) :
    Explains (fun _ => True) x (Carrier.act x : Placed α) := by
  intro path s hs
  have hsame : { s with calls := [] } = s := by
    rw [← hs]
  change Outcome.Tells _ _ (Placed.act x path s).1 ∧ _ = { (Placed.act x path s).2 with calls := path } ∧
    (Placed.act x path s).2.calls = []
  rcases h s with ⟨a, t, hx⟩ | ⟨f, t, hf, hx⟩
  · have hbare := hx s.depth []
    rw [hsame] at hbare
    rw [Placed.act, hbare, hx s.depth path]
    exact ⟨.ok trivial, rfl, rfl⟩
  · have hbare := hx s.depth []
    rw [hsame] at hbare
    rw [Placed.act, hbare, hx s.depth path]
    exact ⟨hf.tells path, rfl, rfl⟩

/-- A computation a level down is explained by the same path. -/
theorem deeper {x : Action α} {y : Placed α} (h : Explains R x y) :
    Explains R (Action.within Action.enter Action.leave fun _ => x)
      (Placed.within Action.enter Action.leave fun _ => y) := by
  intro path s hs
  by_cases hlt : s.depth < s.limit
  · obtain ⟨htells, hsession, hcalls⟩ := h path { s with depth := s.depth + 1 } hs
    have hin : Placed.within Action.enter Action.leave (fun _ => y) path s =
        ((y path { s with depth := s.depth + 1 }).1,
          Action.leave (y path { s with depth := s.depth + 1 }).2) := by
      rw [Placed.within, Action.enter, if_pos hlt]
    rw [Action.within_enter_of_lt x (s := { s with calls := path }) hlt, hin]
    exact ⟨htells, congrArg Action.leave hsession, hcalls⟩
  · have hout : Placed.within Action.enter Action.leave (fun _ => y) path s =
        (.error ⟨s.failure (.stackExhausted s.limit), path⟩, s) := by
      rw [Placed.within, Action.enter, if_neg hlt]
    have hbare : (Failure.runtime (Fault.stackExhausted s.limit).error).Bare := rfl
    have htells := hbare.tells (R := R) path
    rw [← hs] at htells
    rw [Action.within_enter_of_not_lt x (s := { s with calls := path }) hlt, hout]
    exact ⟨htells, rfl, hs⟩

/-- A name put on the list for a while is a longer way of calls for that while. -/
theorem calling {x : Action α} {y : Placed α} (name : String) (h : Explains R x y) :
    Explains R (Action.within (Action.pushCall name) Action.popCall fun _ => x)
      (Placed.inCall name y) := by
  intro path s hs
  obtain ⟨htells, hsession, hcalls⟩ := h (name :: path) s hs
  exact ⟨htells, congrArg Action.popCall hsession, hcalls⟩

end Placed.Explains

/-- A host function that has nothing called, and whose own failures list no calls. -/
inductive HostProgram.Bare : HostProgram → Prop
  | done {result : Outcome Value} (h : ∀ f, result = .error f → f.Bare) : Bare (.done result)
  | write (text : String) {next : Option String → HostProgram} (h : ∀ reason, Bare (next reason)) :
    Bare (.write text next)

/-- A host function that computes a number fails without calls of its own. -/
theorem HostProgram.ofNumber_bare (result : Except Fault Float) : (ofNumber result).Bare := by
  cases result with
  | ok n =>
    refine .done fun f hf => ?_
    cases hf
  | error fault =>
    refine .done fun f hf => ?_
    cases hf
    rfl

/-- The functions that every program starts with fail with bare failures. -/
theorem Native.program_bare (f : Native) (args : List Value) : (f.program Host.none args).Bare := by
  unfold Native.program
  split
  · refine .write _ fun reason => ?_
    cases reason with
    | none =>
      refine .done fun f hf => ?_
      cases hf
    | some reason =>
      refine .done fun f hf => ?_
      cases hf
      trivial
  · exact HostProgram.ofNumber_bare _
  · exact HostProgram.ofNumber_bare _
  · refine .done fun f hf => ?_
    cases hf

/-- Host functions that fail without calls of their own are explained by the path of their call. -/
theorem HostProgram.Bare.explains {p : HostProgram} (h : p.Bare)
    (call : Closure → List Value → Action Value) (call' : Closure → List Value → Placed Value) :
    Placed.Explains (fun _ => True) (p.perform call) (p.perform call') := by
  induction h with
  | done h => exact .act (.conclude h)
  | write text _ ih => exact .bind (.act (.write text)) fun reason _ => ih reason

/-- Being told of mishaps goes along with the rules of evaluation. -/
def explanation : Conformance Unit Action Placed where
  expr _ := True
  scope _ _ := True
  value _ _ := True
  holds _ R := Placed.Explains (R ())
  part _ _ := trivial
  body _ := trivial
  scope_later _ _ := trivial
  value_later _ _ := trivial
  plain _ := trivial
  pure h := .pure h
  bind hx hf := hx.bind (hf () le_rfl)
  raise _ := .act (.raise _)
  read name _ := .act (.value _ name)
  assign name _ _ := .act (.assign _ name _)
  stuff name _ _ := .act (.stuff _ name _)
  stuffed name _ := .act (.stuffed _ name)
  extend _ := .act (.extend _)
  close params _ _ _ := .act (.close params _ _)
  openCall _ _ := .act (.openCall _ _)
  operate _ _ _ _ _ := .act (.operate _ _ _)
  firstPartDue first isFirst _ := .act (.firstPartDue first isFirst _)

/-- Calls, done with the list of calls or told the way of calls. -/
theorem explanation_calls {eval : Expr → ScopeId → Action Value} {eval' : Expr → ScopeId → Placed Value}
    (heval : explanation.Evaluates eval eval') :
    explanation.Calls (callValue Host.none eval) (callAlong Host.none eval') := by
  intro w callee v args _ hv hargs
  cases v with
  | closure f => exact Placed.Explains.calling _ (Conformance.callClosure heval hv hargs)
  | native f => exact Placed.Explains.calling _ ((f.program_bare args).explains _ _)
  | undefined => exact Placed.Explains.act (.raise _)
  | number n => exact Placed.Explains.act (.raise _)
  | string text => exact Placed.Explains.act (.raise _)
  | bool b => exact Placed.Explains.act (.raise _)

/-- Evaluating with any number of levels left is explained, and so are the rounds of loops. -/
theorem evalIn_roundIn_explained (levels : Nat) :
    explanation.Evaluates (evalIn Host.none levels) (evalAlong Host.none levels) ∧
      explanation.Repeats (roundIn Host.none levels) (roundAlong Host.none levels) := by
  refine Conformance.of_levels (fun _ => explanation_calls) ?_ ?_ ?_ ?_ levels
  · intro w e σ _ _
    rw [evalIn_zero, evalAlong]
    exact Placed.Explains.act .exhausted
  · intro w first test update body isFirst σ _ _ _ _ _
    rw [roundIn_zero, roundAlong]
    exact Placed.Explains.act .exhausted
  · intro levels w e σ _ _ hstep
    rw [evalIn, evalAlong, ← evalStepCalling_callValue]
    exact Placed.Explains.deeper hstep
  · intro levels w first test update body isFirst σ _ _ _ _ _ hstep
    rw [roundIn, roundAlong]
    exact Placed.Explains.deeper hstep

/-- Evaluating in any session: told the session's own calls, the mishap is the same. -/
theorem Session.eval_explained (e : Expr) (σ : ScopeId) (s : Session) :
    let told := evalAlong Host.none s.levels e σ s.calls { s with calls := [] }
    Outcome.Tells (fun _ => True) (s.eval Host.none e σ).1 told.1 ∧
      (s.eval Host.none e σ).2 = { told.2 with calls := s.calls } ∧ told.2.calls = [] := by
  rw [Session.eval_eq]
  exact (evalIn_roundIn_explained s.levels).1 () e σ trivial trivial s.calls { s with calls := [] } rfl

/-- What is told of a runtime error is its kind and wording, and the calls that it lists are the innermost
ones of those in progress. -/
theorem Outcome.Tells.runtime_error {α : Type} {R : α → Prop} {e : RuntimeError} {q : Except Mishap α}
    (h : Outcome.Tells R (.error (.runtime e)) q) :
    ∃ path, q = .error ⟨.runtime { e with stack := [] }, path⟩ ∧ e.stack = path.take stackLimit := by
  cases h with
  | runtime kind message path => exact ⟨path, rfl, rfl⟩

/-- A program that fails with a runtime error fails in the same way when evaluation is told the way of calls
and keeps no list of them. The error lists the innermost 32 calls of the way to where it arose, innermost
first, so it lists none exactly if it arose outside every call. -/
theorem error_lists_call_path (program : Expr) (s : Session) :
    let told := evalAlong Host.none s.limit program Session.root [] { s with depth := 0, calls := [] }
    Outcome.Tells (fun _ => True) (s.run Host.none program).1 told.1 ∧
    (s.run Host.none program).2 = told.2 ∧
    ∀ e, (s.run Host.none program).1 = .error (.runtime e) →
      ∃ path, told.1 = .error ⟨.runtime { e with stack := [] }, path⟩ ∧
        e.stack = path.take 32 ∧ (e.stack = [] ↔ path = []) := by
  intro told
  obtain ⟨htells, hsession, hcalls⟩ :=
    Session.eval_explained program Session.root { s with depth := 0, calls := [] }
  refine ⟨htells, ?_, fun e he => ?_⟩
  · have hsame : { told.2 with calls := [] } = told.2 := by
      rw [← show told.2.calls = [] from hcalls]
    exact hsession.trans hsame
  · have herror : Outcome.Tells (fun _ => True) (.error (.runtime e)) told.1 := he ▸ htells
    obtain ⟨path, hpath, hstack⟩ := herror.runtime_error
    refine ⟨path, hpath, hstack, ?_⟩
    rw [hstack, List.take_eq_nil_iff]
    exact or_iff_right (by decide)

/-- The program `g = fun [] x; f = fun [a] a; (fun [] f(g()))()`. -/
def failingArgument : Expr :=
  let at1 : Span := ⟨1, 1⟩
  .block at1
    [.assign at1 (.ident at1 "g") (.function at1 [] (.ident at1 "x")),
      .assign at1 (.ident at1 "f") (.function at1 ["a"] (.ident at1 "a")),
      .call at1 (.function at1 [] (.call at1 (.ident at1 "f") [.call at1 (.ident at1 "g") []])) []]

/-- The argument fails before the call of `f` begins, so `f` is not among the calls listed. -/
theorem run_failingArgument :
    ((Session.new 10).run Host.none failingArgument).1 =
      .error (.runtime ⟨.undefinedVariable, "Undefined variable: x", ["g", "<anonymous>"]⟩) := by
  have hcause : ((Session.new 10).run Host.none failingArgument).1.toFailure? =
      some (.runtime ⟨.undefinedVariable, "Undefined variable: x", ["g", "<anonymous>"]⟩) := by
    decide +kernel
  exact Outcome.eq_error_of_toFailure? hcause

/-- While its argument is evaluated a call is not in progress yet. -/
theorem error_lists_call_path_argument :
    ((Session.new 10).run Host.none failingArgument).1 =
      .error (.runtime ⟨.undefinedVariable, "Undefined variable: x", ["g", "<anonymous>"]⟩) ∧
    ∃ path, (evalAlong Host.none 10 failingArgument Session.root []
        { Session.new 10 with depth := 0, calls := [] }).1 =
        .error ⟨.runtime ⟨.undefinedVariable, "Undefined variable: x", []⟩, path⟩ ∧
      ["g", "<anonymous>"] = path.take 32 := by
  obtain ⟨_, _, hpath⟩ := error_lists_call_path failingArgument (Session.new 10)
  obtain ⟨path, htold, hstack, _⟩ := hpath _ run_failingArgument
  exact ⟨run_failingArgument, path, htold, hstack⟩

end StuffScript
