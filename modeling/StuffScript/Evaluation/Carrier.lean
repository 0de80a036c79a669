import StuffScript.Session

/-!
# Carriers of evaluation

The rules of evaluation are stated once, for any carrier that can perform actions, catch failures and
bracket a computation between an entry and an exit. Actions themselves are the plain carrier. Tasks
are a second one, for evaluation nested so deeply that the machine's own stack would not hold it: a
task hands its result to a continuation, and returns to its caller at every entry and exit.
-/

namespace StuffScript

/-- What the rules of evaluation need. `within enter leave x` performs `enter` and, if that succeeds,
`x` and then `leave`, however `x` ends. -/
class Carrier (m : Type → Type) extends Monad m where
  act {α : Type} : Action α → m α
  attempt {α : Type} : m α → m (Outcome α)
  within {α : Type} : Action Unit → (Session → Session) → (Unit → m α) → m α

/-- Perform, and give failures as results. -/
def Action.attempt {α : Type} (x : Action α) : Action (Outcome α) := fun s =>
  let (r, s) := x s
  (.ok r, s)

/-- Perform between an entry and an exit. -/
def Action.within {α : Type} (enter : Action Unit) (leave : Session → Session)
    (x : Unit → Action α) : Action α := fun s =>
  match enter s with
  | (.error e, s) => (.error e, s)
  | (.ok _, s) =>
    let (r, s) := x () s
    (r, leave s)

instance : Carrier Action where
  act x := x
  attempt := Action.attempt
  within := Action.within

/-- A computation that pauses: it has a result, or it can be resumed. -/
inductive Paused (ρ : Type) where
  | done (result : ρ)
  | later (resume : Unit → Paused ρ)

/-- Resume a computation until it has a result. -/
def Paused.finish {ρ : Type} : Paused ρ → ρ
  | .done result => result
  | .later resume => (resume ()).finish

/-- What evaluation ends in: an outcome and the session after it. -/
abbrev Ending := Outcome Value × Session

/-- An action that hands what it ends in to a continuation. -/
def Task (α : Type) : Type := Session → (Outcome α → Session → Paused Ending) → Paused Ending

namespace Task

/-- Give a result. -/
@[inline] def pure {α : Type} (a : α) : Task α := fun s k => k (.ok a) s

/-- One task after another; a failure of the first skips the second. -/
@[inline] def bind {α β : Type} (x : Task α) (f : α → Task β) : Task β := fun s k =>
  x s fun r s =>
    match r with
    | .ok a => f a s k
    | .error e => k (.error e) s

/-- Perform an action. -/
@[inline] def act {α : Type} (x : Action α) : Task α := fun s k =>
  match x s with
  | (r, s) => k r s

/-- Perform, and give failures as results. -/
@[inline] def attempt {α : Type} (x : Task α) : Task (Outcome α) := fun s k =>
  x s fun r s => k (.ok r) s

/-- Perform between an entry and an exit, and pause at both. -/
@[inline] def within {α : Type} (enter : Action Unit) (leave : Session → Session)
    (x : Unit → Task α) : Task α := fun s k =>
  .later fun _ =>
    match enter s with
    | (.error e, s) => k (.error e) s
    | (.ok _, s) => x () s fun r s => .later fun _ => k r (leave s)

/-- Perform a task to its end. -/
def run (x : Task Value) (s : Session) : Ending := (x s fun r s => .done (r, s)).finish

end Task

instance : Carrier Task where
  pure := Task.pure
  bind := Task.bind
  act := Task.act
  attempt := Task.attempt
  within := Task.within

end StuffScript
