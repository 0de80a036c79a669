import StuffScript.Evaluation.Agreement

/-!
# Tasks perform actions

Evaluating by tasks and evaluating by actions come to the same. The main statement is `performance`:
tasks agree with actions, in that a task hands its continuation exactly what its action ends in.
-/

namespace StuffScript

/-- One action after another: the second goes on from the session that the first leaves, unless that failed.
-/
theorem Action.bind_apply {α β : Type} (x : Action α) (f : α → Action β) (s : Session) :
    (x >>= f) s = match x s with
      | (.ok a, s) => f a s
      | (.error e, s) => (.error e, s) := by
  show (ExceptT.bind x f) s = _
  simp only [ExceptT.bind, ExceptT.mk, ExceptT.bindCont, bind, StateT.bind]
  cases x s with
  | mk r s => cases r <;> rfl

/-- A task performs an action when it hands on what the action ends in. -/
def Task.Performs {α : Type} (t : Task α) (x : Action α) : Prop :=
  ∀ s k, (t s k).finish = (k (x s).1 (x s).2).finish

/-- One task after another performs what one action after another does. -/
theorem Task.Performs.bind {α β : Type} {t : Task α} {x : Action α} {f : α → Task β}
    {g : α → Action β} (ht : t.Performs x) (hf : ∀ a, (f a).Performs (g a)) :
    Task.Performs (t >>= f) (x >>= g) := by
  intro s k
  show (Task.bind t f s k).finish = _
  rw [Action.bind_apply, Task.bind, ht]
  cases x s with
  | mk r s =>
    cases r with
    | ok a => exact hf a s k
    | error e => rfl

/-- Looking at the outcome of a task is looking at the outcome of its action. -/
theorem Task.Performs.attempt {α : Type} {t : Task α} {x : Action α} (ht : t.Performs x) :
    Task.Performs (Carrier.attempt t) (Action.attempt x) := by
  intro s k
  show (Task.attempt t s k).finish = _
  rw [Task.attempt, ht]
  rfl

/-- A task between an entry and an exit performs what the action does between them. -/
theorem Task.Performs.within {α : Type} {t : Unit → Task α} {x : Unit → Action α}
    (enter : Action Unit) (leave : Session → Session) (ht : (t ()).Performs (x ())) :
    Task.Performs (Carrier.within enter leave t) (Action.within enter leave x) := by
  intro s k
  show (Task.within enter leave t s k).finish = _
  simp only [Task.within, Action.within, Paused.finish]
  cases enter s with
  | mk r s =>
    cases r with
    | error e => rfl
    | ok _ =>
      rw [ht]
      rfl

/-- Tasks agree with the actions that they perform. -/
def performance : Agreement Task Action where
  holds := Task.Performs
  pure _ _ _ := rfl
  bind ht hf := ht.bind hf
  act _ _ _ := rfl
  attempt ht := ht.attempt
  deeper ht := ht.within Action.enter Action.leave
  calling name ht := ht.within (Action.pushCall name) Action.popCall

/-- Performing a task to its end gives what its action ends in. -/
theorem Task.Performs.run_eq {t : Task Value} {x : Action Value} (h : t.Performs x) (s : Session) :
    t.run s = x s := by
  rw [Task.run, h]
  rfl

end StuffScript
