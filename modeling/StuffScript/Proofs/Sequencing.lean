import StuffScript.Proofs.Unfolding

/-!
# Programs one after another

A run starts at depth zero and outside every call, and it leaves a session so, however it ends. So where
one program is run after another, each of its expressions finds the session, with as many levels left, that
it would find in one program made of the expressions of both.

The main statement is `run_concatenated`, for every host and from every session.
-/

namespace StuffScript

/-- Expressions evaluated in two lots, one after the other, are evaluated as in one. -/
theorem lastOf_append (eval : Expr → Action Value) (v : Value) (es es' : List Expr) :
    lastOf eval v (es ++ es') = lastOf eval v es >>= fun u => lastOf eval u es' := by
  induction es generalizing v with
  | nil => simp only [List.nil_append, lastOf, pure_bind]
  | cons e es ih => simp only [List.cons_append, lastOf, ih, bind_assoc]

/-- The value from before is the result only where nothing is evaluated. -/
theorem lastOf_of_ne_nil (eval : Expr → Action Value) {es : List Expr} (h : es ≠ []) (v u : Value) :
    lastOf eval v es = lastOf eval u es := by
  cases es with
  | nil => exact absurd rfl h
  | cons e es => rfl

/-- Evaluate the expressions of a program one after another, the value being the last one's. -/
def Action.inOrder (host : Host) (v : Value) (es : List Expr) : Action Value :=
  lastOf (Action.eval host · Session.root) v es

namespace Session

/-- The session at depth zero and outside every call. -/
def rested (s : Session) : Session := { s with depth := 0, calls := [] }

variable {host : Host} {es : List Expr} {s t : Session}

/-- A program is run by evaluating its expressions in order, one level down. -/
theorem run_block (p : Span) (h : 0 < s.limit) :
    s.run host (.block p es) =
      Prod.map id Action.leave (Action.inOrder host (.bool false) es s.rested.entered) := by
  have heval := congrFun (Action.eval_eq host (.block p es) root) s.rested
  rw [Action.within_enter_of_lt _ h] at heval
  exact heval

/-- Without levels a program is not run at all. -/
theorem run_without_levels (program : Expr) (h : ¬ 0 < s.limit) :
    s.run host program = (.error (s.rested.failure (.stackExhausted s.limit)), s.rested) := by
  have heval := congrFun (Action.eval_eq host program root) s.rested
  rw [Action.within_enter_of_not_lt _ h] at heval
  exact heval

/-- Where an expression of a program fails, the ones after it are not evaluated. -/
theorem run_append_of_error {failure : Failure} (p : Span) (es' : List Expr) (h : 0 < s.limit)
    (hdone : Action.inOrder host (.bool false) es s.rested.entered = (.error failure, t)) :
    s.run host (.block p (es ++ es')) = (.error failure, Action.leave t) := by
  rw [run_block p h, Action.inOrder, lastOf_append, Action.bind_apply, ← Action.inOrder, hdone]
  rfl

/-- Where no expression of a program fails, the ones after it are evaluated in the session that is left. -/
theorem run_append_of_ok {v : Value} (p : Span) (es' : List Expr) (h : 0 < s.limit)
    (hdone : Action.inOrder host (.bool false) es s.rested.entered = (.ok v, t)) :
    s.run host (.block p (es ++ es')) = Prod.map id Action.leave (Action.inOrder host v es' t) := by
  rw [run_block p h, Action.inOrder, lastOf_append, Action.bind_apply, ← Action.inOrder, hdone]
  rfl

/-- And a program that is run next evaluates its expressions in that same session. -/
theorem run_after_ok {v : Value} (p : Span) (es' : List Expr) (h : 0 < s.limit)
    (hdone : Action.inOrder host (.bool false) es s.rested.entered = (.ok v, t)) :
    (Action.leave t).run host (.block p es') =
      Prod.map id Action.leave (Action.inOrder host (.bool false) es' t) := by
  have hsettled := (lastOf_evolving host root (.bool false) es s.rested.entered (Nat.zero_le _)).settled
  rw [← Action.inOrder, hdone] at hsettled
  have hlimit : 0 < (Action.leave t).limit := hsettled.limit ▸ h
  have hresumed : (Action.leave t).rested.entered = t := by
    obtain ⟨limit, scopes, depth, calls, console, nextId⟩ := t
    have hdepth : depth = 1 := hsettled.depth
    have hcalls : calls = [] := hsettled.calls
    rw [hdepth, hcalls]
    rfl
  rw [run_block p hlimit, hresumed]

end Session

/-- **Programs run one after another are run as their concatenation.** Take two lists of expressions, a
host and a session. If the program of the first list fails, the program of both lists together ends with
the same failure and in the same session, so with the same text printed and the same bindings in every
scope. If it succeeds, and the program of the second list is run in the session that it left, then the
program of both lists ends in the session in which the second one ends, whether or not that one fails
midway; it fails when and as the second one does, and unless the second list is empty it has its value. -/
theorem run_concatenated (host : Host) (p q r : Span) (es es' : List Expr) (s : Session) :
    let first := s.run host (.block p es)
    let second := first.2.run host (.block q es')
    let whole := s.run host (.block r (es ++ es'))
    (∀ failure, first.1 = .error failure → whole = first) ∧
      ∀ v, first.1 = .ok v →
        whole.2 = second.2 ∧ (∀ failure, whole.1 = .error failure ↔ second.1 = .error failure) ∧
          whole.1 = if es' = [] then .ok v else second.1 := by
  intro first second whole
  by_cases h : 0 < s.limit
  · have hfirst : first = _ := Session.run_block p h
    rcases hdone : Action.inOrder host (.bool false) es s.rested.entered with ⟨out, t⟩
    rw [hdone] at hfirst
    cases out with
    | error failure =>
      have hwhole : whole = _ := Session.run_append_of_error r es' h hdone
      rw [hfirst, hwhole]
      exact ⟨fun _ _ => rfl, fun v hv => by cases hv⟩
    | ok u =>
      have hwhole : whole = _ := Session.run_append_of_ok r es' h hdone
      have hsecond : second = _ :=
        (congrArg (fun o => o.2.run host (.block q es')) hfirst).trans (Session.run_after_ok q es' h hdone)
      rw [hfirst, hwhole, hsecond]
      refine ⟨fun _ hf => (by cases hf), fun v hv => ?_⟩
      obtain rfl : u = v := Except.ok.inj hv
      by_cases hes : es' = []
      · subst hes
        exact ⟨rfl, fun _ => ⟨fun hf => (by cases hf), fun hf => by cases hf⟩, rfl⟩
      · rw [if_neg hes, Action.inOrder, lastOf_of_ne_nil _ hes u (.bool false)]
        exact ⟨rfl, fun _ => .rfl, rfl⟩
  · have hfirst : first = _ := Session.run_without_levels _ h
    have hwhole : whole = _ := Session.run_without_levels _ h
    rw [hwhole, hfirst]
    exact ⟨fun _ _ => rfl, fun v hv => by cases hv⟩

/-- After `x = "a"` the program `print(x) y` prints and then fails, and so does the program of all three
expressions; the program `y x = "a"` stops where `y` does. -/
theorem run_concatenated_midway :
    let here : Span := ⟨1, 1⟩
    let set := Expr.assign here (.ident here "x") (.string here "a")
    let print := Expr.call here (.ident here "print") [.ident here "x"]
    let missing := Expr.ident here "y"
    let s := (Session.new 20).register
    let first := s.run Host.none (.block here [set])
    let second := first.2.run Host.none (.block here [print, missing])
    let stopped := s.run Host.none (.block here [missing])
    first.1.isOk = true ∧ second.1.isOk = false ∧ second.2.console.written = "a\n" ∧
      s.run Host.none (.block here [set, print, missing]) = second ∧
      stopped.1.isOk = false ∧ s.run Host.none (.block here [missing, set]) = stopped := by
  intro here set print missing s first second stopped
  have hfirst : first.1.isOk = true := by decide +kernel
  have hstopped : stopped.1.isOk = false := by decide +kernel
  refine ⟨hfirst, by decide +kernel, by decide +kernel, ?_, hstopped, ?_⟩
  · cases hout : first.1 with
    | error failure =>
      rw [hout] at hfirst
      cases hfirst
    | ok v =>
      have h := (run_concatenated Host.none here here here [set] [print, missing] s).2 v hout
      exact Prod.ext h.2.2 h.1
  · cases hout : stopped.1 with
    | error failure => exact (run_concatenated Host.none here here here [missing] [set] s).1 failure hout
    | ok v =>
      rw [hout] at hstopped
      cases hstopped

end StuffScript
