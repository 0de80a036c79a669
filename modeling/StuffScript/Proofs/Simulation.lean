import StuffScript.Proofs.Builtins

/-!
# Simulations between sessions

Two actions simulate each other under a relation between sessions if from related sessions they end in
the same way, in sessions that are related again. This is kept by everything that evaluation is put
together from, as long as related sessions are in the same calls and as far from the same limit. Operators
ask their operands for numbers and compare them, and depend on nothing else of them.
-/

namespace StuffScript

/-- Related sessions are as deep, under the same limit, and in the same calls. -/
structure Session.Coupling (S : Session → Session → Prop) : Prop where
  limit {s t : Session} : S s t → t.limit = s.limit
  depth {s t : Session} : S s t → t.depth = s.depth
  calls {s t : Session} : S s t → t.calls = s.calls
  atDepth {s t : Session} (depth : Nat) : S s t → S { s with depth := depth } { t with depth := depth }
  inCalls {s t : Session} (calls : List String) : S s t →
    S { s with calls := calls } { t with calls := calls }

/-- Faults with the same error fail in the same way in coupled sessions. -/
theorem Session.Coupling.failure_eq {S : Session → Session → Prop} (hS : Session.Coupling S)
    {s t : Session} (h : S s t) {f g : Fault} (hfg : f.error = g.error) : t.failure g = s.failure f := by
  rw [Session.failure, Session.failure, hS.calls h, hfg]

/-- From related sessions two actions end in the same way, in related sessions. -/
def Action.Simulates {α β : Type} (S : Session → Session → Prop) (R : α → β → Prop) (x : Action α)
    (y : Action β) : Prop :=
  ∀ s t : Session, S s t → Outcome.Matches R (x s).1 (y t).1 ∧ S (x s).2 (y t).2

namespace Action.Simulates

variable {S : Session → Session → Prop}

/-- One action after another is simulated, if each of them is. -/
theorem bind {α β γ δ : Type} {R : α → β → Prop} {T : γ → δ → Prop} {x : Action α} {y : Action β}
    {f : α → Action γ} {g : β → Action δ} (hx : Simulates S R x y)
    (hf : ∀ a b, R a b → Simulates S T (f a) (g b)) : Simulates S T (x >>= f) (y >>= g) := by
  intro s t h
  rw [Action.bind_apply, Action.bind_apply]
  obtain ⟨hmatch, hafter⟩ := hx s t h
  revert hmatch hafter
  generalize x s = p
  generalize y t = q
  obtain ⟨r, s'⟩ := p
  obtain ⟨r', t'⟩ := q
  intro hmatch hafter
  cases hmatch with
  | @ok a b hab => exact hf a b hab s' t' hafter
  | error e => exact ⟨.error e, hafter⟩

/-- What is given to whom asks how an action ended. -/
theorem attempt {α β : Type} {R : α → β → Prop} {x : Action α} {y : Action β}
    (hx : Simulates S R x y) :
    Simulates S (Outcome.Matches R) (Action.attempt x) (Action.attempt y) := by
  intro s t h
  obtain ⟨hmatch, hafter⟩ := hx s t h
  exact ⟨.ok hmatch, hafter⟩

section Coupled

variable (hS : Session.Coupling S)
include hS

/-- Coupled sessions are as far from the limit. -/
theorem deeper {R : Value → Value → Prop} {x y : Action Value} (hx : Simulates S R x y) :
    Simulates S R (Action.within Action.enter Action.leave fun _ => x)
      (Action.within Action.enter Action.leave fun _ => y) := by
  intro s t h
  have hdepth := hS.depth h
  have hlimit := hS.limit h
  by_cases hs : s.depth < s.limit
  · have ht : t.depth < t.limit := by rwa [hdepth, hlimit]
    rw [Action.within_enter_of_lt x hs, Action.within_enter_of_lt y ht, hdepth]
    obtain ⟨hmatch, hafter⟩ := hx _ _ (hS.atDepth (s.depth + 1) h)
    refine ⟨hmatch, ?_⟩
    rw [Action.leave, Action.leave, hS.depth hafter]
    exact hS.atDepth _ hafter
  · have ht : ¬ t.depth < t.limit := by rwa [hdepth, hlimit]
    rw [Action.within_enter_of_not_lt x hs, Action.within_enter_of_not_lt y ht, hlimit,
      hS.failure_eq h rfl]
    exact ⟨.error _, h⟩

/-- What is performed within a call is simulated, if it is by itself. -/
theorem calling {R : Value → Value → Prop} {x y : Action Value} (hx : Simulates S R x y)
    (name : String) :
    Simulates S R (Action.within (Action.pushCall name) Action.popCall fun _ => x)
      (Action.within (Action.pushCall name) Action.popCall fun _ => y) := by
  intro s t h
  have hinside := hS.inCalls (name :: s.calls) h
  nth_rewrite 2 [← hS.calls h] at hinside
  obtain ⟨hmatch, hafter⟩ := hx _ _ hinside
  refine ⟨hmatch, ?_⟩
  have houtside := hS.inCalls (x { s with calls := name :: s.calls }).2.calls.tail hafter
  nth_rewrite 2 [← hS.calls hafter] at houtside
  exact houtside

/-- Coupled sessions fail alike. -/
theorem raise {α β : Type} {R : α → β → Prop} {f g : Fault} (hfg : f.error = g.error) :
    Simulates S R (Action.raise f) (Action.raise g) := by
  intro s t h
  rw [Action.raise, Action.raise, hS.failure_eq h hfg]
  exact ⟨.error _, h⟩

/-- Coupled sessions run out of levels alike. -/
theorem exhausted {R : Value → Value → Prop} :
    Simulates S R Action.exhausted Action.exhausted := by
  intro s t h
  rw [Action.exhausted, Action.exhausted, hS.limit h, hS.failure_eq h rfl]
  exact ⟨.error _, h⟩

/-- Matching results are passed on alike. -/
theorem conclude {R : Value → Value → Prop} {r q : Outcome Value} (h : Outcome.Matches R r q) :
    Simulates S R (Action.conclude r) (Action.conclude q) := by
  intro s t hst
  cases h with
  | ok h => exact ⟨.ok h, hst⟩
  | error f =>
    rw [Action.conclude, Action.conclude, hS.calls hst]
    exact ⟨.error _, hst⟩

/-- Operators act in the same way on operands with the same numbers and texts that compare alike. -/
theorem operate {R : Value → Value → Prop} (hplain : ∀ v, v.isFunction = false → R v v) (op : String)
    {l l' r r' : Value} (hequals : l.equals r = l'.equals r') (hl : l.SameReading l')
    (hr : r.SameReading r') : Simulates S R (Action.operate op l r) (Action.operate op l' r') := by
  intro s t h
  have hsame := applyOperator_congr op hequals hl hr
  simp only [Action.operate]
  cases hop : applyOperator op l r with
  | ok v =>
    cases hop' : applyOperator op l' r' with
    | error g =>
      rw [hop, hop'] at hsame
      cases hsame
    | ok u =>
      rw [hop, hop'] at hsame
      have huv : v = u := Except.ok.inj hsame
      exact ⟨.ok (huv ▸ hplain v (applyOperator_plain hop)), h⟩
  | error f =>
    cases hop' : applyOperator op l' r' with
    | error g =>
      rw [hop, hop'] at hsame
      exact raise hS (Except.error.inj hsame) s t h
    | ok u =>
      rw [hop, hop'] at hsame
      cases hsame

end Coupled

end Action.Simulates

end StuffScript
