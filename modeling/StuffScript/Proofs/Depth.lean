import StuffScript.Proofs.SingleActions
import StuffScript.Proofs.Termination

/-!
# Evaluating at a smaller depth

How deep an evaluation is matters only for when it fails for want of levels. An evaluation that does not
fail so goes the same way from every smaller depth. This asks of the host that its functions pass such
failures on; a function that hides them can return something else when there are more levels.

The main statement is `Session.eval_at_smaller_depth`.
-/

namespace StuffScript

/-- From every smaller depth the second action does what the first one does, unless that fails for want
of levels. -/
structure Action.Rises {α : Type} (x y : Action α) : Prop where
  evolves : x.Evolving (fun _ => True) 0
  same : ∀ (s : Session) (depth : Nat), depth ≤ s.depth →
    Outcome.Exhausted (x s).1 ∨ y { s with depth := depth } = ((x s).1, { (x s).2 with depth := depth })

namespace Action.Rises

variable {α β : Type}

/-- Giving a result is the same at every depth. -/
theorem pure (a : α) : Rises (Pure.pure a) (Pure.pure a) where
  evolves s _ := .refl s
  same _ _ _ := .inr rfl

/-- A single action does not look at the depth. -/
theorem act {x : Action α} (h : x.Single) : Rises x x where
  evolves := h.evolving
  same s depth _ := by
    right
    rcases h.blind s with ⟨a, t, hx⟩ | ⟨f, t, _, hx⟩
    · rw [hx depth s.calls, show x s = _ from hx s.depth s.calls]
    · rw [hx depth s.calls, show x s = _ from hx s.depth s.calls]

/-- One after another goes the same way if both do. -/
theorem bind {x y : Action α} {f g : α → Action β} (hx : Rises x y) (hf : ∀ a, Rises (f a) (g a)) :
    Rises (x >>= f) (y >>= g) where
  evolves := hx.evolves.bind fun a => (hf a).evolves
  same s depth hdepth := by
    have hsame := hx.same s depth hdepth
    have hsettled := (hx.evolves s (Nat.zero_le _)).settled
    rw [Action.bind_apply, Action.bind_apply]
    revert hsame hsettled
    rcases x s with ⟨r, t⟩
    rintro (⟨e, rfl, hkind⟩ | hy) hsettled
    · exact .inl ⟨e, rfl, hkind⟩
    · rw [hy]
      cases r with
      | error e => exact .inr rfl
      | ok a => exact (hf a).same t depth (hdepth.trans hsettled.depth.ge)

/-- A call goes the same way if what is done in it does. -/
theorem calling {x y : Action Value} (name : String) (h : Rises x y) :
    Rises (Action.within (Action.pushCall name) Action.popCall fun _ => x)
      (Action.within (Action.pushCall name) Action.popCall fun _ => y) where
  evolves := h.evolves.calling name
  same s depth hdepth := by
    refine (h.same { s with calls := name :: s.calls } depth hdepth).imp_right fun hy => ?_
    simp only [Action.within, Action.pushCall, hy]
    rfl

/-- Where an entry is let in, it is let in at every smaller depth. -/
theorem deeper {x y : Action Value} (h : Rises x y) :
    Rises (Action.within Action.enter Action.leave fun _ => x)
      (Action.within Action.enter Action.leave fun _ => y) where
  evolves := h.evolves.deeper
  same s depth hdepth := by
    by_cases hlt : s.depth < s.limit
    · have hless : depth < s.limit := Nat.lt_of_le_of_lt hdepth hlt
      rw [Action.within_enter_of_lt x hlt,
        Action.within_enter_of_lt y (s := { s with depth := depth }) hless]
      refine (h.same { s with depth := s.depth + 1 } (depth + 1) (Nat.succ_le_succ hdepth)).imp_right
        fun hy => ?_
      simp only [hy]
      rfl
    · rw [Action.within_enter_of_not_lt x hlt]
      exact .inl (s.exhausted_failure s.limit)

/-- Calls that a host function makes and catches the failures of. -/
theorem attempt_bind {x y : Action Value} {f g : Outcome Value → Action Value} (hx : Rises x y)
    (hfail : ∀ r : Outcome Value, r.Exhausted → ∀ s, Outcome.Exhausted (f r s).1)
    (hf : ∀ r, Rises (f r) (g r)) : Rises (Action.attempt x >>= f) (Action.attempt y >>= g) where
  evolves := Action.Evolving.bind (x := Action.attempt x) hx.evolves fun r => (hf r).evolves
  same s depth hdepth := by
    have hsettled := (hx.evolves s (Nat.zero_le _)).settled
    change Outcome.Exhausted (f (x s).1 (x s).2).1 ∨
      g (y { s with depth := depth }).1 (y { s with depth := depth }).2 = _
    refine (hx.same s depth hdepth).elim (fun hcut => .inl (hfail _ hcut _)) fun hy => ?_
    rw [hy]
    exact (hf (x s).1).same (x s).2 depth (hdepth.trans hsettled.depth.ge)

end Action.Rises

/-- Going the same way from smaller depths as an agreement on the rules for one level. -/
def rising {host : Host} (hhost : host.PassesOn) : StepAgreement host Action Action where
  holds := Action.Rises
  pure := .pure
  bind := .bind
  act := .act
  calling := .calling
  native f args _ _ h := (f.program_passesOn hhost args).perform_related (R := Action.Rises)
    .bind .act .attempt_bind h

/-- Evaluating with so many levels goes the same way from every smaller depth, unless it fails for want of
levels. -/
theorem evalIn_roundIn_rises {host : Host} (hhost : host.PassesOn) (levels : Nat) :
    (rising hhost).Evaluates (evalIn host levels) (Action.eval host) ∧
      (rising hhost).Repeats (roundIn host levels) (Action.round host) := by
  have hexhausted (y : Action Value) : Action.Rises Action.exhausted y :=
    ⟨fun s _ => .refl s, fun s _ _ => .inl (s.exhausted_failure s.limit)⟩
  refine @RuleAgreement.of_levels Action Action _ _ (evalIn host) (fun _ => Action.eval host)
    (roundIn host) (fun _ => Action.round host) (fun k => callValue host (evalIn host k))
    (fun _ => callValue host (Action.eval host)) (fun _ => (rising hhost).toRuleAgreement)
    (fun _ => (rising hhost).callValue) (fun e scope => ?_)
    (fun first test update body isFirst scope => ?_) (fun k e scope hstep => ?_)
    (fun k first test update body isFirst scope hstep => ?_) levels
  · rw [evalIn_zero]
    exact hexhausted _
  · rw [roundIn_zero]
    exact hexhausted _
  · rw [evalIn, Action.eval_eq, ← evalStepCalling_callValue, ← evalStepCalling_callValue]
    exact hstep.deeper
  · rw [roundIn, Action.round_eq]
    exact hstep.deeper

/-- Evaluation that does not fail for want of levels goes the same way from every smaller depth. -/
theorem Session.eval_at_smaller_depth {host : Host} (hhost : host.PassesOn) (e : Expr) (σ : ScopeId)
    (s : Session) {depth : Nat} (h : depth ≤ s.depth) : (s.eval host e σ).1.Exhausted ∨
      { s with depth := depth }.eval host e σ =
        ((s.eval host e σ).1, { (s.eval host e σ).2 with depth := depth }) := by
  have hsame := ((evalIn_roundIn_rises hhost s.levels).1 e σ).same s depth h
  rwa [← Session.eval_eq] at hsame

end StuffScript
