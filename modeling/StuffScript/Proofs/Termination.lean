import StuffScript.Proofs.PassingOn
import StuffScript.Proofs.Unfolding
import StuffScript.Proofs.WriteHistory

/-!
# Evaluation comes to an end

Evaluation is carried out with a number of levels, which a program cannot see and which it might seem to
need in order to stop. Here the rules are tied together without it: an evaluation goes deeper as long as
the entry to a level lets it. Such an evaluation need not return. So it is given a number of activations
that may be nested at any time, and is given up where that is not enough. The steps that it takes are
counted. Where the session's own limit guards the entry, nothing is ever given up.

Without any guard, an evaluation that is given up however many activations it may nest would go on for
ever. With the limit it is refused an entry, which is a failure for want of levels. Nothing in the language
catches a failure, so where expressions and closures alone nest without end, the evaluation as a whole ends
in that failure. Only a host function can keep it to itself: it is handed the failure, if it had the closure
called that failed. So the failures that are handed over are listed beside the steps.

The main statement is `evaluation_returns`.
-/

namespace StuffScript

/-- What a computation takes: its steps, and the failures of calls that were handed to the host functions
which had made them. -/
structure Effort where
  steps : Nat
  handed : List Failure

instance : Add Effort := ⟨fun a b => ⟨a.steps + b.steps, a.handed ++ b.handed⟩⟩

/-- Failing for want of levels. -/
def Failure.WantsLevels (f : Failure) : Prop := f.hasKind .stackExhausted = true

/-- A host function was handed a failure for want of levels. -/
def Effort.Handed (effort : Effort) : Prop := ∃ f ∈ effort.handed, f.WantsLevels

/-- What is handed over first is handed over in the course of both. -/
theorem Effort.Handed.add_right {first : Effort} (h : first.Handed) (second : Effort) :
    (first + second).Handed := by
  obtain ⟨f, hf, hkind⟩ := h
  exact ⟨f, List.mem_append_left _ hf, hkind⟩

/-- What is handed over later is handed over in the course of both. -/
theorem Effort.Handed.add_left {second : Effort} (h : second.Handed) (first : Effort) :
    (first + second).Handed := by
  obtain ⟨f, hf, hkind⟩ := h
  exact ⟨f, List.mem_append_right _ hf, hkind⟩

/-- A computation that may be given up. If it is not, it has an ending and takes some effort. -/
def Tentative (α : Type) : Type := Session → Option ((Outcome α × Session) × Effort)

namespace Tentative

/-- Give a result. -/
def pure {α : Type} (a : α) : Tentative α := fun s => some ((.ok a, s), ⟨0, []⟩)

/-- One after another, and the effort of both. -/
def bind {α β : Type} (x : Tentative α) (f : α → Tentative β) : Tentative β := fun s =>
  match x s with
  | none => none
  | some ((.error e, t), effort) => some ((.error e, t), effort)
  | some ((.ok a, t), effort) => (f a t).map fun r => (r.1, effort + r.2)

/-- Perform an action, which is one step. -/
def act {α : Type} (x : Action α) : Tentative α := fun s => some (x s, ⟨1, []⟩)

/-- Perform, and hand a failure over as a result. -/
def attempt {α : Type} (x : Tentative α) : Tentative (Outcome α) := fun s =>
  (x s).map fun r => ((.ok r.1.1, r.1.2), r.2 + ⟨0, r.1.1.toFailure?.toList⟩)

/-- Perform between an entry, which is one step and may be refused, and an exit. -/
def within {α : Type} (enter : Action Unit) (leave : Session → Session) (x : Unit → Tentative α) :
    Tentative α := fun s =>
  match enter s with
  | (.error e, t) => some ((.error e, t), ⟨1, []⟩)
  | (.ok _, t) => (x () t).map fun r => ((r.1.1, leave r.1.2), r.2 + ⟨1, []⟩)

/-- Give up. -/
def giveUp {α : Type} : Tentative α := fun _ => none

end Tentative

instance : Carrier Tentative where
  pure := Tentative.pure
  bind := Tentative.bind
  act := Tentative.act
  attempt := Tentative.attempt
  within := Tentative.within

/-- Go one level deeper, whatever the limit. -/
def Action.descend : Action Unit := fun s => (.ok (), { s with depth := s.depth + 1 })

/-- A way to call values, given how to evaluate. -/
abbrev Calling := (eval : Expr → ScopeId → Tentative Value) → (name : String) → Value → List Value →
  Tentative Value

mutual

/-- Evaluate an expression with so many activations nested at most, each entered in a given way. -/
def evalUpTo (call : Calling) (enter : Action Unit) : (nested : Nat) → Expr → ScopeId → Tentative Value
  | 0, _, _ => Carrier.within enter Action.leave fun _ => Tentative.giveUp
  | nested + 1, e, scope => Carrier.within enter Action.leave fun _ =>
    evalStepCalling (call (evalUpTo call enter nested)) (evalUpTo call enter nested)
      (roundUpTo call enter nested) e scope

/-- A round of a counted loop, and the rounds after it, with so many activations nested at most. -/
def roundUpTo (call : Calling) (enter : Action Unit) :
    (nested : Nat) → (first test update body : Expr) → (isFirst : Bool) → ScopeId → Tentative Value
  | 0, _, _, _, _, _, _ => Carrier.within enter Action.leave fun _ => Tentative.giveUp
  | nested + 1, first, test, update, body, isFirst, scope =>
    Carrier.within enter Action.leave fun _ =>
      roundStep (evalUpTo call enter nested) (roundUpTo call enter nested)
        first test update body isFirst scope

end

section Following

/-- From wherever a number of levels reaches the limit, the computation is not given up and ends as the
action does, unless the action ends in one of some failures. -/
structure Tentative.Follows {α : Type} (cut : Failure → Prop) (levels : Nat) (x : Action α)
    (y : Tentative α) : Prop where
  evolves : x.Evolving (fun _ => True) 0
  follows : ∀ s : Session, s.limit ≤ s.depth + levels →
    (∃ f, (x s).1 = .error f ∧ cut f) ∨ ∃ effort, y s = some (x s, effort)

/-- A way to enter a level lets in what the limit lets in. What the limit refuses it refuses as well, or
that is one of some failures. -/
structure Action.Entry (cut : Failure → Prop) (enter : Action Unit) : Prop where
  entered : ∀ s : Session, s.depth < s.limit → enter s = (.ok (), s.entered)
  refused : ∀ s : Session, ¬ s.depth < s.limit →
    cut (s.failure (.stackExhausted s.limit)) ∨
      enter s = (.error (s.failure (.stackExhausted s.limit)), s)

namespace Tentative.Follows

variable {α β : Type} {cut : Failure → Prop} {levels : Nat}

/-- The action leaves levels and calls as they were. -/
theorem settled {x : Action α} {y : Tentative α} (h : Follows cut levels x y) (s : Session) :
    s.Settled (x s).2 :=
  (h.evolves s (Nat.zero_le _)).settled

/-- Giving a result is never given up. -/
theorem pure (a : α) : Follows cut levels (Pure.pure a) (Pure.pure a : Tentative α) where
  evolves s _ := .refl s
  follows _ _ := .inr ⟨⟨0, []⟩, rfl⟩

/-- One after another follows if both do. -/
theorem bind {x : Action α} {y : Tentative α} {f : α → Action β} {g : α → Tentative β}
    (hx : Follows cut levels x y) (hf : ∀ a, Follows cut levels (f a) (g a)) :
    Follows cut levels (x >>= f) (y >>= g) where
  evolves := hx.evolves.bind fun a => (hf a).evolves
  follows s hs := by
    have hfollows := hx.follows s hs
    have hsettled := hx.settled s
    change _ ∨ ∃ effort, Tentative.bind y g s = _
    rw [Action.bind_apply, Tentative.bind]
    revert hfollows hsettled
    rcases x s with ⟨r, t⟩
    rintro (⟨e, rfl, hcut⟩ | ⟨effort, hy⟩) hsettled
    · exact .inl ⟨e, rfl, hcut⟩
    · rw [hy]
      cases r with
      | error e => exact .inr ⟨effort, rfl⟩
      | ok a =>
        have hlimit : t.limit = s.limit := hsettled.limit
        have hdepth : t.depth = s.depth := hsettled.depth
        refine ((hf a).follows t (by omega)).imp_right fun hreturns => ?_
        obtain ⟨more, hg⟩ := hreturns
        exact ⟨effort + more, by simp only [hg, Option.map_some]⟩

/-- A single action is never given up. -/
theorem act {x : Action α} (h : x.Single) : Follows cut levels x (Carrier.act x : Tentative α) where
  evolves := h.evolving
  follows _ _ := .inr ⟨⟨1, []⟩, rfl⟩

/-- A call follows if what is done in it does. -/
theorem calling {x : Action Value} {y : Tentative Value} (name : String) (h : Follows cut levels x y) :
    Follows cut levels (Action.within (Action.pushCall name) Action.popCall fun _ => x)
      (Carrier.within (Action.pushCall name) Action.popCall fun _ => y) where
  evolves := h.evolves.calling name
  follows s hs := by
    refine (h.follows { s with calls := name :: s.calls } hs).imp_right fun hreturns => ?_
    obtain ⟨effort, hy⟩ := hreturns
    refine ⟨effort + ⟨1, []⟩, ?_⟩
    change (y { s with calls := name :: s.calls }).map _ = _
    rw [hy]
    rfl

/-- At the limit nothing is entered, and it does not matter what would be done. -/
theorem refused {enter : Action Unit} (henter : enter.Entry cut) {s : Session} (h : ¬ s.depth < s.limit)
    (x : Action Value) (y : Tentative Value) :
    (∃ f, (Action.within Action.enter Action.leave (fun _ => x) s).1 = .error f ∧ cut f) ∨
      ∃ effort, Tentative.within enter Action.leave (fun _ => y) s =
        some (Action.within Action.enter Action.leave (fun _ => x) s, effort) := by
  rw [Action.within_enter_of_not_lt x h]
  refine (henter.refused s h).imp (fun hcut => ⟨_, rfl, hcut⟩) fun hrefused => ?_
  rw [Tentative.within, hrefused]
  exact ⟨_, rfl⟩

/-- One more level reaches the limit from one level further up. -/
theorem deeper {enter : Action Unit} (henter : enter.Entry cut) {x : Action Value} {y : Tentative Value}
    (h : Follows cut levels x y) :
    Follows cut (levels + 1) (Action.within Action.enter Action.leave fun _ => x)
      (Carrier.within enter Action.leave fun _ => y) where
  evolves := h.evolves.deeper
  follows s hs := by
    change _ ∨ ∃ effort, Tentative.within enter Action.leave (fun _ => y) s = _
    by_cases hlt : s.depth < s.limit
    · have hin : s.limit ≤ s.depth + 1 + levels := by omega
      rw [Action.within_enter_of_lt x hlt]
      refine (h.follows { s with depth := s.depth + 1 } hin).imp_right fun hreturns => ?_
      obtain ⟨effort, hy⟩ := hreturns
      refine ⟨effort + ⟨1, []⟩, ?_⟩
      simp only [Tentative.within, henter.entered s hlt, Session.entered, hy, Option.map_some]
    · exact refused henter hlt x y

/-- Where no level is left, nothing is given up since nothing is entered. -/
theorem exhausted {enter : Action Unit} (henter : enter.Entry cut) {x : Action Value}
    (hx : (Action.within Action.enter Action.leave fun _ => x).Evolving (fun _ => True) 0) :
    Follows cut 0 (Action.within Action.enter Action.leave fun _ => x)
      (Carrier.within enter Action.leave fun _ => (Tentative.giveUp : Tentative Value)) where
  evolves := hx
  follows s hs := by
    have hnot : ¬ s.depth < s.limit := by omega
    exact refused henter hnot x giveUp

end Tentative.Follows

/-- Following as an agreement on the rules for one level. -/
def following (cut : Failure → Prop) (levels : Nat) : RuleAgreement Action Tentative where
  holds := Tentative.Follows cut levels
  pure := .pure
  bind := .bind
  act := .act

end Following

section Returning

/-- Where no failure is excepted, catching a failure follows. -/
theorem Tentative.Follows.attempt {α : Type} {levels : Nat} {x : Action α} {y : Tentative α}
    (h : Follows (fun _ => False) levels x y) :
    Follows (fun _ => False) levels (Action.attempt x) (Carrier.attempt y) where
  evolves := h.evolves
  follows s hs := by
    rcases h.follows s hs with ⟨_, _, hcut⟩ | ⟨effort, hy⟩
    · exact hcut.elim
    · refine .inr ⟨effort + ⟨0, (Outcome.toFailure? (x s).1).toList⟩, ?_⟩
      change Tentative.attempt y s = _
      rw [Tentative.attempt, hy]
      rfl

/-- Returning as an agreement on the rules for one level, whatever host functions do. -/
def returning (host : Host) (levels : Nat) : StepAgreement host Action Tentative where
  toRuleAgreement := following (fun _ => False) levels
  calling := .calling
  native f args _ _ h := HostProgram.perform_related (R := Tentative.Follows (fun _ => False) levels)
    .bind .act .attempt h (f.program host args)

/-- What follows with no failure excepted returns. -/
theorem Tentative.Follows.returns {α : Type} {levels : Nat} {x : Action α} {y : Tentative α}
    (h : Follows (fun _ => False) levels x y) {s : Session} (hs : s.limit ≤ s.depth + levels) :
    ∃ effort, y s = some (x s, effort) :=
  (h.follows s hs).resolve_left fun hcut => hcut.elim fun _ hf => hf.2

end Returning

section Handing

/-- If the first computation neither fails for want of levels nor hands such a failure over, the second one
ends as it does. -/
def Tentative.Unhindered {α : Type} (x y : Tentative α) : Prop :=
  ∀ s r effort, x s = some (r, effort) →
    Outcome.Exhausted r.1 ∨ effort.Handed ∨ ∃ effort', y s = some (r, effort')

namespace Tentative.Unhindered

variable {α β : Type}

/-- Nothing is refused where no level is entered. -/
theorem refl (x : Tentative α) : Unhindered x x := fun _ _ effort h => .inr (.inr ⟨effort, h⟩)

/-- One after another is unhindered if both are. -/
theorem bind {x y : Tentative α} {f g : α → Tentative β} (hx : Unhindered x y)
    (hf : ∀ a, Unhindered (f a) (g a)) : Unhindered (x >>= f) (y >>= g) := by
  intro s r effort h
  change Tentative.bind x f s = some (r, effort) at h
  change _ ∨ _ ∨ ∃ effort', Tentative.bind y g s = _
  rw [Tentative.bind] at h ⊢
  have hxs := hx s
  revert h hxs
  rcases x s with _ | ⟨⟨q, t⟩, first⟩
  · intro h
    cases h
  · intro h hxs
    rcases hxs (q, t) first rfl with ⟨e, rfl, hkind⟩ | hhanded | ⟨first', hy⟩
    · cases h
      exact .inl ⟨e, rfl, hkind⟩
    · right
      left
      cases q with
      | error e =>
        cases h
        exact hhanded
      | ok a =>
        obtain ⟨rest, _, hrest⟩ := Option.map_eq_some_iff.mp h
        cases hrest
        exact hhanded.add_right _
    · rw [hy]
      cases q with
      | error e =>
        cases h
        exact .inr (.inr ⟨first', rfl⟩)
      | ok a =>
        obtain ⟨⟨r', second⟩, hsecond, hrest⟩ := Option.map_eq_some_iff.mp h
        cases hrest
        refine (hf a t r' second hsecond).imp_right (Or.imp (fun hhanded => hhanded.add_left _) ?_)
        rintro ⟨second', hg⟩
        exact ⟨first' + second', by simp only [hg, Option.map_some]⟩

/-- A failure for want of levels is handed over where it is caught. -/
theorem attempt {x y : Tentative α} (h : Unhindered x y) :
    Unhindered (Carrier.attempt x : Tentative (Outcome α)) (Carrier.attempt y) := by
  intro s r effort hr
  obtain ⟨⟨q, inner⟩, hx, hq⟩ := Option.map_eq_some_iff.mp (show Tentative.attempt x s = _ from hr)
  cases hq
  right
  rcases h s q inner hx with ⟨e, he, hkind⟩ | hhanded | ⟨inner', hy⟩
  · refine .inl (Effort.Handed.add_left ⟨e, ?_, hkind⟩ inner)
    rw [he]
    exact List.mem_singleton_self e
  · exact .inl (hhanded.add_right _)
  · refine .inr ⟨inner' + ⟨0, q.1.toFailure?.toList⟩, ?_⟩
    change (y s).map _ = _
    rw [hy]
    rfl

/-- What is entered in the same way is unhindered if what is done inside is. -/
theorem within {x y : Tentative α} (enter : Action Unit) (leave : Session → Session) (h : Unhindered x y) :
    Unhindered (Carrier.within enter leave fun _ => x : Tentative α)
      (Carrier.within enter leave fun _ => y) := by
  intro s r effort hr
  change Tentative.within enter leave (fun _ => x) s = _ at hr
  change _ ∨ _ ∨ ∃ effort', Tentative.within enter leave (fun _ => y) s = _
  rw [Tentative.within] at hr ⊢
  revert hr
  rcases enter s with ⟨q, t⟩
  cases q with
  | error e => exact fun hr => .inr (.inr ⟨effort, hr⟩)
  | ok u =>
    intro hr
    obtain ⟨⟨q, inner⟩, hx, hq⟩ := Option.map_eq_some_iff.mp hr
    cases hq
    refine (h t q inner hx).imp_right (Or.imp (fun hhanded => hhanded.add_right _) ?_)
    rintro ⟨inner', hy⟩
    exact ⟨inner' + ⟨1, []⟩, by simp only [hy, Option.map_some]⟩

/-- An entry that the limit does not refuse is made as if there were no limit. -/
theorem deeper {x y : Tentative α} (h : Unhindered x y) :
    Unhindered (Carrier.within Action.enter Action.leave fun _ => x : Tentative α)
      (Carrier.within Action.descend Action.leave fun _ => y) := by
  intro s r effort hr
  by_cases hlt : s.depth < s.limit
  · have hsame (y : Tentative α) : Tentative.within Action.enter Action.leave (fun _ => y) s =
        Tentative.within Action.descend Action.leave (fun _ => y) s := by
      simp only [Tentative.within, Action.enter, if_pos hlt, Action.descend]
    have hin := h.within Action.enter Action.leave s r effort hr
    rwa [show (Carrier.within Action.enter Action.leave fun _ => y : Tentative α) s = _ from hsame y] at hin
  · change Tentative.within Action.enter Action.leave (fun _ => x) s = _ at hr
    rw [Tentative.within, Action.enter, if_neg hlt] at hr
    cases hr
    exact .inl (Session.exhausted_failure s s.limit)

end Tentative.Unhindered

end Handing

section PassingOn

/-- Calls that a host function makes and catches the failures of. -/
theorem Tentative.Follows.attempt_bind {levels : Nat} {x : Action Value} {y : Tentative Value}
    {f : Outcome Value → Action Value} {g : Outcome Value → Tentative Value}
    (hx : Follows Failure.WantsLevels levels x y)
    (hfail : ∀ r : Outcome Value, r.Exhausted → ∀ s, Outcome.Exhausted (f r s).1)
    (hf : ∀ r, Follows Failure.WantsLevels levels (f r) (g r)) :
    Follows Failure.WantsLevels levels (Action.attempt x >>= f)
      ((Carrier.attempt y : Tentative (Outcome Value)) >>= g) where
  evolves := Action.Evolving.bind (x := Action.attempt x) hx.evolves fun r => (hf r).evolves
  follows s hs := by
    have hleft : (Action.attempt x >>= f) s = f (x s).1 (x s).2 := rfl
    have hsettled := hx.settled s
    rw [hleft]
    rcases hx.follows s hs with hcut | ⟨effort, hy⟩
    · exact .inl (hfail _ hcut _)
    · have hlimit := hsettled.limit
      have hdepth := hsettled.depth
      refine ((hf (x s).1).follows (x s).2 (by omega)).imp_right fun hreturns => ?_
      obtain ⟨more, hg⟩ := hreturns
      refine ⟨effort + ⟨0, (Outcome.toFailure? (x s).1).toList⟩ + more, ?_⟩
      change Tentative.bind (Tentative.attempt y) g s = _
      simp only [Tentative.bind, Tentative.attempt, hy, Option.map_some, hg]

end PassingOn

section Loops

/-- The action ends in a failure from a session. -/
def Action.Fails {α : Type} (x : Action α) (s : Session) : Prop := ∃ f : Failure, (x s).1 = .error f

/-- One action after another fails if the second does wherever the first has a result. -/
theorem Action.Fails.bind {α β : Type} {x : Action α} {f : α → Action β} {s : Session}
    (h : ∀ a t, x s = (.ok a, t) → (f a).Fails t) : (x >>= f).Fails s := by
  rw [Action.Fails, Action.bind_apply]
  cases hx : x s with
  | mk r t =>
    cases r with
    | error e => exact ⟨e, rfl⟩
    | ok a => exact h a t hx

/-- An action fails one level deeper if it fails there, or if there is no deeper level. -/
theorem Action.Fails.deeper {x : Action Value} {s : Session}
    (h : s.depth < s.limit → x.Fails s.entered) :
    Fails (Action.within Action.enter Action.leave fun _ => x) s := by
  by_cases hlt : s.depth < s.limit
  · rw [Fails, Action.within_enter_of_lt x hlt]
    exact h hlt
  · rw [Fails, Action.within_enter_of_not_lt x hlt]
    exact ⟨_, rfl⟩

variable (host : Host)

/-- From a session in which a counted loop begins a round, its first part is carried out if it is due,
and then the test is evaluated in the second session. -/
def Session.Prepares (first : Expr) (σ : ScopeId) (isFirst : Bool) (s t : Session) : Prop :=
  s.depth < s.limit ∧ ∃ due u v, Action.firstPartDue first isFirst σ s.entered = (.ok due, u) ∧
    evalIf due (Action.eval host · σ) first u = (.ok v, t)

/-- A round is prepared with as many levels left as it was entered with. -/
theorem Session.Prepares.levels_eq {first : Expr} {σ : ScopeId} {isFirst : Bool} {s t : Session}
    (h : s.Prepares host first σ isFirst t) : t.levels = s.entered.levels := by
  obtain ⟨_, due, u, v, hdue, hfirst⟩ := h
  have hu : u.levels = s.entered.levels := by
    have hevolving : (Action.firstPartDue first isFirst σ).Evolving (fun _ => True) 0 :=
      Action.firstPartDue_evolving first isFirst σ
    have hevolves := hevolving s.entered (Nat.zero_le _)
    rw [hdue] at hevolves
    exact hevolves.settled.levels_eq
  cases due with
  | false =>
    cases hfirst
    exact hu
  | true => exact (Session.levels_of_eval hfirst).trans hu

end Loops

section Endless

end Endless

end StuffScript
