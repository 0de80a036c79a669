import StuffScript.Proofs.Builtins
import StuffScript.Proofs.Evolution

/-!
# Raising the limit on depth

The limit on the depth of evaluation decides when a run is cut short and nothing else. A run that is
not cut short goes the same way under every higher limit, step by step, and ends in the same session
but for the limit itself. A run that is cut short has written what the longer run writes first. Nothing
in a program can catch the failure, so the run that is cut short writes nothing after it.

The main statement is `run_under_higher_limit`, about programs that call no host functions but the
ones every program starts with.
-/

namespace StuffScript

/-- The session with so many more levels allowed. -/
def Session.raised (extra : Nat) (s : Session) : Session := { s with limit := s.limit + extra }

/-- The outcome is a failure for want of levels. -/
def Outcome.Exhausted {α : Type} (r : Outcome α) : Prop :=
  ∃ f : Failure, r = .error f ∧ f.hasKind .stackExhausted = true

instance {α : Type} (r : Outcome α) : Decidable r.Exhausted :=
  match r with
  | .ok _ => isFalse (by rintro ⟨f, hf, -⟩; cases hf)
  | .error f => decidable_of_iff (f.hasKind .stackExhausted = true)
    ⟨fun h => ⟨f, rfl, h⟩, by rintro ⟨g, hg, h⟩; cases hg; exact h⟩

/-- Recording the calls in progress does not change the kind of a fault. -/
theorem Session.failure_hasKind (s : Session) (f : Fault) (kind : ErrorKind) :
    (s.failure f).hasKind kind = decide (f.kind = kind) := by
  unfold Session.failure Failure.recordCalls
  simp only [Failure.cause?]
  split <;> rfl

/-- Failing for want of levels is that kind of failure, inside calls as well. -/
theorem Session.exhausted_failure {α : Type} (s : Session) (limit : Nat) :
    Outcome.Exhausted (.error (s.failure (.stackExhausted limit)) : Outcome α) :=
  ⟨_, rfl, by rw [Session.failure_hasKind]; rfl⟩

/-- How a run compares with one that has more levels: it ends in the same way, or it is cut short
having written no more than the other. -/
inductive Agrees {α β : Type} (extra : Nat) (R : α → β → Prop) :
    Outcome α × Session → Outcome β × Session → Prop
  | same {r : Outcome α} {q : Outcome β} {t : Session} (h : Outcome.Matches R r q) :
    Agrees extra R (r, t) (q, t.raised extra)
  | cutShort {r : Outcome α} {q : Outcome β} {t u : Session} (h : r.Exhausted)
    (hwritten : t.WrittenBefore u) : Agrees extra R (r, t) (q, u)

/-- The second action goes on like the first where more levels are allowed. Taken by itself it only adds
to what is written, and its results are ones that the relation knows. -/
structure Action.Deepens {α β : Type} (extra : Nat) (R : α → β → Prop) (x : Action α)
    (y : Action β) : Prop where
  agrees : ∀ s : Session, Agrees extra R (x s) (y (s.raised extra))
  written : ∀ s : Session, s.WrittenBefore (y s).2
  results : ∀ (s : Session) (b : β), (y s).1 = .ok b → ∃ a, R a b

namespace Action

variable {extra : Nat}

/-- An action that does not look at the limit goes on like itself. -/
theorem Deepens.of_blind {α : Type} {R : α → α → Prop} (hR : ∀ a, R a a) {x : Action α}
    (hblind : ∀ s : Session, x (s.raised extra) = ((x s).1, (x s).2.raised extra))
    (hx : x.Evolving (fun _ => True) 0) : Deepens extra R x x where
  agrees s := by
    rw [hblind s]
    refine .same ?_
    cases (x s).1 with
    | ok a => exact .ok (hR a)
    | error f => exact .error f
  written s := (hx s (Nat.zero_le _)).settled.written
  results _ b _ := ⟨b, hR b⟩

/-- One action after another agrees under the higher limit, if each of them does. -/
theorem Deepens.bind {α β γ δ : Type} {R : α → β → Prop} {S : γ → δ → Prop} {x : Action α}
    {y : Action β} {f : α → Action γ} {g : β → Action δ} (hx : Deepens extra R x y)
    (hf : ∀ a b, R a b → Deepens extra S (f a) (g b)) : Deepens extra S (x >>= f) (y >>= g) where
  agrees s := by
    rw [Action.bind_apply, Action.bind_apply]
    have hxs := hx.agrees s
    have hys := hx.results (s.raised extra)
    revert hxs hys
    generalize x s = p
    generalize y (s.raised extra) = q
    intro hxs hys
    cases hxs with
    | @same _ _ t hmatch =>
      cases hmatch with
      | @ok a b hab => exact (hf a b hab).agrees t
      | error e => exact .same (.error e)
    | @cutShort r q t u hcut hwritten =>
      obtain ⟨e, rfl, hkind⟩ := hcut
      refine .cutShort ⟨e, rfl, hkind⟩ (hwritten.trans ?_)
      cases q with
      | error _ => exact .refl u
      | ok b =>
        -- The longer run goes on alone here, from a result that the shorter one never got.
        obtain ⟨a, hab⟩ := hys b rfl
        exact (hf a b hab).written u
  written s := by
    rw [Action.bind_apply]
    have hy := hx.written s
    have hys := hx.results s
    revert hy hys
    generalize y s = q
    intro hy hys
    obtain ⟨q, u⟩ := q
    cases q with
    | error _ => exact hy
    | ok b =>
      obtain ⟨a, hab⟩ := hys b rfl
      exact hy.trans ((hf a b hab).written u)
  results s d hd := by
    rw [Action.bind_apply] at hd
    have hys := hx.results s
    revert hys hd
    generalize y s = q
    intro hd hys
    obtain ⟨q, u⟩ := q
    cases q with
    | error _ => cases hd
    | ok b =>
      obtain ⟨a, hab⟩ := hys b rfl
      exact (hf a b hab).results u d hd

/-- Where the entry needs a level, the run with fewer levels may be cut short at it. -/
theorem Deepens.deeper {x y : Action Value} (h : Deepens extra Eq x y) :
    Deepens extra Eq (Action.within Action.enter Action.leave fun _ => x)
      (Action.within Action.enter Action.leave fun _ => y) := by
  have hwritten (s : Session) :
      s.WrittenBefore (Action.within Action.enter Action.leave (fun _ => y) s).2 := by
    by_cases hs : s.depth < s.limit
    · rw [Action.within_enter_of_lt y hs]
      exact h.written { s with depth := s.depth + 1 }
    · rw [Action.within_enter_of_not_lt y hs]
      exact .refl s
  refine ⟨fun s => ?_, hwritten, fun _ b _ => ⟨b, rfl⟩⟩
  by_cases hlow : s.depth < s.limit
  · have hhigh : (s.raised extra).depth < (s.raised extra).limit :=
      Nat.lt_of_lt_of_le hlow (Nat.le_add_right _ _)
    rw [Action.within_enter_of_lt x hlow, Action.within_enter_of_lt y hhigh]
    have hin := h.agrees { s with depth := s.depth + 1 }
    revert hin
    generalize x { s with depth := s.depth + 1 } = p
    change Agrees extra Eq p (y { s.raised extra with depth := (s.raised extra).depth + 1 }) → _
    generalize y { s.raised extra with depth := (s.raised extra).depth + 1 } = q
    intro hin
    cases hin with
    | @same _ _ t hmatch => exact .same (t := leave t) hmatch
    | cutShort hcut hbefore => exact .cutShort hcut hbefore
  · rw [Action.within_enter_of_not_lt x hlow]
    exact .cutShort (s.exhausted_failure _) (hwritten (s.raised extra))

/-- What is performed within a call agrees under the higher limit, if it does by itself. -/
theorem Deepens.calling {x y : Action Value} (h : Deepens extra Eq x y) (name : String) :
    Deepens extra Eq (Action.within (Action.pushCall name) Action.popCall fun _ => x)
      (Action.within (Action.pushCall name) Action.popCall fun _ => y) := by
  refine ⟨fun s => ?_, fun s => h.written { s with calls := name :: s.calls }, fun _ b _ => ⟨b, rfl⟩⟩
  have hin := h.agrees { s with calls := name :: s.calls }
  revert hin
  change _ → Agrees extra Eq ((x { s with calls := name :: s.calls }).1,
      popCall (x { s with calls := name :: s.calls }).2)
    ((y (Session.raised extra { s with calls := name :: s.calls })).1,
      popCall (y (Session.raised extra { s with calls := name :: s.calls })).2)
  generalize x { s with calls := name :: s.calls } = p
  generalize y (Session.raised extra { s with calls := name :: s.calls }) = q
  intro hin
  cases hin with
  | @same _ _ t hmatch => exact .same (t := popCall t) hmatch
  | cutShort hcut hbefore => exact .cutShort hcut hbefore

end Action

/-- Plain host functions do not look at the limit, nor at how calls are carried out. -/
theorem HostProgram.Plain.deepens {extra : Nat} {p : HostProgram} (h : p.Plain)
    (call call' : Closure → List Value → Action Value) :
    Action.Deepens extra Eq (p.perform call) (p.perform call') := by
  induction h with
  | @done result _ =>
    refine .of_blind (fun _ => rfl) (fun s => ?_) (fun s _ => ?_)
    · cases result <;> rfl
    · cases result <;> exact .refl s
  | @write text next _ ih =>
    have hwrite : Action.Deepens extra Eq (Action.write text) (Action.write text) := by
      refine .of_blind (fun _ => rfl) (fun s => ?_) (Action.write_evolving text)
      cases h : s.console.fault <;> simp [Action.write, Session.raised, h]
    refine hwrite.bind fun a b hab => ?_
    subst hab
    exact ih a

/-- Raising the limit as a correspondence of a run with the one that has more levels. -/
def deepening (extra : Nat) : Correspondence Unit Host.none Eq where
  scope _ := Eq
  value _ := Eq
  holds w R x y := Action.Deepens extra (R w) x y
  scope_later _ h := h
  value_later _ h := h
  alike := @Value.Alike.of_eq Unit
  plain _ := rfl
  pure {_ _ _ _ a b} h := by
    refine ⟨fun s => .same (.ok h), fun s => .refl s, fun s b' hb => ⟨a, ?_⟩⟩
    cases hb
    exact h
  bind hx hf := hx.bind fun a b hab => hf () le_rfl a b hab
  deeper h := h.deeper
  calling name h := h.calling name
  raise h := by
    rw [Action.raise_congr h]
    exact .of_blind (fun _ => rfl) (fun _ => rfl) fun s _ => .refl s
  read {_ σ _} name hσ := by
    subst hσ
    refine .of_blind (fun _ => rfl) (fun s => ?_) (Action.value_evolving σ name)
    cases h : s.scopes.value σ name with
    | ok v => simp [Action.value, Session.raised, h]
    | error f =>
      simp only [Action.value, Session.raised, h]
      rfl
  assign name hσ hv := by
    subst hσ hv
    exact .of_blind (fun _ => rfl) (fun _ => rfl) fun s _ => .bind s trivial name _
  stuff {_ σ _ v _} name hσ hv := by
    subst hσ hv
    refine .of_blind (fun _ => rfl) (fun s => ?_) (Action.stuff_evolving trivial name v)
    cases h : s.scopes.stuff σ name v with
    | ok scopes => simp [Action.stuff, Session.raised, h]
    | error f =>
      simp only [Action.stuff, Session.raised, h]
      rfl
  stuffed {_ σ _} name hσ := by
    subst hσ
    refine .of_blind (fun _ => rfl) (fun s => ?_) (Action.stuffed_evolving σ name)
    cases h : s.scopes.stuffed σ name with
    | ok v => simp [Action.stuffed, Session.raised, h]
    | error f =>
      simp only [Action.stuffed, Session.raised, h]
      rfl
  extend hσ := by
    subst hσ
    exact .of_blind (fun _ => rfl) (fun _ => rfl) fun s _ => .extend s _
  close _ _ _ hbody hσ := by
    obtain rfl := hbody.eq
    subst hσ
    exact .of_blind (fun _ => rfl) (fun _ => rfl) fun s _ => .identify s
  openCall {_ f _ vs _} hf hvs := by
    obtain rfl : vs = _ := List.forall₂_eq_eq_eq ▸ hvs
    cases hf
    exact .of_blind (fun _ => rfl) (fun _ => rfl) (Action.openCall_evolving (fun _ _ => trivial) f vs)
  operate {_ v _ u _} op hv hu := by
    subst hv hu
    refine .of_blind (fun _ => rfl) (fun s => ?_) (Action.operate_evolving op v u)
    cases h : applyOperator op v u with
    | ok result => simp [Action.operate, h]
    | error f =>
      simp only [Action.operate, h]
      rfl
  firstPartDue first isFirst hσ := by
    subst hσ
    refine .of_blind (fun _ => rfl) (fun s => ?_) (Action.firstPartDue_evolving first isFirst _)
    cases h : first.assigned? <;> simp [Action.firstPartDue, Session.raised, h]
  native {_ f _ vs _ call call'} hf hvs _ := by
    obtain rfl : vs = _ := List.forall₂_eq_eq_eq ▸ hvs
    cases hf
    exact (f.program_plain vs).deepens call call'

/-- Evaluating with more levels under a higher limit goes on like evaluating with fewer. -/
theorem evalIn_deepens (extra levels : Nat) (e : Expr) (σ : ScopeId) :
    Action.Deepens extra Eq (evalIn Host.none levels e σ) (evalIn Host.none (levels + extra) e σ) := by
  have hcut {x y : Action Value} (hx : x = Action.exhausted)
      (hy : y.Evolving (fun _ => True) 0) : Action.Deepens extra Eq x y := by
    subst hx
    exact ⟨fun s => .cutShort (s.exhausted_failure _) (hy _ (Nat.zero_le _)).settled.written,
      fun s => (hy s (Nat.zero_le _)).settled.written, fun _ b _ => ⟨b, rfl⟩⟩
  refine (Correspondence.evalIn_roundIn (C := deepening extra) extra ?_ ?_ levels).1 () e e σ σ
    (.self e) rfl
  · intro _ e e' σ τ _ _
    exact hcut (evalIn_zero Host.none e σ)
      ((evalIn_roundIn_evolving (fun _ _ => trivial) Host.none extra trivial).1 e')
  · intro _ first first' test test' update update' body body' isFirst σ τ _ _ _ _ _
    exact hcut (roundIn_zero Host.none first test update body isFirst σ)
      ((evalIn_roundIn_evolving (fun _ _ => trivial) Host.none extra trivial).2
        first' test' update' body' isFirst)

/-- A run agrees with the run under the higher limit, unless it runs out of levels. -/
theorem Session.run_agrees (extra : Nat) (program : Expr) (s : Session) :
    Agrees extra Eq (s.run Host.none program) ((s.raised extra).run Host.none program) := by
  have hlevels : Session.levels { s.raised extra with depth := 0, calls := [] } = s.limit + extra := rfl
  simp only [Session.run, Session.eval_eq, hlevels]
  exact (evalIn_deepens extra s.limit program Session.root).agrees { s with depth := 0, calls := [] }

/-- A run starts afresh as to depth and calls, and settles from there. -/
theorem Session.run_settled (host : Host) (program : Expr) (s : Session) :
    Session.Settled { s with depth := 0, calls := [] } (s.run host program).2 :=
  (Session.eval_evolves host { s with depth := 0, calls := [] } (W := fun _ => True)
    (fun _ _ => trivial) program trivial).settled

/-- A program that is not cut short at one limit ends the same way, in the same session but for the
limit, at every higher one. In any case what it writes at the lower limit is what it writes first at the
higher one. -/
theorem run_under_higher_limit (program : Expr) (s : Session) {low high : Nat} (h : low ≤ high) :
    (¬ ({ s with limit := low }.run Host.none program).1.Exhausted →
      { s with limit := high }.run Host.none program =
        (({ s with limit := low }.run Host.none program).1,
          { ({ s with limit := low }.run Host.none program).2 with limit := high })) ∧
    ∃ printed more,
      ({ s with limit := low }.run Host.none program).2.console.written =
        s.console.written ++ printed ∧
      ({ s with limit := high }.run Host.none program).2.console.written =
        s.console.written ++ printed ++ more := by
  obtain ⟨extra, rfl⟩ := Nat.exists_eq_add_of_le h
  have hagrees := Session.run_agrees extra program { s with limit := low }
  have hlow := Session.run_settled Host.none program { s with limit := low }
  revert hagrees hlow
  change Agrees extra Eq _ ({ s with limit := low + extra }.run Host.none program) → _
  generalize { s with limit := low }.run Host.none program = p
  generalize { s with limit := low + extra }.run Host.none program = q
  intro hagrees hlow
  cases hagrees with
  | @same r q t hmatch =>
    obtain ⟨printed, hprinted⟩ := hlow.written
    have hlimit : t.limit = low := hlow.limit
    refine ⟨fun _ => ?_, printed, "", hprinted, ?_⟩
    · rw [← hmatch.eq, Session.raised, hlimit]
    · rw [String.append_empty]
      exact hprinted
  | @cutShort r q t u hcut hbefore =>
    obtain ⟨printed, hprinted⟩ := hlow.written
    obtain ⟨more, hmore⟩ := hbefore
    exact ⟨fun hnot => absurd hcut hnot, printed, more, hprinted, by rw [hmore, hprinted]⟩

/-- The program `print("a")`. -/
def printingProgram : Expr :=
  .block ⟨1, 1⟩ [.call ⟨1, 1⟩ (.ident ⟨1, 1⟩ "print") [.string ⟨1, 7⟩ "a"]]

/-- Three levels are enough to print, and what happens with three happens with four. -/
theorem run_under_higher_limit_printing :
    3 ≤ 4 ∧
    ¬ ({ (Session.new 0).register with limit := 3 }.run Host.none printingProgram).1.Exhausted ∧
    ({ (Session.new 0).register with limit := 4 }.run Host.none printingProgram).2.console.written =
      "a\n" := by
  have hwritten : ({ (Session.new 0).register with limit := 3 }.run Host.none
      printingProgram).2.console.written = "a\n" := by decide +kernel
  have hnot : ¬ ({ (Session.new 0).register with limit := 3 }.run Host.none
      printingProgram).1.Exhausted := by decide +kernel
  refine ⟨by decide, hnot, ?_⟩
  rw [(run_under_higher_limit printingProgram (Session.new 0).register (by decide : 3 ≤ 4)).1 hnot]
  exact hwritten

end StuffScript
