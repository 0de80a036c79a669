import StuffScript.Proofs.Balance

/-!
# Evaluation without its levels

Evaluation carries the number of levels that are left, so that it can recurse on it. That number is
always the one that the session itself tells. So evaluation satisfies its own rules as they stand, with
nothing but the session's limit to stop it.

The main statements are `Action.eval_eq` and `Action.round_eq`.
-/

namespace StuffScript

/-- The session one level deeper. -/
def Session.entered (s : Session) : Session := { s with depth := s.depth + 1 }

/-- One level deeper there is one level less. -/
theorem Session.levels_entered {s : Session} (h : s.depth < s.limit) :
    s.levels = s.entered.levels + 1 := by
  change s.limit - s.depth = s.limit - (s.depth + 1) + 1
  omega

/-- As many levels are left as before. -/
theorem Session.Settled.levels_eq {s t : Session} (h : s.Settled t) : t.levels = s.levels := by
  rw [Session.levels, Session.levels, h.limit, h.depth]

/-- Evaluation leaves as many levels as there were before it. -/
theorem Session.levels_of_eval {host : Host} {e : Expr} {scope : ScopeId} {s t : Session}
    {r : Outcome Value} (h : s.eval host e scope = (r, t)) : t.levels = s.levels := by
  have hevolves := s.eval_evolves host (W := fun _ => True) (fun _ _ => trivial) e (σ := scope) trivial
  rw [h] at hevolves
  exact hevolves.settled.levels_eq

namespace Action

/-- Evaluate an expression, with as many levels as the session has left. -/
def eval (host : Host) (e : Expr) (scope : ScopeId) : Action Value := fun s => s.eval host e scope

/-- A round of a counted loop, and the rounds after it, with as many levels as the session has left. -/
def round (host : Host) (first test update body : Expr) (isFirst : Bool) (scope : ScopeId) :
    Action Value := fun s =>
  roundIn (m := Action) host s.levels first test update body isFirst scope s

/-- The second action does what the first one does wherever so many levels are left. -/
structure SameAt {α : Type} (levels : Nat) (x y : Action α) : Prop where
  evolves : x.Evolving (fun _ => True) 0
  same : ∀ s : Session, s.levels = levels → x s = y s

namespace SameAt

variable {α β : Type} {levels : Nat}

/-- One action after another is the same at so many levels, if each of them is. -/
theorem bind {x y : Action α} {f g : α → Action β} (hx : SameAt levels x y)
    (hf : ∀ a, SameAt levels (f a) (g a)) : SameAt levels (x >>= f) (y >>= g) where
  evolves := hx.evolves.bind fun a => (hf a).evolves
  same s hs := by
    have hsettled := (hx.evolves s (Nat.zero_le _)).settled
    rw [Action.bind_apply, Action.bind_apply, ← hx.same s hs]
    revert hsettled
    rcases x s with ⟨r, t⟩
    intro hsettled
    cases r with
    | error e => rfl
    | ok a => exact (hf a).same t (hsettled.levels_eq.trans hs)

/-- A single action is itself at all levels. -/
theorem act {x : Action α} (h : x.Single) : SameAt levels x x := ⟨h.evolving, fun _ _ => rfl⟩

/-- Looking at outcomes is the same, if reaching them is. -/
theorem attempt {x y : Action α} (h : SameAt levels x y) :
    SameAt levels (Action.attempt x) (Action.attempt y) where
  evolves := h.evolves
  same s hs := by rw [Action.attempt, Action.attempt, h.same s hs]

/-- What is performed within a call is the same, if it is by itself. -/
theorem calling {x y : Action Value} (name : String) (h : SameAt levels x y) :
    SameAt levels (Action.within (Action.pushCall name) Action.popCall fun _ => x)
      (Action.within (Action.pushCall name) Action.popCall fun _ => y) where
  evolves := h.evolves.calling name
  same s hs := by
    have hin : x { s with calls := name :: s.calls } = y { s with calls := name :: s.calls } :=
      h.same { s with calls := name :: s.calls } hs
    simp only [Action.within, Action.pushCall, hin]

end SameAt

/-- Doing the same as an agreement on the rules for one level. -/
def sameness (host : Host) (levels : Nat) : StepAgreement host Action Action where
  holds := SameAt levels
  pure _ := ⟨fun s _ => .refl s, fun _ _ => rfl⟩
  bind := .bind
  act := .act
  calling := .calling
  native f args _ _ h := HostProgram.perform_related (R := SameAt levels) .bind .act .attempt h
    (f.program host args)

section Rules

variable (host : Host) (levels : Nat)

/-- Evaluating with so many levels left is evaluating where so many are left. -/
theorem evalIn_sameAt (e : Expr) (scope : ScopeId) :
    SameAt levels (evalIn host levels e scope) (Action.eval host e scope) where
  evolves := (evalIn_roundIn_evolving (fun _ _ => trivial) host levels trivial).1 e
  same s hs := by rw [Action.eval, Session.eval_eq, hs]

/-- A round of a loop with so many levels left is the round where so many are left. -/
theorem roundIn_sameAt (first test update body : Expr) (isFirst : Bool) (scope : ScopeId) :
    SameAt levels (roundIn host levels first test update body isFirst scope)
      (Action.round host first test update body isFirst scope) where
  evolves :=
    (evalIn_roundIn_evolving (fun _ _ => trivial) host levels trivial).2 first test update body isFirst
  same s hs := by rw [Action.round, hs]

/-- What is the same with so many levels left is the same when it is entered from one level further up;
where no level is left it is not entered. -/
theorem within_congr {x : Nat → Action Value} {y : Action Value} (h : ∀ levels, SameAt levels (x levels) y)
    {f : Nat → Action Value} (hzero : f 0 = Action.exhausted)
    (hsucc : ∀ levels, f (levels + 1) = Action.within Action.enter Action.leave fun _ => x levels)
    (s : Session) : f s.levels s = Action.within Action.enter Action.leave (fun _ => y) s := by
  cases hs : s.levels with
  | zero =>
    have hnot : ¬ s.depth < s.limit := by
      rw [Session.levels] at hs
      omega
    rw [hzero, Action.within_enter_of_not_lt y hnot]
    rfl
  | succ levels =>
    have hlt : s.depth < s.limit := by
      rw [Session.levels] at hs
      omega
    have hin : s.entered.levels = levels := by
      rw [Session.levels_entered hlt] at hs
      omega
    rw [hsucc, Action.within_enter_of_lt _ hlt, Action.within_enter_of_lt _ hlt,
      ← Session.entered, (h levels).same s.entered hin]

/-- Evaluating an expression comes to what the rules say, one level deeper. -/
theorem eval_eq (e : Expr) (scope : ScopeId) :
    Action.eval host e scope = Action.within Action.enter Action.leave fun _ =>
      evalStep host (Action.eval host) (Action.round host) e scope := by
  funext s
  rw [Action.eval, Session.eval_eq]
  refine within_congr (f := fun levels => evalIn host levels e scope) (fun levels => ?_)
    (evalIn_zero host e scope) (fun levels => by rw [evalIn]; rfl) s
  exact (sameness host levels).evalStep (evalIn_sameAt host levels) (roundIn_sameAt host levels) e scope

/-- A round of a counted loop comes to what the rules say, one level deeper. -/
theorem round_eq (first test update body : Expr) (isFirst : Bool) (scope : ScopeId) :
    Action.round host first test update body isFirst scope =
      Action.within Action.enter Action.leave fun _ =>
        roundStep (Action.eval host) (Action.round host) first test update body isFirst scope := by
  funext s
  refine within_congr (f := fun levels => roundIn host levels first test update body isFirst scope)
    (fun levels => ?_) (roundIn_zero host first test update body isFirst scope)
    (fun levels => by rw [roundIn]; rfl) s
  exact (sameness host levels).roundStep (evalIn_sameAt host levels) (roundIn_sameAt host levels)
    first test update body isFirst scope

end Rules

end Action

section Operations

variable (host : Host) (s : Session)

end Operations

section Evolution

variable (host : Host) (σ : ScopeId)

/-- Evaluating an expression evolves the session. -/
theorem Action.eval_evolving (e : Expr) : (Action.eval host e σ).Evolving (fun _ => True) 0 :=
  fun s _ => s.eval_evolves host (fun _ _ => trivial) e trivial

/-- Evaluating the items of a block evolves the session. -/
theorem lastOf_evolving (v : Value) (es : List Expr) :
    (lastOf (Action.eval host · σ) v es).Evolving (fun _ => True) 0 := by
  induction es generalizing v with
  | nil => exact fun s _ => .refl s
  | cons e es ih => exact (Action.eval_evolving host σ e).bind ih

end Evolution

end StuffScript
