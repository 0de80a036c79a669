import StuffScript.Proofs.Depth
import StuffScript.Proofs.Frame

/-!
# Loops are iteration

A loop repeats by evaluating itself again, one level deeper each time, and a counted loop finds out in
every round whether its first part is still due. Here the same loops are told as plain iteration: passes
are repeated one after another in one place, and the first part of a counted loop is evaluated once,
before them.

The main statement is `loops_iterate`. It tells the depth of each pass. Where host functions do not hide
that the levels ran out, the depth makes no difference, and all passes may as well be at the same level.
-/

namespace StuffScript

/-- Perform at another depth of evaluation, and come back to the depth before. -/
def Action.atDepth {α : Type} (depth : Nat) (x : Action α) : Action α := fun s =>
  ((x { s with depth := depth }).1, { (x { s with depth := depth }).2 with depth := s.depth })

/-- One pass of a loop: evaluate the test and, unless it is false, what follows it. The result is whether
to go on. -/
def pass (eval : Expr → Action Value) (test : Expr) (after : List Expr) : Action Bool := do
  let c ← eval test
  if c.truthy then do
    let _ ← lastOf eval .undefined after
    pure true
  else pure false

/-- Passes are repeated, from the one with a number on, until one fails or finds its test false. -/
inductive Iterates (x : Nat → Action Bool) : Nat → Session → Ending → Prop
  | fails {j : Nat} {s t : Session} {f : Failure} (h : x j s = (.error f, t)) :
    Iterates x j s (.error f, t)
  | stops {j : Nat} {s t : Session} (h : x j s = (.ok false, t)) : Iterates x j s (.ok (.bool false), t)
  | goesOn {j : Nat} {s t : Session} {ending : Ending} (h : x j s = (.ok true, t))
    (hmore : Iterates x (j + 1) t ending) : Iterates x j s ending

/-- Plain iteration of a loop with one part, given how to evaluate in each pass. -/
def WhileIterates (eval : Nat → Expr → ScopeId → Action Value) (cond body : Expr) (σ : ScopeId) :
    Session → Ending → Prop :=
  Iterates (fun j => pass (eval j · σ) cond [body]) 0

/-- Plain iteration of a counted loop: in a scope of its own the first part is evaluated once, and then
passes are repeated. -/
inductive CountedIterates (eval : Nat → Expr → ScopeId → Action Value) (first test update body : Expr)
    (σ : ScopeId) (s : Session) : Ending → Prop
  | fails {inner : ScopeId} {t u : Session} {f : Failure} (hmade : Action.extend σ s = (.ok inner, t))
    (hfirst : eval 0 first inner t = (.error f, u)) :
    CountedIterates eval first test update body σ s (.error f, u)
  | repeats {inner : ScopeId} {t u : Session} {v : Value} {ending : Ending}
    (hmade : Action.extend σ s = (.ok inner, t)) (hfirst : eval 0 first inner t = (.ok v, u))
    (hpasses : Iterates (fun j => pass (eval j · inner) test [body, update]) 0 u ending) :
    CountedIterates eval first test update body σ s ending

/-- Evaluate in each pass one level deeper than in the pass before. -/
def evalDeeper (host : Host) (depth : Nat) : Nat → Expr → ScopeId → Action Value :=
  fun j e σ => (Action.eval host e σ).atDepth (depth + j)

/-- Evaluate at the same level in each pass. -/
def evalLevel (host : Host) : Nat → Expr → ScopeId → Action Value := fun _ => Action.eval host

section Determinism

/-- Passes repeated from the same session end in one way only. -/
theorem Iterates.unique {x : Nat → Action Bool} {j : Nat} {s : Session} {a b : Ending}
    (ha : Iterates x j s a) (hb : Iterates x j s b) : b = a := by
  induction ha with
  | fails h =>
    cases hb with
    | fails h' =>
      cases h.symm.trans h'
      rfl
    | stops h' => cases h.symm.trans h'
    | goesOn h' _ => cases h.symm.trans h'
  | stops h =>
    cases hb with
    | fails h' => cases h.symm.trans h'
    | stops h' =>
      cases h.symm.trans h'
      rfl
    | goesOn h' _ => cases h.symm.trans h'
  | goesOn h _ ih =>
    cases hb with
    | fails h' => cases h.symm.trans h'
    | stops h' => cases h.symm.trans h'
    | goesOn h' hmore =>
      cases h.symm.trans h'
      exact ih hmore

/-- A counted loop iterated from the same session ends in one way only. -/
theorem CountedIterates.unique {eval : Nat → Expr → ScopeId → Action Value}
    {first test update body : Expr} {σ : ScopeId} {s : Session} {a b : Ending}
    (ha : CountedIterates eval first test update body σ s a)
    (hb : CountedIterates eval first test update body σ s b) : b = a := by
  cases ha with
  | fails hmade hfirst =>
    cases hb with
    | fails hmade' hfirst' =>
      cases hmade.symm.trans hmade'
      exact hfirst'.symm.trans hfirst
    | repeats hmade' hfirst' _ =>
      cases hmade.symm.trans hmade'
      cases hfirst.symm.trans hfirst'
  | repeats hmade hfirst hpasses =>
    cases hb with
    | fails hmade' hfirst' =>
      cases hmade.symm.trans hmade'
      cases hfirst.symm.trans hfirst'
    | repeats hmade' hfirst' hpasses' =>
      cases hmade.symm.trans hmade'
      cases hfirst.symm.trans hfirst'
      exact hpasses.unique hpasses'

end Determinism

section Passes

variable (host : Host) (σ : ScopeId)

/-- A pass keeps what every evaluation keeps. -/
theorem pass_evolving (test : Expr) (after : List Expr) :
    (pass (Action.eval host · σ) test after).Evolving (fun _ => True) 0 := by
  refine (Action.eval_evolving host σ test).bind fun c => ?_
  split
  · exact (lastOf_evolving host σ _ after).bind fun _ s _ => .refl s
  · exact fun s _ => .refl s

/-- At another depth one action after another is each of them at that depth, if the first comes back to
it. -/
theorem Action.atDepth_bind {α β : Type} {x : Action α} (hx : x.Evolving (fun _ => True) 0)
    (f : α → Action β) (depth : Nat) :
    (x >>= f).atDepth depth = x.atDepth depth >>= fun a => (f a).atDepth depth := by
  funext s
  have hsettled := (hx { s with depth := depth } (Nat.zero_le _)).settled
  rw [Action.bind_apply, Action.atDepth, Action.atDepth, Action.bind_apply]
  revert hsettled
  rcases x { s with depth := depth } with ⟨r, t⟩
  intro hsettled
  cases r with
  | error f => rfl
  | ok a =>
    have hdepth : depth = t.depth := hsettled.depth.symm
    subst hdepth
    rfl

/-- Evaluating a sequence with each item at a depth is evaluating the sequence at that depth. -/
theorem lastOf_atDepth (depth : Nat) (v : Value) (es : List Expr) :
    lastOf (fun e => (Action.eval host e σ).atDepth depth) v es =
      (lastOf (Action.eval host · σ) v es).atDepth depth := by
  induction es generalizing v with
  | nil => rfl
  | cons e es ih =>
    rw [lastOf, lastOf, Action.atDepth_bind (Action.eval_evolving host σ e)]
    simp only [ih]

/-- A pass with each evaluation at a depth is the pass at that depth. -/
theorem pass_atDepth (depth : Nat) (test : Expr) (after : List Expr) :
    pass (fun e => (Action.eval host e σ).atDepth depth) test after =
      (pass (Action.eval host · σ) test after).atDepth depth := by
  rw [pass, pass, Action.atDepth_bind (Action.eval_evolving host σ test)]
  congr 1
  funext c
  split
  · rw [lastOf_atDepth, Action.atDepth_bind (lastOf_evolving host σ _ after)]
    rfl
  · rfl

/-- Where no level is left, a pass fails at its test. -/
theorem pass_exhausted (test : Expr) (after : List Expr) {s : Session} (h : ¬ s.depth < s.limit) :
    pass (Action.eval host · σ) test after s = (.error (s.failure (.stackExhausted s.limit)), s) := by
  rw [pass, Action.bind_apply, Action.eval_eq, Action.within_enter_of_not_lt _ h]

/-- What a loop does on its level: a pass and, if that says to go on, the loop again. -/
def turn (test : Expr) (after : List Expr) (again : Action Value) : Action Value := do
  let more ← pass (Action.eval host · σ) test after
  if more then again else pure (.bool false)

end Passes

section Deeper

variable {host : Host} {σ : ScopeId} {test : Expr} {after : List Expr} {again : Action Value}
  {P : Scopes → Prop} (hP : ∀ ss ss', ss.KeptIn ss' → P ss → P ss')
  (hagain : ∀ s : Session, P s.scopes →
    again s = Action.within Action.enter Action.leave (fun _ => turn host σ test after again) s)

include hP hagain

/-- If being evaluated again comes to another turn one level deeper, as long as the scopes keep what they
have, then turns are passes, each one level deeper than the one before. -/
theorem turn_iterates (base outer j : Nat) (s : Session) (hs : P s.scopes)
    (hdepth : s.depth = base + j) :
    Iterates (fun j => pass (evalDeeper host base j · σ) test after) j { s with depth := outer }
      ((turn host σ test after again s).1, { (turn host σ test after again s).2 with depth := outer }) := by
  -- Each turn has a level less than the one before.
  induction hlevels : s.levels using Nat.strong_induction_on generalizing j s with
  | _ levels ih =>
    have hpass (i : Nat) (t : Session) : pass (evalDeeper host base i · σ) test after
        { t with depth := outer } =
        (pass (Action.eval host · σ) test after).atDepth (base + i) { t with depth := outer } := by
      rw [← pass_atDepth]
      rfl
    have hhere : { s with depth := base + j } = s := by
      rw [← hdepth]
    have hfirst := hpass j s
    simp only [Action.atDepth, hhere] at hfirst
    have hevolves := pass_evolving host σ test after s (Nat.zero_le _)
    have hturn : turn host σ test after again s = _ := Action.bind_apply _ _ s
    cases hrun : pass (Action.eval host · σ) test after s with
    | mk r t =>
      rw [hrun] at hfirst hevolves hturn
      cases r with
      | error f =>
        rw [hturn]
        exact .fails hfirst
      | ok more =>
        cases more with
        | false =>
          rw [hturn]
          exact .stops hfirst
        | true =>
          have ht : P t.scopes := hP _ _ hevolves.confined.kept hs
          have hsame : t.depth = s.depth := hevolves.settled.depth
          refine .goesOn hfirst ?_
          rw [hturn.trans (hagain t ht)]
          by_cases hlt : t.depth < t.limit
          · have hdeeper : t.entered.levels < levels := by
              rw [← hlevels, ← hevolves.settled.levels_eq, Session.levels_entered hlt]
              exact Nat.lt_succ_self _
            have hnext : t.entered.depth = base + (j + 1) := by
              rw [Session.entered, hsame, hdepth, Nat.add_assoc]
            rw [Action.within_enter_of_lt _ hlt]
            exact ih _ hdeeper (j + 1) t.entered ht hnext rfl
          · have hout : ¬ base + (j + 1) < t.limit := by omega
            have hexhausted := pass_exhausted host σ test after (s := { t with depth := base + (j + 1) }) hout
            have hnext := hpass (j + 1) t
            simp only [Action.atDepth, hexhausted] at hnext
            rw [Action.within_enter_of_not_lt _ hlt]
            exact .fails hnext

end Deeper

section Turns

variable (host : Host)

/-- A turn written out: test, evaluate what follows, and go on. -/
theorem turn_eq (σ : ScopeId) (test : Expr) (after : List Expr) (again : Action Value) :
    turn host σ test after again = (do
      let c ← Action.eval host test σ
      if c.truthy then do
        let _ ← lastOf (Action.eval host · σ) .undefined after
        again
      else pure (.bool false)) := by
  rw [turn, pass, bind_assoc]
  congr 1
  funext c
  split <;> simp

/-- A loop with one part takes a turn and then is evaluated again. -/
theorem evalStep_while (p q : Span) (test body : Expr) (σ : ScopeId) :
    evalStep host (Action.eval host) (Action.round host) (.loop p (.block q [test]) body) σ =
      turn host σ (.block q [test]) [body] (Action.eval host (.loop p (.block q [test]) body) σ) := by
  simp only [turn_eq, evalStep, lastOf, bind_assoc, pure_bind]

/-- In a round of a counted loop that decides on its first part by its flag, the flag is all that
matters. -/
theorem roundStep_apply {first : Expr} (test update body : Expr) {isFirst : Bool} {σ : ScopeId}
    {s : Session} (hdue : Action.firstPartDue first isFirst σ s = (.ok isFirst, s)) :
    roundStep (Action.eval host) (Action.round host) first test update body isFirst σ s =
      (do
        let _ ← evalIf isFirst (Action.eval host · σ) first
        turn host σ test [body, update] (Action.round host first test update body false σ)) s := by
  simp only [turn_eq, lastOf, bind_assoc, pure_bind]
  rw [roundStep]
  change (Action.firstPartDue first isFirst σ >>= _) s = _
  rw [Action.bind_apply, hdue]

end Turns

section FirstPart

/-- Whether a scope that exists binds a name can be seen in its bindings. -/
theorem Scopes.owns_eq {ss : Scopes} {σ : ScopeId} {sc : Scope} (h : ss.get? σ = some sc) (name : String) :
    ss.owns σ name = (sc.find? name).isSome := by
  rw [Scopes.owns, h, Option.bind_some]

/-- A name once bound stays bound. -/
theorem Scopes.KeptIn.owns {ss ss' : Scopes} (h : ss.KeptIn ss') {σ : ScopeId} {name : String}
    (howns : ss.owns σ name = true) : ss'.owns σ name = true := by
  cases hget : ss.get? σ with
  | none =>
    rw [Scopes.owns, hget] at howns
    cases howns
  | some sc =>
    obtain ⟨sc', hget', _, hnames⟩ := h σ sc hget
    rw [Scopes.owns_eq hget] at howns
    rw [Scopes.owns_eq hget']
    exact hnames name howns

/-- The scope binds the variable that a first part assigns, if it assigns one. -/
def Scopes.Prepared (first : Expr) (σ : ScopeId) (ss : Scopes) : Prop :=
  ∀ name, first.assigned? = some name → ss.owns σ name = true

/-- A first part that is no longer due stays so as scopes change. -/
theorem Scopes.Prepared.kept {first : Expr} {σ : ScopeId} {ss ss' : Scopes} (h : ss.KeptIn ss')
    (hss : ss.Prepared first σ) : ss'.Prepared first σ :=
  fun name hname => h.owns (hss name hname)

/-- Once the scope is prepared, the first part is not due any more. -/
theorem Action.firstPartDue_later {first : Expr} {σ : ScopeId} {s : Session}
    (h : s.scopes.Prepared first σ) : Action.firstPartDue first false σ s = (.ok false, s) := by
  unfold Action.firstPartDue
  cases hname : first.assigned? with
  | none => rfl
  | some name => simp only [h name hname, Bool.not_true]

/-- In a scope just made, the first part is due. -/
theorem Action.firstPartDue_fresh (first : Expr) {σ : ScopeId} {s : Session} {p : ScopeId}
    (h : s.scopes.get? σ = some { parent := some p }) :
    Action.firstPartDue first true σ s = (.ok true, s) := by
  unfold Action.firstPartDue
  cases first.assigned? with
  | none => rfl
  | some name =>
    simp only [Scopes.owns_eq h name]
    rfl

/-- Evaluating the first part prepares the scope. -/
theorem Session.prepared_of_eval {host : Host} {first : Expr} {σ : ScopeId} {s t : Session} {v : Value}
    (hσ : σ < s.scopes.size) (h : s.eval host first σ = (.ok v, t)) : t.scopes.Prepared first σ := by
  intro name hname
  obtain ⟨p, q, value, rfl⟩ : ∃ p q value, first = .assign p (.ident q name) value := by
    unfold Expr.assigned? at hname
    split at hname
    · cases hname
      exact ⟨_, _, _, rfl⟩
    · cases hname
  change Action.eval host (.assign p (.ident q name) value) σ s = (.ok v, t) at h
  rw [Action.eval_eq] at h
  by_cases hlt : s.depth < s.limit
  · have hevolves := Action.eval_evolving host σ value s.entered (Nat.zero_le _)
    rw [Action.within_enter_of_lt _ hlt, ← Session.entered] at h
    have hstep : evalStep host (Action.eval host) (Action.round host) (.assign p (.ident q name) value) σ
        s.entered = _ := Action.bind_apply _ _ s.entered
    rw [hstep] at h
    cases hvalue : Action.eval host value σ s.entered with
    | mk r u =>
      rw [hvalue] at h hevolves
      cases r with
      | error f => cases h
      | ok w =>
        cases h
        obtain ⟨sc, hsc⟩ := Scopes.get?_of_lt hσ
        obtain ⟨sc', hsc', _, _⟩ := hevolves.confined.kept σ sc hsc
        have hput : (u.scopes.put σ name { value := v }).get? σ = some (sc'.bind name { value := v }) := by
          rw [Scopes.get?_put, if_pos rfl, hsc', Option.map_some]
        change (u.scopes.put σ name { value := v }).owns σ name = true
        rw [Scopes.owns_eq hput, Scope.find?_bind, if_pos rfl]
        rfl
  · rw [Action.within_enter_of_not_lt _ hlt] at h
    cases h

end FirstPart

section Levels

variable {host : Host} {σ : ScopeId} {s : Session}

/-- Evaluation ends at the depth that it began at. -/
theorem Session.eval_depth (host : Host) (e : Expr) (σ : ScopeId) (s : Session) :
    (s.eval host e σ).2.depth = s.depth :=
  (Action.eval_evolving host σ e s (Nat.zero_le _)).settled.depth

/-- Leaving a level sets the depth and nothing else. -/
theorem Action.leave_eq {t : Session} {depth : Nat} (h : (Action.leave t).depth = depth) :
    Action.leave t = { t with depth := depth } := by
  rw [← h]
  rfl

/-- Evaluation with a level left goes one level deeper, and comes back. -/
theorem Session.eval_of_lt {e : Expr} (h : s.depth < s.limit) :
    let inside := evalStep host (Action.eval host) (Action.round host) e σ s.entered
    s.eval host e σ = (inside.1, { inside.2 with depth := s.depth }) := by
  have heval : s.eval host e σ = _ := congrFun (Action.eval_eq host e σ) s
  have hdepth := s.eval_depth host e σ
  rw [heval, Action.within_enter_of_lt _ h] at hdepth
  rw [heval, Action.within_enter_of_lt _ h, Action.leave_eq hdepth]
  rfl

/-- Evaluation that does not fail for want of levels has a level left. -/
theorem Session.lt_of_not_exhausted {e : Expr} (h : ¬ (s.eval host e σ).1.Exhausted) :
    s.depth < s.limit := by
  by_contra hnot
  have heval : s.eval host e σ = _ := congrFun (Action.eval_eq host e σ) s
  rw [heval, Action.within_enter_of_not_lt _ hnot] at h
  exact h (s.exhausted_failure s.limit)

/-- Evaluation that does not fail for want of levels goes one level deeper, and comes back. -/
theorem Session.eval_of_not_exhausted {e : Expr} (h : ¬ (s.eval host e σ).1.Exhausted) :
    let inside := evalStep host (Action.eval host) (Action.round host) e σ s.entered
    s.depth < s.limit ∧ s.eval host e σ = (inside.1, { inside.2 with depth := s.depth }) :=
  ⟨Session.lt_of_not_exhausted h, Session.eval_of_lt (Session.lt_of_not_exhausted h)⟩

/-- A loop with one part that has a level left is plain iteration, one level deeper in each pass. -/
theorem while_iterates_of_lt (p q : Span) (test body : Expr) (h : s.depth < s.limit) :
    WhileIterates (evalDeeper host (s.depth + 1)) (.block q [test]) body σ s
      (s.eval host (.loop p (.block q [test]) body) σ) := by
  have hagain := Action.eval_eq host (.loop p (.block q [test]) body) σ
  have heval : s.eval host (.loop p (.block q [test]) body) σ = _ := Session.eval_of_lt h
  rw [evalStep_while] at hagain heval
  rw [heval]
  exact turn_iterates (P := fun _ => True) (fun _ _ _ => id) (fun t _ => congrFun hagain t)
    (s.depth + 1) s.depth 0 s.entered trivial rfl

/-- A loop with one part that does not run out of levels is iteration, one level deeper each time. -/
theorem while_iterates (p q : Span) (test body : Expr)
    (h : ¬ (s.eval host (.loop p (.block q [test]) body) σ).1.Exhausted) :
    WhileIterates (evalDeeper host (s.depth + 1)) (.block q [test]) body σ s
      (s.eval host (.loop p (.block q [test]) body) σ) :=
  while_iterates_of_lt p q test body (Session.lt_of_not_exhausted h)

/-- Once the loop's scope is prepared, a round is a turn. -/
theorem round_later {first test update body : Expr} {s : Session} (hs : s.scopes.Prepared first σ) :
    Action.round host first test update body false σ s =
      Action.within Action.enter Action.leave (fun _ => turn host σ test [body, update]
        (Action.round host first test update body false σ)) s := by
  rw [congrFun (Action.round_eq host first test update body false σ) s]
  by_cases hlt : s.depth < s.limit
  · have hdue : Action.firstPartDue first false σ s.entered = (.ok false, s.entered) :=
      Action.firstPartDue_later hs
    have hturn := roundStep_apply host test update body hdue
    rw [Action.within_enter_of_lt _ hlt, Action.within_enter_of_lt _ hlt, ← Session.entered, hturn]
    rfl
  · rw [Action.within_enter_of_not_lt _ hlt, Action.within_enter_of_not_lt _ hlt]

/-- A counted loop with a level left starts its rounds there, in a scope of its own. -/
theorem counted_eq (p q : Span) (first test update body : Expr) (h : s.depth < s.limit) :
    let t : Session := { s.entered with scopes := (s.scopes.extend σ).2 }
    let rounds := Action.round host first test update body true s.scopes.size t
    s.eval host (.loop p (.block q [first, test, update]) body) σ =
      (rounds.1, { rounds.2 with depth := s.depth }) :=
  Session.eval_of_lt h

/-- A counted loop that does not fail for want of levels has a level left for its first round. -/
theorem counted_levels {p q : Span} {first test update body : Expr}
    (h : ¬ (s.eval host (.loop p (.block q [first, test, update]) body) σ).1.Exhausted) :
    s.depth + 1 < s.limit := by
  by_contra hnot
  rw [counted_eq p q first test update body (Session.lt_of_not_exhausted h), Action.round_eq,
    Action.within_enter_of_not_lt _ hnot] at h
  exact h (Session.exhausted_failure _ s.limit)

/-- A counted loop that has two levels left is plain iteration, one level deeper in each pass. -/
theorem counted_iterates_of_lt (p q : Span) (first test update body : Expr)
    (h : s.depth + 1 < s.limit) :
    CountedIterates (evalDeeper host (s.depth + 2)) first test update body σ s
      (s.eval host (.loop p (.block q [first, test, update]) body) σ) := by
  let inner := s.scopes.size
  let t : Session := { s.entered with scopes := (s.scopes.extend σ).2 }
  have hround : s.eval host (.loop p (.block q [first, test, update]) body) σ =
      ((Action.round host first test update body true inner t).1,
        { (Action.round host first test update body true inner t).2 with depth := s.depth }) :=
    counted_eq p q first test update body (Nat.lt_of_succ_lt h)
  have hlt : t.depth < t.limit := h
  have hfresh : t.scopes.get? inner = some { parent := some σ } := by
    rw [Scopes.get?_extend, if_pos rfl]
  have hdue := Action.firstPartDue_fresh first (s := t.entered) hfresh
  have hstep := roundStep_apply host test update body hdue
  rw [Action.round_eq, Action.within_enter_of_lt _ hlt, ← Session.entered, hstep, evalIf, if_pos rfl,
    Action.bind_apply] at hround
  cases hfirst : Action.eval host first inner t.entered with
  | mk r u =>
    have hmade : Action.extend σ s = (.ok inner, { s with scopes := (s.scopes.extend σ).2 }) := rfl
    have hbefore : evalDeeper host (s.depth + 2) 0 first inner { s with scopes := (s.scopes.extend σ).2 } =
        (r, { u with depth := s.depth }) := by
      have hat : evalDeeper host (s.depth + 2) 0 first inner { s with scopes := (s.scopes.extend σ).2 } =
          ((Action.eval host first inner t.entered).1,
            { (Action.eval host first inner t.entered).2 with depth := s.depth }) := rfl
      rw [hat, hfirst]
    rw [hfirst] at hround
    cases r with
    | error f =>
      rw [hround]
      exact .fails hmade hbefore
    | ok v =>
      rw [hround]
      have hinner : inner < t.entered.scopes.size := Scopes.lt_size hfresh
      have hprepared : u.scopes.Prepared first inner := Session.prepared_of_eval hinner hfirst
      have hdepth : u.depth = s.depth + 2 := by
        have hsame := t.entered.eval_depth host first inner
        rw [show t.entered.eval host first inner = _ from hfirst] at hsame
        exact hsame
      refine .repeats hmade hbefore ?_
      exact turn_iterates (P := Scopes.Prepared first inner) (fun _ _ hkept => .kept hkept)
        (fun w hw => round_later hw) (s.depth + 2) s.depth 0 u hprepared hdepth

/-- A counted loop that does not run out of levels is iteration, one level deeper each time. -/
theorem counted_iterates (p q : Span) (first test update body : Expr)
    (h : ¬ (s.eval host (.loop p (.block q [first, test, update]) body) σ).1.Exhausted) :
    CountedIterates (evalDeeper host (s.depth + 2)) first test update body σ s
      (s.eval host (.loop p (.block q [first, test, update]) body) σ) :=
  counted_iterates_of_lt p q first test update body (counted_levels h)

end Levels

section SameLevel

/-- A value is no sign of levels that ran out. -/
theorem Outcome.not_exhausted_ok {α : Type} (a : α) : ¬ Outcome.Exhausted (.ok a) := by
  rintro ⟨f, hf, _⟩
  cases hf

/-- Whether a failure is for want of levels does not depend on what there would be without it. -/
theorem Outcome.Exhausted.error {α β : Type} {f : Failure}
    (h : Outcome.Exhausted (.error f : Outcome α)) : Outcome.Exhausted (.error f : Outcome β) := by
  obtain ⟨g, hg, hkind⟩ := h
  cases hg
  exact ⟨f, rfl, hkind⟩

/-- At a depth the first action comes back to that depth, and the second does the same unless the first
fails for want of levels. -/
def Action.Mirrors {α : Type} (depth : Nat) (x y : Action α) : Prop :=
  ∀ s : Session, s.depth = depth →
    (x s).2.depth = depth ∧ (Outcome.Exhausted (x s).1 ∨ y s = x s)

namespace Action.Mirrors

variable {α β : Type} {depth : Nat}

/-- An action that only gives a value mirrors itself. -/
theorem pure (a : α) : Mirrors depth (Pure.pure a) (Pure.pure a) := fun _ hs => ⟨hs, .inr rfl⟩

/-- One action after another mirrors, if each of them does. -/
theorem bind {x y : Action α} {f g : α → Action β} (hx : Mirrors depth x y)
    (hf : ∀ a, Mirrors depth (f a) (g a)) : Mirrors depth (x >>= f) (y >>= g) := by
  intro s hs
  obtain ⟨hdepth, hsame⟩ := hx s hs
  rw [Action.bind_apply, Action.bind_apply]
  revert hdepth hsame
  rcases x s with ⟨r, t⟩
  intro hdepth hsame
  cases r with
  | error e =>
    refine ⟨hdepth, hsame.imp (fun hcut => hcut.error) fun hy => ?_⟩
    rw [hy]
  | ok a =>
    rw [hsame.resolve_left (Outcome.not_exhausted_ok a)]
    exact hf a t hdepth

end Action.Mirrors

variable {host : Host} (hhost : host.PassesOn) {base outer : Nat}

include hhost in
/-- Evaluating at a deeper level mirrors evaluating at this one. -/
theorem evalDeeper_mirrors (h : outer ≤ base) (j : Nat) (e : Expr) (σ : ScopeId) :
    Action.Mirrors outer (evalDeeper host base j e σ) (evalLevel host j e σ) := by
  intro s hs
  have hle : s.depth ≤ base + j := hs.trans_le (h.trans (Nat.le_add_right base j))
  exact ⟨hs, Session.eval_at_smaller_depth hhost e σ { s with depth := base + j } hle⟩

/-- Sequences mirror each other if the evaluations of their items do. -/
theorem lastOf_mirrors {eval eval' : Expr → Action Value}
    (h : ∀ e, Action.Mirrors outer (eval e) (eval' e)) (v : Value) (es : List Expr) :
    Action.Mirrors outer (lastOf eval v es) (lastOf eval' v es) := by
  induction es generalizing v with
  | nil => exact .pure v
  | cons e es ih => exact (h e).bind ih

/-- Passes mirror each other if the evaluations in them do. -/
theorem pass_mirrors {eval eval' : Expr → Action Value}
    (h : ∀ e, Action.Mirrors outer (eval e) (eval' e)) (test : Expr) (after : List Expr) :
    Action.Mirrors outer (pass eval test after) (pass eval' test after) := by
  refine (h test).bind fun c => ?_
  split
  · exact (lastOf_mirrors h _ after).bind fun _ => .pure true
  · exact .pure false

/-- Iteration that does not fail for want of levels is the same with passes that do the same. -/
theorem Iterates.mirrored {x y : Nat → Action Bool} (hxy : ∀ j, Action.Mirrors outer (x j) (y j)) {j : Nat}
    {s : Session} {ending : Ending} (h : Iterates x j s ending) (hs : s.depth = outer)
    (hending : ¬ ending.1.Exhausted) : Iterates y j s ending := by
  induction h with
  | @fails j s t f hx =>
    obtain ⟨_, hsame⟩ := hxy j s hs
    rw [hx] at hsame
    exact .fails (hsame.resolve_left fun hcut => hending hcut.error)
  | @stops j s t hx =>
    obtain ⟨_, hsame⟩ := hxy j s hs
    rw [hx] at hsame
    exact .stops (hsame.resolve_left (Outcome.not_exhausted_ok false))
  | @goesOn j s t ending hx _ ih =>
    obtain ⟨hdepth, hsame⟩ := hxy j s hs
    rw [hx] at hsame hdepth
    exact .goesOn (hsame.resolve_left (Outcome.not_exhausted_ok true)) (ih hdepth hending)

include hhost

/-- Iteration with ever deeper passes is iteration at one level, unless the levels ran out. -/
theorem WhileIterates.level {cond body : Expr} {σ : ScopeId} {s : Session} {ending : Ending}
    (hbase : s.depth ≤ base) (h : WhileIterates (evalDeeper host base) cond body σ s ending)
    (hending : ¬ ending.1.Exhausted) : WhileIterates (evalLevel host) cond body σ s ending :=
  h.mirrored (fun j => pass_mirrors (evalDeeper_mirrors hhost hbase j · σ) cond [body]) rfl hending

/-- The same for counted loops. -/
theorem CountedIterates.level {first test update body : Expr} {σ : ScopeId} {s : Session}
    {ending : Ending} (hbase : s.depth ≤ base)
    (h : CountedIterates (evalDeeper host base) first test update body σ s ending)
    (hending : ¬ ending.1.Exhausted) :
    CountedIterates (evalLevel host) first test update body σ s ending := by
  have hmirrors := evalDeeper_mirrors hhost hbase
  cases h with
  | @fails inner t u f hmade hfirst =>
    have ht : t.depth = s.depth := by
      cases hmade
      rfl
    obtain ⟨_, hsame⟩ := hmirrors 0 first inner t ht
    rw [hfirst] at hsame
    exact .fails hmade (hsame.resolve_left hending)
  | @repeats inner t u v ending hmade hfirst hpasses =>
    have ht : t.depth = s.depth := by
      cases hmade
      rfl
    obtain ⟨hdepth, hsame⟩ := hmirrors 0 first inner t ht
    rw [hfirst] at hsame hdepth
    refine .repeats hmade (hsame.resolve_left (Outcome.not_exhausted_ok v)) ?_
    exact hpasses.mirrored (fun j => pass_mirrors (hmirrors j · inner) test [body, update]) hdepth hending

end SameLevel

section Result

/-- Passes that end with a value end with the value false. -/
theorem Iterates.eq_false {x : Nat → Action Bool} {j : Nat} {s t : Session} {v : Value}
    (h : Iterates x j s (.ok v, t)) : v = .bool false := by
  generalize hending : ((.ok v, t) : Ending) = ending at h
  induction h with
  | fails _ => cases hending
  | stops _ =>
    cases hending
    rfl
  | goesOn _ _ ih => exact ih hending

/-- A counted loop that ends with a value ends with the value false. -/
theorem CountedIterates.eq_false {eval : Nat → Expr → ScopeId → Action Value}
    {first test update body : Expr} {σ : ScopeId} {s t : Session} {v : Value}
    (h : CountedIterates eval first test update body σ s (.ok v, t)) : v = .bool false := by
  cases h with
  | repeats _ _ hpasses => exact hpasses.eq_false

/-- Every loop that ends without an error yields `false`, whatever its condition is. -/
theorem loop_yields_false {host : Host} {p : Span} {cond body : Expr} {σ : ScopeId} {s t : Session}
    {v : Value} (h : s.eval host (.loop p cond body) σ = (.ok v, t)) : v = .bool false := by
  have hnot : ¬ (s.eval host (.loop p cond body) σ).1.Exhausted := by
    rw [h]
    exact Outcome.not_exhausted_ok v
  obtain ⟨_, heval⟩ := Session.eval_of_not_exhausted hnot
  cases cond with
  | block q items =>
    rcases items with _ | ⟨test, _ | ⟨second, _ | ⟨update, _ | ⟨fourth, rest⟩⟩⟩⟩
    · cases heval.symm.trans h
    · exact Iterates.eq_false (h ▸ while_iterates p q test body hnot)
    · cases heval.symm.trans h
    · exact (h ▸ counted_iterates p q test second update body hnot : CountedIterates _ _ _ _ _ _ _ _).eq_false
    · cases heval.symm.trans h
  | _ => cases heval.symm.trans h

end Result

/-- **Loops are iteration.** Unless it fails for want of levels, a loop ends just as plain iteration does,
with the same outcome in the same session, where the parts of each pass are evaluated one level deeper than
those of the pass before. If no host function hides that levels ran out, the passes may as well all be at the
level of the loop. Every loop that ends without an error yields `false`. -/
theorem loops_iterate (host : Host) (p : Span) (body : Expr) (σ : ScopeId) (s : Session) :
    (∀ q test, let cond := .block q [test]
      let ending := s.eval host (.loop p cond body) σ
      ¬ ending.1.Exhausted →
        (∀ e, WhileIterates (evalDeeper host (s.depth + 1)) cond body σ s e ↔ e = ending) ∧
        (host.PassesOn → ∀ e, WhileIterates (evalLevel host) cond body σ s e ↔ e = ending)) ∧
    (∀ q first test update, let ending := s.eval host (.loop p (.block q [first, test, update]) body) σ
      ¬ ending.1.Exhausted →
        (∀ e, CountedIterates (evalDeeper host (s.depth + 2)) first test update body σ s e ↔ e = ending) ∧
        (host.PassesOn →
          ∀ e, CountedIterates (evalLevel host) first test update body σ s e ↔ e = ending)) ∧
    ∀ cond v, (s.eval host (.loop p cond body) σ).1 = .ok v → v = .bool false := by
  refine ⟨?_, ?_, fun cond v hv => loop_yields_false (Prod.ext hv rfl)⟩
  · intro q test cond ending hnot
    have hdeeper : WhileIterates _ cond body σ s ending := while_iterates p q test body hnot
    refine ⟨fun e => ⟨fun h => hdeeper.unique h, fun h => h ▸ hdeeper⟩, fun hhost e => ?_⟩
    have hlevel := hdeeper.level hhost (Nat.le_succ s.depth) hnot
    exact ⟨fun h => hlevel.unique h, fun h => h ▸ hlevel⟩
  · intro q first test update ending hnot
    have hdeeper : CountedIterates _ first test update body σ s ending :=
      counted_iterates p q first test update body hnot
    refine ⟨fun e => ⟨fun h => hdeeper.unique h, fun h => h ▸ hdeeper⟩, fun hhost e => ?_⟩
    have hlevel := hdeeper.level hhost (Nat.le_add_right s.depth 2) hnot
    exact ⟨fun h => hlevel.unique h, fun h => h ▸ hlevel⟩

/-- The program `loop [i] i = false` makes one pass where `i` is true, and the program
`loop [i = true, i, i = false] print("a")` makes one pass that prints. -/
theorem loops_iterate_once :
    let here : Span := ⟨1, 1⟩
    let i := Expr.ident here "i"
    let no := Expr.assign here i (.bool here false)
    let yes := Expr.assign here i (.bool here true)
    let print := Expr.call here (.ident here "print") [.string here "a"]
    let s := (Session.new 20).register.define "i" (.bool true)
    let asked := s.eval Host.none (.loop here (.block here [i]) no) Session.root
    let counted := s.eval Host.none (.loop here (.block here [yes, i, no]) print) Session.root
    ¬ asked.1.Exhausted ∧ ¬ counted.1.Exhausted ∧ Host.none.PassesOn ∧
      counted.2.console.written = "a\n" ∧
      WhileIterates (evalLevel Host.none) (.block here [i]) no Session.root s asked ∧
      CountedIterates (evalDeeper Host.none 2) yes i no print Session.root s counted := by
  intro here i no yes print s asked counted
  have hends {r : Outcome Value} (h : r.isOk = true) : ¬ r.Exhausted := by
    rintro ⟨f, rfl, _⟩
    cases h
  have hasked : ¬ asked.1.Exhausted := hends (by decide +kernel)
  have hcounted : ¬ counted.1.Exhausted := hends (by decide +kernel)
  have hhost : Host.none.PassesOn := fun _ _ _ => .done _
  have hwritten : counted.2.console.written = "a\n" := by decide +kernel
  have hwhile := ((loops_iterate Host.none here no Session.root s).1 here i hasked).2 hhost asked
  have hcount := ((loops_iterate Host.none here print Session.root s).2.1 here yes i no hcounted).1 counted
  exact ⟨hasked, hcounted, hhost, hwritten, hwhile.mpr rfl, hcount.mpr rfl⟩

end StuffScript
