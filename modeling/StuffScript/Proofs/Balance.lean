import StuffScript.Proofs.Evolution

/-!
# Levels and calls are left again

Evaluation goes one level deeper and comes up again, and it begins calls and ends them. Both happen
around computations that may fail anywhere, and inside host functions that have closures called. To say
what is so during an evaluation and not only after it, the rules are run on a third carrier, which notes
every session that evaluation passes through and every session that an exit is applied to. An observed
evaluation ends as the plain one does.

The main statement is `levels_and_calls_restored`, about any operations of a host in any order, with
any host functions. It asks nothing of how an operation ends.
-/

namespace StuffScript

/-- What an observer notes: the session at a point of the evaluation, or the session that an exit is
about to be applied to. -/
inductive Note where
  | point (s : Session)
  | exit (leave : Session → Session) (s : Session)

/-- An action with the notes that an observer makes of it. -/
def Observed (α : Type) : Type := Session → (Outcome α × Session) × List Note

namespace Observed

/-- Give a result. -/
def pure {α : Type} (a : α) : Observed α := fun s => ((.ok a, s), [])

/-- One after another, and the notes of both. -/
def bind {α β : Type} (x : Observed α) (f : α → Observed β) : Observed β := fun s =>
  match x s with
  | ((.ok a, t), notes) => ((f a t).1, notes ++ (f a t).2)
  | ((.error e, t), notes) => ((.error e, t), notes)

/-- Perform an action, noting the sessions before and after it. -/
def act {α : Type} (x : Action α) : Observed α := fun s => (x s, [.point s, .point (x s).2])

/-- Perform, and give failures as results. -/
def attempt {α : Type} (x : Observed α) : Observed (Outcome α) := fun s =>
  ((.ok (x s).1.1, (x s).1.2), (x s).2)

/-- Perform between an entry and an exit, noting the session that the exit is applied to. -/
def within {α : Type} (enter : Action Unit) (leave : Session → Session) (x : Unit → Observed α) :
    Observed α := fun s =>
  match enter s with
  | (.error e, t) => ((.error e, t), [.point s, .point t])
  | (.ok _, t) =>
    (((x () t).1.1, leave (x () t).1.2), [.point s, .point t] ++ (x () t).2 ++
      [.exit leave (x () t).1.2, .point (leave (x () t).1.2)])

end Observed

instance : Carrier Observed where
  pure := Observed.pure
  bind := Observed.bind
  act := Observed.act
  attempt := Observed.attempt
  within := Observed.within

/-- Nothing is out of order in some notes: the depth is never above the limit, a level is left only where
one was entered, and a call is ended only where one was begun. -/
structure Orderly (limit : Nat) (notes : List Note) : Prop where
  bounded : ∀ u : Session, .point u ∈ notes → u.depth ≤ limit
  leaves : ∀ u : Session, .exit Action.leave u ∈ notes → 0 < u.depth
  returns : ∀ u : Session, .exit Action.popCall u ∈ notes → u.calls ≠ []

/-- Leaving a level is another thing than ending a call. -/
theorem Action.leave_ne_popCall : Action.leave ≠ Action.popCall := by
  intro h
  have hdepth := congrArg Session.depth (congrFun h { limit := 0, depth := 1 })
  simp [Action.leave, Action.popCall] at hdepth

namespace Orderly

variable {limit : Nat} {notes more : List Note}

/-- Without notes all is in order. -/
theorem nil : Orderly limit [] := by
  constructor <;> simp

/-- Notes that are in order stay so behind others that are. -/
theorem append (h : Orderly limit notes) (hmore : Orderly limit more) :
    Orderly limit (notes ++ more) := by
  constructor
  · intro u hu
    exact (List.mem_append.mp hu).elim (h.bounded u) (hmore.bounded u)
  · intro u hu
    exact (List.mem_append.mp hu).elim (h.leaves u) (hmore.leaves u)
  · intro u hu
    exact (List.mem_append.mp hu).elim (h.returns u) (hmore.returns u)

/-- Sessions within the limit may be noted anywhere. -/
theorem points {s t : Session} (hs : s.depth ≤ limit) (ht : t.depth ≤ limit) :
    Orderly limit [.point s, .point t] := by
  constructor <;> simp [hs, ht]

/-- A level is left where one was entered. -/
theorem exit_leave {u : Session} (hpos : 0 < u.depth) (hu : u.depth ≤ limit) :
    Orderly limit [.exit Action.leave u, .point (Action.leave u)] := by
  have hle : u.depth - 1 ≤ limit := Nat.le_trans (Nat.sub_le _ _) hu
  constructor <;> simp [Action.leave_ne_popCall.symm, hpos, Action.leave, hle]

/-- A call ends where one is in progress. -/
theorem exit_popCall {u : Session} (hcalls : u.calls ≠ []) (hu : u.depth ≤ limit) :
    Orderly limit [.exit Action.popCall u, .point (Action.popCall u)] := by
  constructor <;> simp [Action.leave_ne_popCall, hcalls, Action.popCall, hu]

end Orderly

/-- The single actions of the rules evolve the session. -/
theorem Action.Single.evolving {α : Type} {x : Action α} (h : x.Single) :
    x.Evolving (fun _ => True) 0 := by
  cases h with
  | exhausted => exact fun s _ => .refl s
  | raise f => exact fun s _ => .refl s
  | value scope name => exact Action.value_evolving scope name
  | assign scope name v => exact fun s _ => .bind s trivial name _
  | stuff scope name v => exact Action.stuff_evolving trivial name v
  | stuffed scope name => exact Action.stuffed_evolving scope name
  | extend parent => exact fun s _ => .extend s parent
  | close params body scope => exact fun s _ => .identify s
  | openCall f args => exact Action.openCall_evolving (fun _ _ => trivial) f args
  | operate op left right => exact Action.operate_evolving op left right
  | firstPartDue first isFirst scope => exact Action.firstPartDue_evolving first isFirst scope
  | write text => exact Action.write_evolving text
  | recollect => exact fun s _ => .refl s
  | remember values => exact fun s _ => .remember s values
  | conclude result => exact fun s _ => by cases result <;> exact .refl s

/-- An observed computation ends as its action does, and its notes are in order wherever it starts
within the limit. -/
structure Observed.Tidy {α : Type} (x : Observed α) (y : Action α) : Prop where
  same : ∀ s : Session, (x s).1 = y s
  evolves : y.Evolving (fun _ => True) 0
  orderly : ∀ s : Session, s.depth ≤ s.limit → Orderly s.limit (x s).2

namespace Observed.Tidy

variable {α β : Type}

/-- An observed computation settles the session as its action does. -/
theorem settled {x : Observed α} {y : Action α} (h : x.Tidy y) (s : Session) :
    s.Settled (x s).1.2 := by
  rw [h.same s]
  exact (h.evolves s (Nat.zero_le _)).settled

/-- Giving a value makes no notes. -/
theorem pure (a : α) : Tidy (Pure.pure a : Observed α) (Pure.pure a) where
  same _ := rfl
  evolves s _ := .refl s
  orderly _ _ := .nil

/-- One computation after another is tidy, if each of them is. -/
theorem bind {x : Observed α} {y : Action α} {f : α → Observed β} {g : α → Action β}
    (hx : x.Tidy y) (hf : ∀ a, (f a).Tidy (g a)) : Tidy (x >>= f) (y >>= g) where
  same s := by
    have hxs := hx.same s
    rw [Action.bind_apply, ← hxs]
    change (Observed.bind x f s).1 = _
    unfold Observed.bind
    rcases x s with ⟨⟨r, t⟩, notes⟩
    cases r with
    | ok a => exact (hf a).same t
    | error e => rfl
  evolves := hx.evolves.bind fun a => (hf a).evolves
  orderly s hs := by
    have hsettled := hx.settled s
    have hnotes := hx.orderly s hs
    change Orderly s.limit (Observed.bind x f s).2
    unfold Observed.bind
    revert hsettled hnotes
    rcases x s with ⟨⟨r, t⟩, notes⟩
    intro hsettled hnotes
    cases r with
    | error e => exact hnotes
    | ok a =>
      have hdepth : t.depth = s.depth := hsettled.depth
      have hlimit : t.limit = s.limit := hsettled.limit
      have hmore := (hf a).orderly t (by omega)
      rw [hlimit] at hmore
      exact hnotes.append hmore

/-- A single action is tidy. -/
theorem act {x : Action α} (h : x.Single) : Tidy (Carrier.act x : Observed α) x where
  same _ := rfl
  evolves := h.evolving
  orderly s hs := by
    have hdepth : (x s).2.depth = s.depth := (h.evolving s (Nat.zero_le _)).settled.depth
    exact .points hs (by omega)

/-- Looking at an outcome is tidy, if reaching it is. -/
theorem attempt {x : Observed α} {y : Action α} (hx : x.Tidy y) :
    Tidy (Carrier.attempt x) (Action.attempt y) where
  same s := by
    rw [Action.attempt, ← hx.same s]
    rfl
  evolves s hs := hx.evolves s hs
  orderly s hs := hx.orderly s hs

/-- One level down the depth is at least one, and it is the same again when the level is left. -/
theorem deeper {x : Observed Value} {y : Action Value} (hx : x.Tidy y) :
    Tidy (Carrier.within Action.enter Action.leave fun _ => x)
      (Action.within Action.enter Action.leave fun _ => y) where
  same s := by
    change (Observed.within Action.enter Action.leave (fun _ => x) s).1 = _
    unfold Observed.within Action.within
    rcases Action.enter s with ⟨r, t⟩
    cases r with
    | error e => rfl
    | ok _ =>
      simp only [hx.same t]
      rfl
  evolves := hx.evolves.deeper
  orderly s hs := by
    change Orderly s.limit (Observed.within Action.enter Action.leave (fun _ => x) s).2
    unfold Observed.within
    by_cases h : s.depth < s.limit
    · simp only [Action.enter, if_pos h]
      have hsettled := hx.settled { s with depth := s.depth + 1 }
      have hdepth : (x { s with depth := s.depth + 1 }).1.2.depth = s.depth + 1 := hsettled.depth
      have hbefore : Orderly s.limit [.point s, .point { s with depth := s.depth + 1 }] :=
        .points hs h
      have hinside := hx.orderly { s with depth := s.depth + 1 } h
      exact (hbefore.append hinside).append (.exit_leave (by omega) (by omega))
    · simp only [Action.enter, if_neg h]
      exact .points hs hs

/-- Inside a call its name heads the calls in progress, and does so again when the call is ended. -/
theorem calling {x : Observed Value} {y : Action Value} (name : String) (hx : x.Tidy y) :
    Tidy (Carrier.within (Action.pushCall name) Action.popCall fun _ => x)
      (Action.within (Action.pushCall name) Action.popCall fun _ => y) where
  same s := by
    change ((x { s with calls := name :: s.calls }).1.1,
      Action.popCall (x { s with calls := name :: s.calls }).1.2) = _
    rw [hx.same]
    rfl
  evolves := hx.evolves.calling name
  orderly s hs := by
    have hsettled := hx.settled { s with calls := name :: s.calls }
    have hdepth : (x { s with calls := name :: s.calls }).1.2.depth ≤ s.limit :=
      hsettled.depth.trans_le hs
    have hcalls : (x { s with calls := name :: s.calls }).1.2.calls ≠ [] := by
      rw [hsettled.calls]
      exact List.cons_ne_nil _ _
    have hbefore : Orderly s.limit [.point s, .point { s with calls := name :: s.calls }] :=
      .points hs hs
    have hinside := hx.orderly { s with calls := name :: s.calls } hs
    exact (hbefore.append hinside).append (.exit_popCall hcalls hdepth)

end Observed.Tidy

/-- Observed computations agree with the actions that they observe. -/
def observation : Agreement Observed Action where
  holds := Observed.Tidy
  pure := Observed.Tidy.pure
  bind := Observed.Tidy.bind
  act := Observed.Tidy.act
  attempt := Observed.Tidy.attempt
  deeper := Observed.Tidy.deeper
  calling := Observed.Tidy.calling

/-- What a host can have a session do. Each operation has host functions of its own. -/
inductive Operation where
  | define (name : String) (v : Value)
  | run (host : Host) (program : Expr)
  | eval (host : Host) (e : Expr) (scope : ScopeId)
  | callClosure (host : Host) (f : Closure) (args : List Value)
  | callNative (host : Host) (f : Native) (args : List Value)

namespace Operation

/-- Carry out an operation. -/
def perform (s : Session) : Operation → Ending
  | define name v => (.ok v, s.define name v)
  | run host program => s.run host program
  | eval host e scope => s.eval host e scope
  | callClosure host f args => s.callClosure host f args
  | callNative host f args => s.callNative host f args

/-- Carry out an operation and observe it. -/
def observe (s : Session) : Operation → Ending × List Note
  | define name v => ((.ok v, s.define name v), [.point s, .point (s.define name v)])
  | run host program =>
    evalIn (m := Observed) host s.limit program Session.root { s with depth := 0, calls := [] }
  | eval host e scope => evalIn (m := Observed) host s.levels e scope s
  | callClosure host f args =>
    StuffScript.callClosure (m := Observed) (evalIn host s.levels) f args s
  | callNative host f args =>
    (f.program host args).perform (m := Observed) (StuffScript.callClosure (evalIn host s.levels)) s

/-- An observed operation ends as the operation does. -/
theorem observe_eq (op : Operation) (s : Session) : (op.observe s).1 = op.perform s := by
  cases op with
  | define name v => rfl
  | run host program =>
    rw [perform, Session.run, Session.eval_eq]
    exact (observation.evalIn host s.limit program Session.root).same _
  | eval host e scope =>
    rw [perform, Session.eval_eq]
    exact (observation.evalIn host s.levels e scope).same s
  | callClosure host f args =>
    rw [perform, Session.callClosure_eq]
    exact (observation.callClosure (observation.evalIn host s.levels) f args).same s
  | callNative host f args =>
    rw [perform, Session.callNative_eq]
    exact (observation.perform
      (observation.callClosure (observation.evalIn host s.levels)) (f.program host args)).same s

/-- Within the limit, an operation proceeds in order. -/
theorem observe_orderly (op : Operation) {s : Session} (hs : s.depth ≤ s.limit) :
    Orderly s.limit (op.observe s).2 := by
  cases op with
  | define name v => exact .points hs hs
  | run host program =>
    exact (observation.evalIn host s.limit program Session.root).orderly
      { s with depth := 0, calls := [] } (Nat.zero_le _)
  | eval host e scope => exact (observation.evalIn host s.levels e scope).orderly s hs
  | callClosure host f args =>
    exact (observation.callClosure (observation.evalIn host s.levels) f args).orderly s hs
  | callNative host f args =>
    exact (observation.perform
      (observation.callClosure (observation.evalIn host s.levels)) (f.program host args)).orderly s hs

end Operation

/-- No level is entered and no call is in progress. -/
def Session.AtRest (s : Session) : Prop := s.depth = 0 ∧ s.calls = []

/-- A session at rest is at rest again after an operation. -/
theorem Session.AtRest.perform {s : Session} (h : s.AtRest) (op : Operation) :
    (op.perform s).2.AtRest := by
  have hsettled {t : Session} (ht : s.Settled t) : t.AtRest :=
    ⟨ht.depth.trans h.1, ht.calls.trans h.2⟩
  cases op with
  | define name v => exact h
  | run host program =>
    have hrun : ({ s with depth := 0, calls := [] } : Session).Settled ((s.run host program).2) :=
      (Session.eval_evolves host _ (W := fun _ => True) (fun _ _ => trivial) program trivial).settled
    exact ⟨hrun.depth, hrun.calls⟩
  | eval host e scope =>
    exact hsettled (s.eval_evolves host (W := fun _ => True) (fun _ _ => trivial) e trivial).settled
  | callClosure host f args =>
    exact hsettled (s.callClosure_evolves host (W := fun _ => True) (fun _ _ => trivial) f args).settled
  | callNative host f args =>
    exact hsettled (s.callNative_evolves host (W := fun _ => True) (fun _ _ => trivial) f args).settled

/-- The session after some operations, one after another. -/
def Session.after (s : Session) (ops : List Operation) : Session :=
  ops.foldl (fun s op => (op.perform s).2) s

/-- A session at rest stays so between operations. -/
theorem Session.AtRest.after {s : Session} (h : s.AtRest) (ops : List Operation) :
    (s.after ops).AtRest := by
  induction ops generalizing s with
  | nil => exact h
  | cons op ops ih => exact ih (h.perform op)

/-- The same limit, depth and calls in progress. -/
def Session.Restored (s t : Session) : Prop :=
  t.limit = s.limit ∧ t.depth = s.depth ∧ t.calls = s.calls

/-- What evolution leaves as it was is restored. -/
theorem Session.Settled.restored {s t : Session} (h : s.Settled t) : s.Restored t :=
  ⟨h.limit, h.depth, h.calls⟩

/-- With any number of levels left and from any session, evaluating an expression, a round of a counted
loop and calling a function end with the depth and the calls in progress that they started with. After
any operations on a new session, depth is zero and no call is in progress, so that a run need not reset
them; and every further operation proceeds in order, with the depth within the limit throughout. Each
operation may come with host functions of its own, which may remember what they like. -/
theorem levels_and_calls_restored :
    (∀ (host : Host) (levels : Nat) (s : Session),
      (∀ e scope, s.Restored (evalIn (m := Action) host levels e scope s).2) ∧
      (∀ first test update body isFirst scope,
        s.Restored (roundIn (m := Action) host levels first test update body isFirst scope s).2) ∧
      (∀ f args, s.Restored (callClosure (m := Action) (evalIn host levels) f args s).2) ∧
      (∀ (f : Native) args, s.Restored
        ((f.program host args).perform (m := Action) (callClosure (evalIn host levels)) s).2)) ∧
    ∀ (requested : Int) (ops : List Operation),
      let s := (Session.new requested).after ops
      s.depth = 0 ∧ s.calls = [] ∧ { s with depth := 0, calls := [] } = s ∧
      ∀ op : Operation, (op.observe s).1 = op.perform s ∧ Orderly s.limit (op.observe s).2 := by
  constructor
  · intro host levels s
    have hevolving (scope : ScopeId) :
        (∀ e, (evalIn host levels e scope : Action Value).Evolving (fun _ => True) 0) ∧
        ∀ first test update body isFirst,
          (roundIn host levels first test update body isFirst scope : Action Value).Evolving
            (fun _ => True) 0 :=
      evalIn_roundIn_evolving (fun _ _ => trivial) host levels trivial
    have hcall (f : Closure) (args : List Value) :
        (callClosure (evalIn host levels) f args : Action Value).Evolving (fun _ => True) 0 :=
      callClosure_evolving (fun _ _ => trivial) host levels f args
    refine ⟨fun e scope => ?_, fun first test update body isFirst scope => ?_, fun f args => ?_,
      fun f args => ?_⟩
    · exact ((hevolving scope).1 e s (Nat.zero_le _)).settled.restored
    · exact ((hevolving scope).2 first test update body isFirst s (Nat.zero_le _)).settled.restored
    · exact (hcall f args s (Nat.zero_le _)).settled.restored
    · exact (HostProgram.perform_evolving hcall (f.program host args) s
        (Nat.zero_le _)).settled.restored
  · intro requested ops s
    have hrest : s.AtRest := Session.AtRest.after ⟨rfl, rfl⟩ ops
    obtain ⟨hdepth, hcalls⟩ := hrest
    refine ⟨hdepth, hcalls, ?_, fun op => ⟨op.observe_eq s, op.observe_orderly (by omega)⟩⟩
    rw [← hdepth, ← hcalls]

end StuffScript
