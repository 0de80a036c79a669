import StuffScript.Proofs.Balance

/-!
# What single actions read

The single actions that the rules of evaluation perform work on scopes, identities, output and what host
functions remember. They look neither at the depth of evaluation nor at the calls in progress, except that
a failure lists the calls. So where only these differ between two sessions, a single action does the same
in both.
-/

namespace StuffScript

/-- A failure that arises lists no calls yet, and wraps no other. -/
def Failure.Bare : Failure → Prop
  | .runtime e => e.stack = []
  | .wrapped _ _ => False
  | .plain _ => True

/-- At every depth and in all calls the action does the same, and if it fails then with a failure of a
kind, on which the calls in progress are recorded. -/
def Action.Blind {α : Type} (F : Failure → Prop) (x : Action α) : Prop :=
  ∀ s : Session,
    (∃ (a : α) (t : Session), ∀ depth calls, x { s with depth := depth, calls := calls } =
      (.ok a, { t with depth := depth, calls := calls })) ∨
    ∃ (f : Failure) (t : Session), F f ∧ ∀ depth calls, x { s with depth := depth, calls := calls } =
      (.error (f.recordCalls calls), { t with depth := depth, calls := calls })

namespace Action.Blind

/-- An action that fails with one kind of failures fails with any wider kind. -/
theorem mono {α : Type} {F G : Failure → Prop} {x : Action α} (h : x.Blind F) (hFG : ∀ f, F f → G f) :
    x.Blind G := by
  intro s
  refine (h s).imp_right fun hfails => ?_
  obtain ⟨f, t, hf, hx⟩ := hfails
  exact ⟨f, t, hFG f hf, hx⟩

/-- Raising a fault does not look at depth and calls. -/
theorem raise (f : Fault) : (Action.raise f : Action Value).Blind Failure.Bare :=
  fun s => .inr ⟨.runtime f.error, s, rfl, fun _ _ => rfl⟩

/-- Failing for want of levels tells the limit, not the depth. -/
theorem exhausted : Action.exhausted.Blind Failure.Bare :=
  fun s => .inr ⟨.runtime (Fault.stackExhausted s.limit).error, s, rfl, fun _ _ => rfl⟩

/-- Reading a variable does not look at depth and calls. -/
theorem value (σ : ScopeId) (name : String) : (Action.value σ name).Blind Failure.Bare := by
  intro s
  cases h : s.scopes.value σ name with
  | ok v => exact .inl ⟨v, s, fun _ _ => by simp only [Action.value, h]⟩
  | error f => exact .inr ⟨.runtime f.error, s, rfl, fun _ _ => by simp only [Action.value, h]; rfl⟩

/-- Assigning does not look at depth and calls. -/
theorem assign (σ : ScopeId) (name : String) (v : Value) : (Action.assign σ name v).Blind Failure.Bare :=
  fun s => .inl ⟨v, { s with scopes := s.scopes.assign σ name v }, fun _ _ => rfl⟩

/-- Stuffing does not look at depth and calls. -/
theorem stuff (σ : ScopeId) (name : String) (v : Value) : (Action.stuff σ name v).Blind Failure.Bare := by
  intro s
  cases h : s.scopes.stuff σ name v with
  | ok scopes => exact .inl ⟨v, { s with scopes := scopes }, fun _ _ => by simp only [Action.stuff, h]⟩
  | error f => exact .inr ⟨.runtime f.error, s, rfl, fun _ _ => by simp only [Action.stuff, h]; rfl⟩

/-- Reading what is stuffed does not look at depth and calls. -/
theorem stuffed (σ : ScopeId) (name : String) : (Action.stuffed σ name).Blind Failure.Bare := by
  intro s
  cases h : s.scopes.stuffed σ name with
  | ok v => exact .inl ⟨v, s, fun _ _ => by simp only [Action.stuffed, h]⟩
  | error f => exact .inr ⟨.runtime f.error, s, rfl, fun _ _ => by simp only [Action.stuffed, h]; rfl⟩

/-- A scope is opened at every depth alike. -/
theorem extend (σ : ScopeId) : (Action.extend σ).Blind Failure.Bare :=
  fun s => .inl ⟨(s.scopes.extend σ).1, { s with scopes := (s.scopes.extend σ).2 }, fun _ _ => rfl⟩

/-- A function gets the same identity at every depth and in all calls. -/
theorem close (params : List String) (body : Expr) (σ : ScopeId) :
    (Action.close params body σ).Blind Failure.Bare :=
  fun s => .inl ⟨.closure ⟨s.nextId, params, body, σ⟩, { s with nextId := s.nextId + 1 }, fun _ _ => rfl⟩

/-- The scope of a call does not depend on the calls in progress. -/
theorem openCall (f : Closure) (args : List Value) : (Action.openCall f args).Blind Failure.Bare := by
  intro s
  let made := s.scopes.extend f.scope
  exact .inl ⟨made.1, { s with scopes := bindParams made.2 made.1 f.params args }, fun _ _ => rfl⟩

/-- Operators do not look at depth and calls. -/
theorem operate (op : String) (l r : Value) : (Action.operate op l r).Blind Failure.Bare := by
  intro s
  cases h : applyOperator op l r with
  | ok v => exact .inl ⟨v, s, fun _ _ => by simp only [Action.operate, h]⟩
  | error f => exact .inr ⟨.runtime f.error, s, rfl, fun _ _ => by simp only [Action.operate, h]; rfl⟩

/-- Whether the first part of a loop is due is seen in the scope alone. -/
theorem firstPartDue (first : Expr) (isFirst : Bool) (σ : ScopeId) :
    (Action.firstPartDue first isFirst σ).Blind Failure.Bare := by
  intro s
  cases h : first.assigned? with
  | none => exact .inl ⟨isFirst, s, fun _ _ => by simp only [Action.firstPartDue, h]⟩
  | some name =>
    exact .inl ⟨!s.scopes.owns σ name, s, fun _ _ => by simp only [Action.firstPartDue, h]⟩

/-- Writing does not look at depth and calls. -/
theorem write (text : String) : (Action.write text).Blind Failure.Bare := by
  intro s
  cases h : s.console.fault with
  | some reason => exact .inl ⟨some reason, s, fun _ _ => by simp only [Action.write, h]⟩
  | none =>
    exact .inl ⟨none, { s with console := { s.console with written := s.console.written ++ text } },
      fun _ _ => by simp only [Action.write, h]⟩

/-- What host functions remember does not depend on depth and calls. -/
theorem recollect : Action.recollect.Blind Failure.Bare :=
  fun s => .inl ⟨s.memory, s, fun _ _ => rfl⟩

/-- What host functions remember is replaced at every depth alike. -/
theorem remember (values : List Value) : (Action.remember values).Blind Failure.Bare :=
  fun s => .inl ⟨(), { s with memory := values }, fun _ _ => rfl⟩

/-- A result is passed on with the failures that it has. -/
theorem conclude {F : Failure → Prop} {result : Outcome Value} (h : ∀ f, result = .error f → F f) :
    (Action.conclude result).Blind F := by
  intro s
  cases result with
  | ok v => exact .inl ⟨v, s, fun _ _ => rfl⟩
  | error f => exact .inr ⟨f, s, h f rfl, fun _ _ => rfl⟩

end Action.Blind

/-- Single actions look neither at the depth nor at the calls in progress. -/
theorem Action.Single.blind {α : Type} {x : Action α} (h : x.Single) : x.Blind fun _ => True := by
  have hany {β : Type} {y : Action β} (hy : y.Blind Failure.Bare) : y.Blind fun _ => True :=
    hy.mono fun _ _ => trivial
  cases h with
  | exhausted => exact hany .exhausted
  | raise f => exact hany (.raise f)
  | value σ name => exact hany (.value σ name)
  | assign σ name v => exact hany (.assign σ name v)
  | stuff σ name v => exact hany (.stuff σ name v)
  | stuffed σ name => exact hany (.stuffed σ name)
  | extend σ => exact hany (.extend σ)
  | close params body σ => exact hany (.close params body σ)
  | openCall f args => exact hany (.openCall f args)
  | operate op l r => exact hany (.operate op l r)
  | firstPartDue first isFirst σ => exact hany (.firstPartDue first isFirst σ)
  | write text => exact hany (.write text)
  | recollect => exact hany .recollect
  | remember values => exact hany (.remember values)
  | conclude result => exact .conclude fun _ _ => trivial

end StuffScript
