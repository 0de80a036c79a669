import StuffScript.Proofs.DepthLimit

/-!
# Host functions that pass failures on

A host function that has a closure called learns how the call ended, a failure included, and may return
something else. Nothing in the language can do that. So what holds of failures for want of levels in general
is stated for hosts whose functions pass them on, and such a function is carried out alike on two carriers,
for relations that leave out what fails so: see `HostProgram.PassesOn.perform_related`.
-/

namespace StuffScript

/-- Whatever it is answered, the host function ends in a failure for want of levels. -/
inductive HostProgram.Exhausted : HostProgram → Prop
  | done {result : Outcome Value} (h : result.Exhausted) : Exhausted (.done result)
  | write (text : String) {next : Option String → HostProgram} (h : ∀ reason, Exhausted (next reason)) :
    Exhausted (.write text next)
  | invoke (f : Closure) (args : List Value) {next : Outcome Value → HostProgram}
    (h : ∀ result, Exhausted (next result)) : Exhausted (.invoke f args next)
  | nested (inner : HostProgram) {next : Outcome Value → HostProgram}
    (h : ∀ result, Exhausted (next result)) : Exhausted (.nested inner next)
  | recollect {next : List Value → HostProgram} (h : ∀ values, Exhausted (next values)) :
    Exhausted (.recollect next)
  | remember (values : List Value) {next : HostProgram} (h : Exhausted next) :
    Exhausted (.remember values next)

/-- A host function that passes on failures for want of levels: after a call that ended in one, it ends
in one itself. Other failures it may do with as it likes. -/
inductive HostProgram.PassesOn : HostProgram → Prop
  | done (result : Outcome Value) : PassesOn (.done result)
  | write (text : String) {next : Option String → HostProgram} (h : ∀ reason, PassesOn (next reason)) :
    PassesOn (.write text next)
  | invoke (f : Closure) (args : List Value) {next : Outcome Value → HostProgram}
    (h : ∀ result, PassesOn (next result))
    (hfail : ∀ result : Outcome Value, result.Exhausted → (next result).Exhausted) :
    PassesOn (.invoke f args next)
  | nested {inner : HostProgram} {next : Outcome Value → HostProgram} (hinner : PassesOn inner)
    (h : ∀ result, PassesOn (next result))
    (hfail : ∀ result : Outcome Value, result.Exhausted → (next result).Exhausted) :
    PassesOn (.nested inner next)
  | recollect {next : List Value → HostProgram} (h : ∀ values, PassesOn (next values)) :
    PassesOn (.recollect next)
  | remember (values : List Value) {next : HostProgram} (h : PassesOn next) :
    PassesOn (.remember values next)

/-- All host functions pass on failures for want of levels. -/
def Host.PassesOn (host : Host) : Prop :=
  ∀ behaviour name args, (host behaviour name args).PassesOn

/-- A host function that has nothing called has no failure to hide. -/
theorem HostProgram.Plain.passesOn {p : HostProgram} (h : p.Plain) : p.PassesOn := by
  induction h with
  | @done result _ => exact .done result
  | write text _ ih => exact .write text ih

/-- The functions that every program starts with pass failures on, and the others do if the host does. -/
theorem Native.program_passesOn {host : Host} (hhost : host.PassesOn) (f : Native) (args : List Value) :
    (f.program host args).PassesOn := by
  obtain ⟨id, name, routine⟩ := f
  cases routine with
  | print => exact (Native.program_plain ⟨id, name, .print⟩ args).passesOn
  | exp => exact (Native.program_plain ⟨id, name, .exp⟩ args).passesOn
  | fact => exact (Native.program_plain ⟨id, name, .fact⟩ args).passesOn
  | host behaviour => exact hhost behaviour name args

/-- Recording the calls in progress does not change the kind of a failure. -/
theorem Failure.recordCalls_hasKind (calls : List String) (f : Failure) (kind : ErrorKind) :
    (f.recordCalls calls).hasKind kind = f.hasKind kind := by
  cases f with
  | plain text => rfl
  | runtime e =>
    simp only [recordCalls, cause?]
    split <;> rfl
  | wrapped text e =>
    simp only [recordCalls, cause?]
    split <;> rfl

/-- Writing always has an answer. -/
theorem Action.write_answers (text : String) (s : Session) :
    ∃ reason t, Action.write text s = (.ok reason, t) := by
  unfold Action.write
  split <;> exact ⟨_, _, rfl⟩

/-- A host function that is bound to fail for want of levels does, however calls are carried out. -/
theorem HostProgram.Exhausted.perform {p : HostProgram} (h : p.Exhausted)
    (call : Closure → List Value → Action Value) (s : Session) :
    Outcome.Exhausted (p.perform call s).1 := by
  induction h generalizing s with
  | done h =>
    obtain ⟨f, rfl, hkind⟩ := h
    exact ⟨f.recordCalls s.calls, rfl, by rw [Failure.recordCalls_hasKind, hkind]⟩
  | @write text next _ ih =>
    obtain ⟨reason, t, hwrite⟩ := Action.write_answers text s
    change Outcome.Exhausted ((Action.write text >>= fun reason => (next reason).perform call) s).1
    rw [Action.bind_apply, hwrite]
    exact ih reason t
  | invoke f args _ ih => exact ih (call f args s).1 (call f args s).2
  | nested inner _ ih => exact ih (inner.perform call s).1 (inner.perform call s).2
  | recollect _ ih => exact ih s.memory s
  | remember values _ ih => exact ih { s with memory := values }

/-- Carrying out a host function that passes failures on respects a relation that leaves out what fails for
want of levels, if the operations that it is made of do and calling closures does. -/
theorem HostProgram.PassesOn.perform_related {n : Type → Type} [Carrier n]
    {R : {α : Type} → Action α → n α → Prop}
    (hbind : ∀ {α β : Type} {x : Action α} {y : n α} {f : α → Action β} {g : α → n β},
      R x y → (∀ a, R (f a) (g a)) → R (x >>= f) (y >>= g))
    (hact : ∀ {α : Type} {x : Action α}, x.Single → R x (Carrier.act x : n α))
    (hattempt : ∀ {x : Action Value} {y : n Value} {f : Outcome Value → Action Value}
      {g : Outcome Value → n Value}, R x y →
      (∀ r : Outcome Value, r.Exhausted → ∀ s, Outcome.Exhausted (f r s).1) → (∀ r, R (f r) (g r)) →
      R (Action.attempt x >>= f) (Carrier.attempt y >>= g))
    {p : HostProgram} (hp : p.PassesOn) {call : Closure → List Value → Action Value}
    {call' : Closure → List Value → n Value} (h : ∀ c args, R (call c args) (call' c args)) :
    R (p.perform call) (p.perform call') := by
  induction hp with
  | done result => exact hact (.conclude result)
  | write text _ ih => exact hbind (hact (.write text)) ih
  | invoke f args _ hfail ih => exact hattempt (h f args) (fun r hr => (hfail r hr).perform call) ih
  | nested _ _ hfail ihInner ih => exact hattempt ihInner (fun r hr => (hfail r hr).perform call) ih
  | recollect _ ih => exact hbind (hact .recollect) ih
  | remember values _ ih => exact hbind (hact (.remember values)) fun _ => ih

end StuffScript
