import StuffScript.Proofs.Correspondence
import StuffScript.Proofs.Heap

/-!
# How evaluation changes a session

All that evaluation does to a session comes down to a few steps: it binds a name, makes a scope, takes an
identity for a function, or writes text, and host functions change what they remember; and it brackets
other steps between a level down and a level up, or between the begin and the end of a call.
`Session.Evolves` is generated by these steps, with names bound only in the scopes of a given set.
Whatever the steps respect, evaluation respects.

The main statements are that evaluations and calls evolve the session, for every host.
-/

namespace StuffScript

/-- The second session comes from the first by steps of evaluation that bind names only in the scopes
of a set. -/
inductive Session.Evolves (W : ScopeId → Prop) : Session → Session → Prop
  | refl (s : Session) : Evolves W s s
  | trans {s t u : Session} (hst : Evolves W s t) (htu : Evolves W t u) : Evolves W s u
  | bind (s : Session) {id : ScopeId} (h : W id) (name : String) (b : Binding) :
    Evolves W s { s with scopes := s.scopes.put id name b }
  | extend (s : Session) (parent : ScopeId) :
    Evolves W s { s with scopes := (s.scopes.extend parent).2 }
  | identify (s : Session) : Evolves W s { s with nextId := s.nextId + 1 }
  | write (s : Session) (text : String) :
    Evolves W s { s with console := { s.console with written := s.console.written ++ text } }
  | remember (s : Session) (values : List Value) : Evolves W s { s with memory := values }
  | deeper {s t : Session} (h : s.depth < s.limit)
    (hst : Evolves W { s with depth := s.depth + 1 } t) : Evolves W s (Action.leave t)
  | calling {s t : Session} (name : String)
    (hst : Evolves W { s with calls := name :: s.calls } t) : Evolves W s (Action.popCall t)

/-- All that the first session has written, the second has written too, and perhaps more after it. -/
def Session.WrittenBefore (s t : Session) : Prop :=
  ∃ text, t.console.written = s.console.written ++ text

/-- All that was written was written. -/
theorem Session.WrittenBefore.refl (s : Session) : s.WrittenBefore s :=
  ⟨"", String.append_empty.symm⟩

/-- Adding to output twice is adding to it. -/
theorem Session.WrittenBefore.trans {s t u : Session} (hst : s.WrittenBefore t)
    (htu : t.WrittenBefore u) : s.WrittenBefore u := by
  obtain ⟨first, hfirst⟩ := hst
  obtain ⟨second, hsecond⟩ := htu
  exact ⟨first ++ second, by rw [hsecond, hfirst, String.append_assoc]⟩

/-- What evolution leaves as it was, and what it only adds to. -/
structure Session.Settled (s t : Session) : Prop where
  limit : t.limit = s.limit
  depth : t.depth = s.depth
  calls : t.calls = s.calls
  fault : t.console.fault = s.console.fault
  written : s.WrittenBefore t
  scopes : s.scopes.size ≤ t.scopes.size
  nextId : s.nextId ≤ t.nextId

/-- Every level and every call entered is left again, output is only added to, and neither scopes nor
identities are taken back. -/
theorem Session.Evolves.settled {W : ScopeId → Prop} {s t : Session} (h : Evolves W s t) :
    s.Settled t := by
  induction h with
  | refl s => exact ⟨rfl, rfl, rfl, rfl, .refl s, le_rfl, le_rfl⟩
  | trans _ _ ihst ihtu =>
    exact ⟨ihtu.limit.trans ihst.limit, ihtu.depth.trans ihst.depth, ihtu.calls.trans ihst.calls,
      ihtu.fault.trans ihst.fault, ihst.written.trans ihtu.written,
      ihst.scopes.trans ihtu.scopes, ihst.nextId.trans ihtu.nextId⟩
  | bind s hid name b =>
    exact ⟨rfl, rfl, rfl, rfl, .refl s, (Scopes.size_put s.scopes _ name b).ge, le_rfl⟩
  | extend s parent =>
    refine ⟨rfl, rfl, rfl, rfl, .refl s, ?_, le_rfl⟩
    rw [Scopes.size_extend]
    exact Nat.le_succ _
  | identify s => exact ⟨rfl, rfl, rfl, rfl, .refl s, le_rfl, Nat.le_succ _⟩
  | write s text => exact ⟨rfl, rfl, rfl, rfl, ⟨text, rfl⟩, le_rfl, le_rfl⟩
  | remember s values => exact ⟨rfl, rfl, rfl, rfl, .refl s, le_rfl, le_rfl⟩
  | deeper hdepth _ ih =>
    refine ⟨ih.limit, ?_, ih.calls, ih.fault, ih.written, ih.scopes, ih.nextId⟩
    simp only [Action.leave, ih.depth, Nat.add_sub_cancel]
  | calling name _ ih =>
    refine ⟨ih.limit, ih.depth, ?_, ih.fault, ih.written, ih.scopes, ih.nextId⟩
    simp only [Action.popCall, ih.calls, List.tail_cons]

/-- Binding parameters binds names in one scope. -/
theorem Session.evolves_bindParams {W : ScopeId → Prop} (s : Session) {id : ScopeId} (h : W id)
    (params : List String) (args : List Value) :
    s.Evolves W { s with scopes := Action.bindParams s.scopes id params args } := by
  induction params generalizing s args with
  | nil => exact .refl s
  | cons p params ih =>
    cases args with
    | nil => exact .trans (.bind s h p _) (ih { s with scopes := s.scopes.assign id p _ } [])
    | cons v args => exact .trans (.bind s h p _) (ih { s with scopes := s.scopes.assign id p v } args)

section Actions

variable (W : ScopeId → Prop) (bound : Nat)

/-- An action only evolves sessions that have a number of scopes already. -/
def Action.Evolving {α : Type} (x : Action α) : Prop :=
  ∀ s : Session, bound ≤ s.scopes.size → s.Evolves W (x s).2

variable {W bound}

/-- One action after another evolves the session if the first does and what follows its result does. -/
theorem Action.evolves_bind {α β : Type} {x : Action α} {f : α → Action β} {s : Session}
    (hx : s.Evolves W (x s).2)
    (hf : ∀ a, (x s).1 = .ok a → (x s).2.Evolves W (f a (x s).2).2) :
    s.Evolves W ((x >>= f) s).2 := by
  rw [Action.bind_apply]
  cases hxs : x s with
  | mk r t =>
    rw [hxs] at hx hf
    cases r with
    | ok a => exact .trans hx (hf a rfl)
    | error e => exact hx

/-- One action after another evolves the session, if each of them does. -/
theorem Action.Evolving.bind {α β : Type} {x : Action α} {f : α → Action β}
    (hx : x.Evolving W bound) (hf : ∀ a, (f a).Evolving W bound) : (x >>= f).Evolving W bound := by
  intro s hs
  exact evolves_bind (hx s hs) fun a _ => hf a _ (hs.trans (hx s hs).settled.scopes)

/-- An action a level down evolves the session, if it does at its own level. -/
theorem Action.Evolving.deeper {α : Type} {x : Action α} (hx : x.Evolving W bound) :
    (Action.within Action.enter Action.leave fun _ => x).Evolving W bound := by
  intro s hs
  by_cases h : s.depth < s.limit
  · rw [Action.within_enter_of_lt x h]
    exact .deeper h (hx _ hs)
  · rw [Action.within_enter_of_not_lt x h]
    exact .refl s

/-- An action within a call evolves the session, if it does by itself. -/
theorem Action.Evolving.calling {α : Type} {x : Action α} (hx : x.Evolving W bound) (name : String) :
    (Action.within (Action.pushCall name) Action.popCall fun _ => x).Evolving W bound :=
  fun s hs => .calling name (hx { s with calls := name :: s.calls } hs)

/-- Writing is a step of evolution, or none where the console has a fault. -/
theorem Action.write_evolving (text : String) : (Action.write text).Evolving W bound := by
  intro s _
  unfold Action.write
  split
  · exact .refl s
  · exact .write s text

/-- A host function evolves the session if the calls that it asks for do. -/
theorem HostProgram.perform_evolving {call : Closure → List Value → Action Value}
    (hcall : ∀ c args, (call c args).Evolving W bound) (p : HostProgram) :
    (p.perform call : Action Value).Evolving W bound := by
  induction p with
  | done result =>
    intro s _
    cases result <;> exact .refl s
  | write text next ih => exact Action.Evolving.bind (Action.write_evolving text) ih
  | invoke c args next ih => exact Action.Evolving.bind (hcall c args) ih
  | nested inner next ihInner ih => exact Action.Evolving.bind ihInner ih
  | recollect next ih => exact Action.Evolving.bind (fun s _ => .refl s) ih
  | remember values next ih => exact Action.Evolving.bind (fun s _ => .remember s values) fun _ => ih

/-- Reading a variable changes nothing. -/
theorem Action.value_evolving (σ : ScopeId) (name : String) :
    (Action.value σ name).Evolving W bound := by
  intro s _
  unfold Action.value
  split <;> exact .refl s

/-- Reading what is stuffed changes nothing. -/
theorem Action.stuffed_evolving (σ : ScopeId) (name : String) :
    (Action.stuffed σ name).Evolving W bound := by
  intro s _
  unfold Action.stuffed
  split <;> exact .refl s

/-- Stuffing binds the name in the scope that is asked. -/
theorem Action.stuff_evolving {σ : ScopeId} (h : W σ) (name : String) (v : Value) :
    (Action.stuff σ name v).Evolving W bound := by
  intro s _
  unfold Action.stuff Scopes.stuff
  cases s.scopes.lookup σ name with
  | none => exact .refl s
  | some b => exact .bind s h name _

/-- Operators change nothing. -/
theorem Action.operate_evolving (op : String) (v u : Value) :
    (Action.operate op v u).Evolving W bound := by
  intro s _
  unfold Action.operate
  split <;> exact .refl s

/-- Finding out whether the first part of a loop is due changes nothing. -/
theorem Action.firstPartDue_evolving (first : Expr) (isFirst : Bool) (σ : ScopeId) :
    (Action.firstPartDue first isFirst σ).Evolving W bound := by
  intro s _
  unfold Action.firstPartDue
  split <;> exact .refl s

/-- Opening a call binds its parameters in the scope that it makes. -/
theorem Action.openCall_evolving (hW : ∀ id, bound ≤ id → W id) (f : Closure) (args : List Value) :
    (Action.openCall f args).Evolving W bound := by
  intro s hs
  have hnew : W s.scopes.size := hW _ hs
  exact .trans (.extend s f.scope)
    (Session.evolves_bindParams { s with scopes := (s.scopes.extend f.scope).2 } hnew f.params args)

/-- Actions that evolve the session and whose results stay in a relation. -/
def Action.EvolvingTo {α β : Type} (W : ScopeId → Prop) (bound : Nat) (R : α → β → Prop)
    (x : Action α) : Prop :=
  x.Evolving W bound ∧
    ∀ s : Session, bound ≤ s.scopes.size → ∀ a, (x s).1 = .ok a → ∃ b, R a b

/-- Where values are related to themselves, an action with a value for its result is bound to nothing. -/
theorem Action.Evolving.toValue {x : Action Value} (hx : x.Evolving W bound) :
    x.EvolvingTo W bound (@Eq Value) :=
  ⟨hx, fun _ _ a _ => ⟨a, rfl⟩⟩

/-- Evolution as a correspondence of a run with itself. Scopes correspond when names may be bound in
them; new scopes are among these. -/
def evolution (host : Host) (W : ScopeId → Prop) (bound : Nat) (hW : ∀ id, bound ≤ id → W id) :
    Correspondence Unit host Eq where
  scope _ σ _ := W σ
  value _ := Eq
  holds w R x _ := x.EvolvingTo W bound (R w)
  scope_later _ h := h
  value_later _ h := h
  alike := @Value.Alike.of_eq Unit
  plain _ := rfl
  pure {_ _ _ _ a b} h := by
    refine ⟨fun s _ => .refl s, fun s _ a' ha => ⟨b, ?_⟩⟩
    cases ha
    exact h
  bind {_ _ _ _ _ _ _ x _ f _} hx hf := by
    constructor
    · intro s hs
      refine Action.evolves_bind (hx.1 s hs) fun a ha => ?_
      obtain ⟨b, hab⟩ := hx.2 s hs a ha
      exact (hf () le_rfl a b hab).1 _ (hs.trans (hx.1 s hs).settled.scopes)
    · intro s hs c hc
      rw [Action.bind_apply] at hc
      cases hxs : x s with
      | mk r t =>
        have hgrow := (hx.1 s hs).settled.scopes
        rw [hxs] at hc hgrow
        cases r with
        | error e => cases hc
        | ok a =>
          obtain ⟨b, hab⟩ := hx.2 s hs a (by rw [hxs])
          exact (hf () le_rfl a b hab).2 t (hs.trans hgrow) c hc
  deeper h := h.1.deeper.toValue
  calling name h := (h.1.calling name).toValue
  raise _ := Action.Evolving.toValue fun s _ => .refl s
  read name _ := (Action.value_evolving _ name).toValue
  assign name hσ _ := Action.Evolving.toValue fun s _ => .bind s hσ name _
  stuff name hσ _ := (Action.stuff_evolving hσ name _).toValue
  stuffed name _ := (Action.stuffed_evolving _ name).toValue
  extend {_ σ _} _ := by
    refine ⟨fun s _ => .extend s σ, fun s hs a ha => ⟨a, ?_⟩⟩
    cases ha
    exact hW _ hs
  close _ _ _ _ _ := Action.Evolving.toValue fun s _ => .identify s
  openCall {_ f _ vs _} _ _ := by
    refine ⟨Action.openCall_evolving hW f vs, fun s hs a ha => ⟨a, ?_⟩⟩
    cases ha
    exact hW _ hs
  operate op _ _ := (Action.operate_evolving op _ _).toValue
  firstPartDue first isFirst _ := ⟨Action.firstPartDue_evolving first isFirst _, fun _ _ a _ => ⟨a, rfl⟩⟩
  native {_ _ _ _ _ call _} _ _ hcall := by
    refine (HostProgram.perform_evolving (fun c args => ?_) _).toValue
    exact (hcall () le_rfl c c args args rfl (List.forall₂_same.mpr fun _ _ => rfl)).1

end Actions

section Runs

variable {W : ScopeId → Prop} {bound : Nat} (hW : ∀ id, bound ≤ id → W id) (host : Host)
include hW

/-- Evaluating with any number of levels left evolves the session, and so do the rounds of loops. -/
theorem evalIn_roundIn_evolving (levels : Nat) {σ : ScopeId} (hσ : W σ) :
    (∀ e, (evalIn host levels e σ : Action Value).Evolving W bound) ∧
    (∀ first test update body isFirst,
      (roundIn host levels first test update body isFirst σ : Action Value).Evolving W bound) := by
  obtain ⟨heval, hround⟩ := Correspondence.evalIn_roundIn_same (C := evolution host W bound hW)
    (fun _ => Action.Evolving.toValue fun s _ => .refl s) levels
  exact ⟨fun e => (heval () e e σ σ (.self e) hσ).1, fun first test update body isFirst =>
    (hround () _ _ _ _ _ _ _ _ isFirst σ σ (.self first) (.self test) (.self update) (.self body) hσ).1⟩

/-- A call evolves the session by binding names in new scopes only, whatever the closure refers to. -/
theorem callClosure_evolving (levels : Nat) (f : Closure) (args : List Value) :
    (callClosure (evalIn host levels) f args : Action Value).Evolving W bound := by
  have heval : (evolution host W bound hW).Evaluates (evalIn host levels) (evalIn host levels) :=
    fun _ e _ _ _ _ hσ => ((evalIn_roundIn_evolving hW host levels hσ).1 e).toValue
  exact (Correspondence.callClosure heval (w := ()) (c := f) (d := f) rfl
    (List.forall₂_same.mpr fun v _ => (rfl : v = v))).1

end Runs

namespace Session

variable (host : Host) (s : Session) {W : ScopeId → Prop} (hW : ∀ id, s.scopes.size ≤ id → W id)
include hW

/-- Evaluating in a scope evolves the session by binding names in that scope and in new ones. -/
theorem eval_evolves (e : Expr) {σ : ScopeId} (hσ : W σ) : s.Evolves W (s.eval host e σ).2 := by
  rw [eval_eq]
  exact (evalIn_roundIn_evolving hW host s.levels hσ).1 e s le_rfl

/-- Calling a closure evolves the session. -/
theorem callClosure_evolves (f : Closure) (args : List Value) :
    s.Evolves W (s.callClosure host f args).2 := by
  rw [callClosure_eq]
  exact callClosure_evolving hW host s.levels f args s le_rfl

/-- Calling a host function evolves the session. -/
theorem callNative_evolves (f : Native) (args : List Value) :
    s.Evolves W (s.callNative host f args).2 := by
  rw [callNative_eq]
  exact HostProgram.perform_evolving (callClosure_evolving hW host s.levels) _ s le_rfl

/-- A counted loop binds names in the scope that it makes and in later ones, and so not in the scope
that it is evaluated in. -/
theorem countedLoop_evolves (span place : Span) (first test update body : Expr) (σ : ScopeId) :
    s.Evolves W (s.eval host (.loop span (.block place [first, test, update]) body) σ).2 := by
  rw [eval_eq]
  cases s.levels with
  | zero =>
    rw [evalIn_zero]
    exact .refl s
  | succ levels =>
    simp only [evalIn, evalStep]
    refine Action.Evolving.deeper (fun t ht => ?_) s le_rfl
    refine Action.evolves_bind (.extend t σ) fun inner hinner => ?_
    cases hinner
    exact (evalIn_roundIn_evolving hW host levels (hW _ ht)).2 first test update body true _
      (ht.trans (Session.Evolves.extend (W := W) t σ).settled.scopes)

end Session

end StuffScript
