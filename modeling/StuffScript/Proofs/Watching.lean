import StuffScript.Proofs.Builtins
import StuffScript.Proofs.Conformance
import StuffScript.Proofs.StoredValues

/-!
# What evaluation comes across

An evaluation refers to scopes by number, and calls functions that refer to scopes and to parts of
programs. Here it is watched: every evaluation of an expression, every call and every value returned is
noted down, with the session at that moment.

The main statement is `evalWatched_shows`: from a founded session on, everything that is seen is founded,
and a watched evaluation ends as the plain one does. Host functions may do what they like with the values
that they get to know, and may remember them for later calls.
-/

namespace StuffScript

/-- Something that happens in an evaluation. -/
inductive Event where
  | evaluates (e : Expr) (scope : ScopeId)
  | calls (f : Value) (args : List Value)
  | returns (v : Value)

/-- An event, and the session when it happens. -/
structure Sighting where
  session : Session
  event : Event

/-- The values that an event shows. -/
def Event.values : Event → List Value
  | evaluates _ _ => []
  | calls f args => f :: args
  | returns v => [v]

/-- An action, and what is seen of it. -/
def Watched (α : Type) : Type := Session → (Outcome α × Session) × List Sighting

namespace Watched

/-- Give a result. -/
def pure {α : Type} (a : α) : Watched α := fun s => ((.ok a, s), [])

/-- One after another, and what is seen of both. -/
def bind {α β : Type} (x : Watched α) (f : α → Watched β) : Watched β := fun s =>
  match x s with
  | ((.ok a, t), seen) => ((f a t).1, seen ++ (f a t).2)
  | ((.error e, t), seen) => ((.error e, t), seen)

/-- Perform an action, of which nothing is seen. -/
def act {α : Type} (x : Action α) : Watched α := fun s => (x s, [])

/-- Perform, and give failures as results. -/
def attempt {α : Type} (x : Watched α) : Watched (Outcome α) := fun s =>
  ((.ok (x s).1.1, (x s).1.2), (x s).2)

/-- Perform between an entry and an exit. -/
def within {α : Type} (enter : Action Unit) (leave : Session → Session) (x : Unit → Watched α) :
    Watched α := fun s =>
  match enter s with
  | (.error e, t) => ((.error e, t), [])
  | (.ok _, t) => (((x () t).1.1, leave (x () t).1.2), (x () t).2)

/-- See an event, and what comes of it. -/
def noted (event : Event) (x : Watched Value) : Watched Value := fun s =>
  match x s with
  | ((.ok v, t), seen) => ((.ok v, t), ⟨s, event⟩ :: (seen ++ [⟨t, .returns v⟩]))
  | ((.error f, t), seen) => ((.error f, t), ⟨s, event⟩ :: seen)

end Watched

instance : Carrier Watched where
  pure := Watched.pure
  bind := Watched.bind
  act := Watched.act
  attempt := Watched.attempt
  within := Watched.within

/-- Call a closure, which is seen. -/
def closureWatched (eval : Expr → ScopeId → Watched Value) (f : Closure) (args : List Value) :
    Watched Value :=
  Watched.noted (.calls (.closure f) args) (callClosure eval f args)

/-- Call a host function, which is seen, and so is what it calls in turn. -/
def nativeWatched (host : Host) (eval : Expr → ScopeId → Watched Value) (f : Native) (args : List Value) :
    Watched Value :=
  Watched.noted (.calls (.native f) args) ((f.program host args).perform (closureWatched eval))

/-- Call a value, which is seen if it is a function. -/
def callWatched (host : Host) (eval : Expr → ScopeId → Watched Value) (name : String) (f : Value)
    (args : List Value) : Watched Value :=
  match f with
  | .closure f =>
    Watched.within (Action.pushCall name) Action.popCall fun _ => closureWatched eval f args
  | .native f =>
    Watched.within (Action.pushCall name) Action.popCall fun _ => nativeWatched host eval f args
  | v => Watched.act (Action.raise (.notFunction name v))

mutual

/-- Evaluate an expression, which is seen. -/
def evalWatched (host : Host) : (levels : Nat) → Expr → ScopeId → Watched Value
  | 0, _, _ => Watched.act Action.exhausted
  | levels + 1, e, scope => Watched.within Action.enter Action.leave fun _ =>
    Watched.noted (.evaluates e scope)
      (evalStepCalling (callWatched host (evalWatched host levels)) (evalWatched host levels)
        (roundWatched host levels) e scope)

/-- A round of a counted loop, and the rounds after it. -/
def roundWatched (host : Host) :
    (levels : Nat) → (first test update body : Expr) → (isFirst : Bool) → ScopeId → Watched Value
  | 0, _, _, _, _, _, _ => Watched.act Action.exhausted
  | levels + 1, first, test, update, body, isFirst, scope =>
    Watched.within Action.enter Action.leave fun _ =>
      roundStep (evalWatched host levels) (roundWatched host levels) first test update body isFirst scope

end

/-- What is seen is founded: the session and the values shown are, and an expression is part of a program
and evaluated in a scope that exists, as do all scopes around it. -/
structure Sighting.Founded (programs : List Expr) (held : List Value) (n : Sighting) : Prop where
  session : n.session.Founded programs held
  values : ∀ v ∈ n.event.values, v.Founded programs n.session.bounds
  evaluated : ∀ e σ, n.event = .evaluates e σ → e.PartOf programs ∧ n.session.scopes.Grounded σ

section Showing

variable (programs : List Expr) (held : List Value)

/-- What a watched computation may report from a session: it ends in a founded session with at least as
many scopes and identities, and with a result that is good for bounds reached by then; and what is seen is
founded. -/
structure Watched.Reports {α : Type} (w : Nat × Nat) (R : Nat × Nat → α → Prop) (s : Session)
    (report : (Outcome α × Session) × List Sighting) : Prop where
  founded : report.1.2.Founded programs held
  grown : s.bounds ≤ report.1.2.bounds
  result : ∀ a, report.1.1 = .ok a → ∃ w', w ≤ w' ∧ w' ≤ report.1.2.bounds ∧ R w' a
  seen : ∀ n ∈ report.2, n.Founded programs held ∧ n.session.bounds ≤ report.1.2.bounds

/-- From every founded session with at least the given bounds, the watched computation ends as the action
does, and reports well. -/
def Watched.Shows {α : Type} (w : Nat × Nat) (R : Nat × Nat → α → Prop) (x : Action α) (y : Watched α) :
    Prop :=
  ∀ s : Session, s.Founded programs held → w ≤ s.bounds →
    (y s).1 = x s ∧ Watched.Reports programs held w R s (y s)

variable {programs held}

namespace Watched.Shows

variable {α β : Type} {w : Nat × Nat} {R : Nat × Nat → α → Prop} {S : Nat × Nat → β → Prop}

/-- Giving a good result shows nothing. -/
theorem pure {a : α} (h : R w a) : Shows programs held w R (Pure.pure a) (Pure.pure a) := by
  intro s hs hw
  refine ⟨rfl, hs, le_rfl, fun b hb => ⟨w, le_rfl, hw, ?_⟩, List.forall_mem_nil _⟩
  cases hb
  exact h

/-- One after another reports well if both do. -/
theorem bind {x : Action α} {y : Watched α} {f : α → Action β} {g : α → Watched β}
    (hx : Shows programs held w R x y)
    (hf : ∀ w', w ≤ w' → ∀ a, R w' a → Shows programs held w' S (f a) (g a)) :
    Shows programs held w S (x >>= f) (y >>= g) := by
  intro s hs hw
  obtain ⟨hsame, hfounded, hgrown, hresult, hseen⟩ := hx s hs hw
  change (Watched.bind y g s).1 = _ ∧ Watched.Reports programs held w S s (Watched.bind y g s)
  rw [Action.bind_apply, ← hsame, Watched.bind]
  revert hfounded hgrown hresult hseen
  rcases y s with ⟨⟨r, t⟩, seen⟩
  intro hfounded hgrown hresult hseen
  cases r with
  | error e =>
    refine ⟨rfl, hfounded, hgrown, fun b hb => ?_, hseen⟩
    cases hb
  | ok a =>
    obtain ⟨w', hle, hle', ha⟩ := hresult a rfl
    obtain ⟨hsame', hfounded', hgrown', hresult', hseen'⟩ := hf w' hle a ha t hfounded hle'
    refine ⟨hsame', hfounded', hgrown.trans hgrown', fun b hb => ?_, ?_⟩
    · obtain ⟨w'', hmore, hrest⟩ := hresult' b hb
      exact ⟨w'', hle.trans hmore, hrest⟩
    · refine List.forall_mem_append.mpr ⟨fun n hn => ?_, hseen'⟩
      obtain ⟨hn, hsize⟩ := hseen n hn
      exact ⟨hn, hsize.trans hgrown'⟩

/-- Nothing is seen of an action, so only its ending matters. -/
theorem act {x : Action α} (h : ∀ s : Session, s.Founded programs held → w ≤ s.bounds →
    (x s).2.Founded programs held ∧ s.bounds ≤ (x s).2.bounds ∧
      ∀ a, (x s).1 = .ok a → R (x s).2.bounds a) :
    Shows programs held w R x (Carrier.act x : Watched α) := by
  intro s hs hw
  obtain ⟨hfounded, hgrown, hresult⟩ := h s hs hw
  exact ⟨rfl, hfounded, hgrown, fun a ha => ⟨_, hw.trans hgrown, le_rfl, hresult a ha⟩,
    List.forall_mem_nil _⟩

/-- An action that does not change the session only has to be looked at for its results. -/
theorem act_same {x : Action α} (hsame : ∀ s, (x s).2 = s)
    (hresult : ∀ s : Session, s.Founded programs held → w ≤ s.bounds → ∀ a, (x s).1 = .ok a →
      R s.bounds a) :
    Shows programs held w R x (Carrier.act x : Watched α) := by
  refine act fun s hs hw => ?_
  rw [hsame s]
  exact ⟨hs, le_rfl, hresult s hs hw⟩

/-- Catching a failure reports well if what may fail does. -/
theorem attempt {x : Action α} {y : Watched α} (hx : Shows programs held w R x y) :
    Shows programs held w (fun w' r => ∀ a, r = .ok a → R w' a) (Action.attempt x)
      (Carrier.attempt y : Watched (Outcome α)) := by
  intro s hs hw
  obtain ⟨hsame, hfounded, hgrown, hresult, hseen⟩ := hx s hs hw
  refine ⟨?_, hfounded, hgrown, fun r hr => ?_, hseen⟩
  · change (Except.ok (y s).1.1, (y s).1.2) = _
    rw [hsame]
    rfl
  · have hr : (y s).1.1 = r := Except.ok.inj hr
    subst hr
    cases h : (y s).1.1 with
    | error e =>
      refine ⟨w, le_rfl, hw.trans hgrown, fun a ha => ?_⟩
      cases ha
    | ok a =>
      obtain ⟨w', hle, hle', ha⟩ := hresult a h
      refine ⟨w', hle, hle', fun b hb => ?_⟩
      cases hb
      exact ha

/-- One level deeper the same things are founded. -/
theorem deeper {x : Action α} {y : Watched α} (hx : Shows programs held w R x y) :
    Shows programs held w R (Action.within Action.enter Action.leave fun _ => x)
      (Watched.within Action.enter Action.leave fun _ => y) := by
  intro s hs hw
  rw [Watched.within, Action.enter]
  by_cases hlt : s.depth < s.limit
  · obtain ⟨hsame, hfounded, hgrown, hresult, hseen⟩ :=
      hx { s with depth := s.depth + 1 } (hs.congr rfl rfl rfl) hw
    rw [if_pos hlt, Action.within_enter_of_lt x hlt, ← hsame]
    exact ⟨rfl, hfounded.congr rfl rfl rfl, hgrown, hresult, hseen⟩
  · rw [if_neg hlt, Action.within_enter_of_not_lt x hlt]
    refine ⟨rfl, hs, le_rfl, fun a ha => ?_, List.forall_mem_nil _⟩
    cases ha

/-- Inside a call the same things are founded. -/
theorem calling {x : Action α} {y : Watched α} (name : String) (hx : Shows programs held w R x y) :
    Shows programs held w R (Action.within (Action.pushCall name) Action.popCall fun _ => x)
      (Watched.within (Action.pushCall name) Action.popCall fun _ => y) := by
  intro s hs hw
  obtain ⟨hsame, hfounded, hgrown, hresult, hseen⟩ :=
    hx { s with calls := name :: s.calls } (hs.congr rfl rfl rfl) hw
  refine ⟨?_, hfounded.congr rfl rfl rfl, hgrown, hresult, hseen⟩
  exact congrArg (fun ending => (ending.1, Action.popCall ending.2)) hsame

/-- An event that is founded in every session may be seen, and so may a result that is founded. -/
theorem noted {x : Action Value} {y : Watched Value} {event : Event}
    (hx : Shows programs held w (Value.Founded programs) x y)
    (hevent : ∀ s : Session, s.Founded programs held → w ≤ s.bounds →
      Sighting.Founded programs held ⟨s, event⟩) :
    Shows programs held w (Value.Founded programs) x (Watched.noted event y) := by
  intro s hs hw
  obtain ⟨hsame, hfounded, hgrown, hresult, hseen⟩ := hx s hs hw
  have hfirst := hevent s hs hw
  rw [← hsame, Watched.noted]
  revert hfounded hgrown hresult hseen
  rcases y s with ⟨⟨r, t⟩, seen⟩
  intro hfounded hgrown hresult hseen
  cases r with
  | error e => exact ⟨rfl, hfounded, hgrown, hresult, List.forall_mem_cons.mpr ⟨⟨hfirst, hgrown⟩, hseen⟩⟩
  | ok v =>
    obtain ⟨w', _, hle', hv⟩ := hresult v rfl
    have hlast : Sighting.Founded programs held ⟨t, .returns v⟩ := by
      refine ⟨hfounded, List.forall_mem_singleton.mpr (hv.later hle'), fun e σ h => ?_⟩
      cases h
    refine ⟨rfl, hfounded, hgrown, hresult, List.forall_mem_cons.mpr ⟨⟨hfirst, hgrown⟩, ?_⟩⟩
    exact List.forall_mem_append.mpr ⟨hseen, List.forall_mem_singleton.mpr ⟨hlast, le_rfl⟩⟩

end Watched.Shows

section Actions

variable {w : Nat × Nat}

/-- The value of a variable is stored. -/
theorem Action.value_shows (σ : ScopeId) (name : String) :
    Watched.Shows programs held w (Value.Founded programs) (Action.value σ name)
      (Carrier.act (Action.value σ name)) := by
  refine .act_same (fun s => ?_) fun s hs _ v hv => ?_
  · unfold Action.value
    split <;> rfl
  · simp only [Action.value, Scopes.value] at hv
    cases hb : s.scopes.lookup σ name with
    | none => simp [hb] at hv
    | some b =>
      simp only [hb] at hv
      cases hv
      exact hs.scopes.lookup hb (.inl rfl)

/-- A value stuffed on a variable is stored. -/
theorem Action.stuffed_shows (σ : ScopeId) (name : String) :
    Watched.Shows programs held w (Value.Founded programs) (Action.stuffed σ name)
      (Carrier.act (Action.stuffed σ name)) := by
  refine .act_same (fun s => ?_) fun s hs _ v hv => ?_
  · unfold Action.stuffed
    split <;> rfl
  · simp only [Action.stuffed, Scopes.stuffed] at hv
    cases hb : s.scopes.lookup σ name with
    | none => simp [hb] at hv
    | some b =>
      obtain ⟨value, stuffed⟩ := b
      cases stuffed with
      | none => simp [hb] at hv
      | some u =>
        simp only [hb] at hv
        cases hv
        exact hs.scopes.lookup hb (.inr rfl)

/-- Assigning stores a founded value, and returns it. -/
theorem Action.assign_shows (σ : ScopeId) (name : String) {v : Value} (hv : v.Founded programs w) :
    Watched.Shows programs held w (Value.Founded programs) (Action.assign σ name v)
      (Carrier.act (Action.assign σ name v)) := by
  refine .act fun s hs hw => ?_
  have hbounds : Session.bounds { s with scopes := s.scopes.assign σ name v } = s.bounds := by
    simp only [Session.bounds, Scopes.assign, Scopes.size_put]
  refine ⟨hs.put σ name fun u hu => Binding.carries_assigned.mp hu ▸ hv.later hw, hbounds.ge,
    fun u hu => ?_⟩
  cases hu
  exact hv.later (hw.trans hbounds.ge)

/-- Stuffing stores a founded value beside the one that is stored already. -/
theorem Action.stuff_shows (σ : ScopeId) (name : String) {v : Value} (hv : v.Founded programs w) :
    Watched.Shows programs held w (Value.Founded programs) (Action.stuff σ name v)
      (Carrier.act (Action.stuff σ name v)) := by
  refine .act fun s hs hw => ?_
  simp only [Action.stuff, Scopes.stuff]
  cases hb : s.scopes.lookup σ name with
  | none =>
    refine ⟨hs, le_rfl, fun a ha => ?_⟩
    cases ha
  | some b =>
    have hbounds : Session.bounds
        { s with scopes := s.scopes.put σ name { value := b.value, stuffed := some v } } = s.bounds := by
      simp only [Session.bounds, Scopes.size_put]
    refine ⟨hs.put σ name fun u hu => ?_, hbounds.ge, fun u hu => ?_⟩
    · rcases hu with rfl | hu
      · exact hs.scopes.lookup hb (.inl rfl)
      · cases hu
        exact hv.later hw
    · cases hu
      exact hv.later (hw.trans hbounds.ge)

/-- A scope that is made exists. -/
theorem Action.extend_shows {σ : ScopeId} (hσ : σ < w.1) :
    Watched.Shows programs held w (fun w' τ => τ < w'.1) (Action.extend σ)
      (Carrier.act (Action.extend σ)) := by
  refine .act fun s hs hw => ?_
  have hsize := Scopes.size_extend s.scopes σ
  refine ⟨hs.extend (Nat.lt_of_lt_of_le hσ hw.1), ⟨hsize.ge.trans' (Nat.le_succ _), le_rfl⟩, fun τ hτ => ?_⟩
  cases hτ
  exact hsize.ge

/-- A closure that is made refers to the scope at hand and to a part of the program. -/
theorem Action.close_shows (params : List String) {body : Expr} (hbody : body.PartOf programs)
    {σ : ScopeId} (hσ : σ < w.1) :
    Watched.Shows programs held w (Value.Founded programs) (Action.close params body σ)
      (Carrier.act (Action.close params body σ)) := by
  refine .act fun s hs hw => ⟨hs.identify, ⟨le_rfl, Nat.le_succ _⟩, fun v hv => ?_⟩
  cases hv
  exact ⟨Nat.lt_of_lt_of_le hσ hw.1, Nat.lt_succ_self _, hbody⟩

/-- The scope of a call exists, and its parameters are bound to founded values. -/
theorem Action.openCall_shows {f : Closure} {args : List Value}
    (hf : (Value.closure f).Founded programs w) (hargs : ∀ v ∈ args, v.Founded programs w) :
    Watched.Shows programs held w (fun w' τ => τ < w'.1) (Action.openCall f args)
      (Carrier.act (Action.openCall f args)) := by
  refine .act fun s hs hw => ?_
  have hsize := Scopes.size_extend s.scopes f.scope
  have hgrown : s.bounds ≤ Session.bounds { s with scopes := (s.scopes.extend f.scope).2 } :=
    ⟨hsize.ge.trans' (Nat.le_succ _), le_rfl⟩
  obtain ⟨hfounded, hlast⟩ := (hs.extend (Nat.lt_of_lt_of_le hf.1 hw.1)).bindParams s.scopes.size f.params
    fun v hv => (hargs v hv).later (hw.trans hgrown)
  refine ⟨hfounded, ⟨hgrown.1.trans hlast.ge, le_rfl⟩, fun τ hτ => ?_⟩
  cases hτ
  exact hlast.ge.trans' hsize.ge

/-- Operators give plain data. -/
theorem Action.operate_shows (op : String) (l r : Value) :
    Watched.Shows programs held w (Value.Founded programs) (Action.operate op l r)
      (Carrier.act (Action.operate op l r)) := by
  refine .act_same (fun s => ?_) fun s _ _ v hv => ?_
  · unfold Action.operate
    split <;> rfl
  · unfold Action.operate at hv
    split at hv
    · next hop =>
      cases hv
      exact Value.founded_of_plain (applyOperator_plain hop)
    · cases hv

/-- Asking whether the first part of a loop is due changes nothing. -/
theorem Action.firstPartDue_shows (first : Expr) (isFirst : Bool) (σ : ScopeId) :
    Watched.Shows programs held w (fun _ _ => True) (Action.firstPartDue first isFirst σ)
      (Carrier.act (Action.firstPartDue first isFirst σ)) := by
  refine .act_same (fun s => ?_) fun _ _ _ _ _ => trivial
  unfold Action.firstPartDue
  split <;> rfl

/-- A fault has no result. -/
theorem Action.raise_shows (f : Fault) :
    Watched.Shows programs held w (Value.Founded programs) (Action.raise f)
      (Carrier.act (Action.raise f)) := by
  refine .act_same (fun _ => rfl) fun _ _ _ a ha => ?_
  cases ha

/-- Running out of levels has no result. -/
theorem Action.exhausted_shows :
    Watched.Shows programs held w (Value.Founded programs) Action.exhausted
      (Carrier.act Action.exhausted) := by
  refine .act_same (fun _ => rfl) fun _ _ _ a ha => ?_
  cases ha

/-- A host function that returns a founded value reports well. -/
theorem Action.conclude_shows {result : Outcome Value}
    (h : ∀ v, result = .ok v → v.Founded programs w) :
    Watched.Shows programs held w (Value.Founded programs) (Action.conclude result)
      (Carrier.act (Action.conclude result)) := by
  refine .act_same (fun s => ?_) fun s _ hw v hv => ?_
  · cases result <;> rfl
  · cases result with
    | error f => cases hv
    | ok u =>
      cases hv
      exact (h v rfl).later hw

/-- Writing changes nothing that could dangle. -/
theorem Action.write_shows (text : String) :
    Watched.Shows programs held w (fun _ _ => True) (Action.write text)
      (Carrier.act (Action.write text)) := by
  refine .act fun s hs _ => ?_
  unfold Action.write
  split
  · exact ⟨hs, le_rfl, fun _ _ => trivial⟩
  · exact ⟨hs.congr rfl rfl rfl, le_rfl, fun _ _ => trivial⟩

/-- What host functions remember is founded. -/
theorem Action.recollect_shows :
    Watched.Shows programs held w (fun w' values => ∀ v ∈ values, v.Founded programs w') Action.recollect
      (Carrier.act Action.recollect) := by
  refine .act_same (fun _ => rfl) fun s hs _ values hvalues => ?_
  cases hvalues
  exact hs.memory

/-- Host functions can remember what is founded. -/
theorem Action.remember_shows {values : List Value} (h : ∀ v ∈ values, v.Founded programs w) :
    Watched.Shows programs held w (fun _ _ => True) (Action.remember values)
      (Carrier.act (Action.remember values)) := by
  refine .act fun s hs hw => ⟨⟨hs.scopes, hs.held, fun v hv => ?_⟩, le_rfl, fun _ _ => trivial⟩
  exact (h v hv).later hw

end Actions

variable (programs held) in
/-- Watching as a conformance, by stages that are numbers of scopes and of identities. -/
def watching : Conformance (Nat × Nat) Action Watched where
  expr := Expr.PartOf programs
  scope w σ := σ < w.1
  value := Value.Founded programs
  holds := Watched.Shows programs held
  part := @Expr.PartOf.child programs
  body := @Value.Founded.body programs
  scope_later := @ScopeId.within_later
  value_later := @Value.Founded.later programs
  plain := @Value.founded_of_plain programs
  pure := .pure
  bind := .bind
  raise _ := Action.raise_shows _
  read name _ := Action.value_shows _ name
  assign name _ hv := Action.assign_shows _ name hv
  stuff name _ hv := Action.stuff_shows _ name hv
  stuffed name _ := Action.stuffed_shows _ name
  extend hσ := Action.extend_shows hσ
  close params _ hbody hσ := Action.close_shows params hbody hσ
  openCall hf hargs := Action.openCall_shows hf hargs
  operate _ _ _ _ _ := Action.operate_shows _ _ _
  firstPartDue first isFirst _ := Action.firstPartDue_shows first isFirst _

end Showing

section Hosts

/-- The values that a host may come up with: plain data, its own functions, and values that it knows. -/
inductive Value.Given (known : Value → Prop) : Value → Prop
  | plain {v : Value} (h : v.isFunction = false) : Given known v
  | native (f : Native) : Given known (.native f)
  | known {v : Value} (h : known v) : Given known v

/-- What a host may come up with is founded if what it knows is. -/
theorem Value.Given.founded {programs : List Expr} {bounds : Nat × Nat} {known : Value → Prop} {v : Value}
    (h : v.Given known) (hknown : ∀ u, known u → u.Founded programs bounds) :
    v.Founded programs bounds := by
  cases h with
  | plain h => exact Value.founded_of_plain h
  | native f => trivial
  | known h => exact hknown v h

/-- A host function that uses only values it may come up with. What it has called returns to it, and so
does another host function that it carries out; and what was remembered it can recall. -/
inductive HostProgram.Honest : (known : Value → Prop) → HostProgram → Prop
  | done {known : Value → Prop} {result : Outcome Value} (h : ∀ v, result = .ok v → v.Given known) :
    Honest known (.done result)
  | write {known : Value → Prop} (text : String) {next : Option String → HostProgram}
    (h : ∀ reason, Honest known (next reason)) : Honest known (.write text next)
  | invoke {known : Value → Prop} {f : Closure} {args : List Value}
    {next : Outcome Value → HostProgram} (hf : known (.closure f)) (hargs : ∀ v ∈ args, v.Given known)
    (h : ∀ result, Honest (fun v => known v ∨ result = .ok v) (next result)) :
    Honest known (.invoke f args next)
  | nested {known : Value → Prop} {inner : HostProgram} {next : Outcome Value → HostProgram}
    (hinner : Honest known inner)
    (h : ∀ result, Honest (fun v => known v ∨ result = .ok v) (next result)) :
    Honest known (.nested inner next)
  | recollect {known : Value → Prop} {next : List Value → HostProgram}
    (h : ∀ values, Honest (fun v => known v ∨ v ∈ values) (next values)) : Honest known (.recollect next)
  | remember {known : Value → Prop} {values : List Value} {next : HostProgram}
    (hvalues : ∀ v ∈ values, v.Given known) (h : Honest known next) : Honest known (.remember values next)

/-- All functions of a host use only their arguments, values that they have called for, values that
functions of the host have remembered, also in the same operation, and values that the host has come by
before. -/
def Host.Honest (held : List Value) (host : Host) : Prop :=
  ∀ behaviour name args, (host behaviour name args).Honest (· ∈ args ++ held)

/-- A host without routines of its own has nothing to hide. -/
theorem Host.none_honest (held : List Value) : Host.none.Honest held := by
  intro behaviour name args
  refine .done fun v hv => ?_
  cases hv
  exact .plain rfl

/-- A host function that has nothing called returns plain data. -/
theorem HostProgram.Plain.honest {known : Value → Prop} {p : HostProgram} (h : p.Plain) :
    p.Honest known := by
  induction h with
  | done h => exact .done fun v hv => .plain (h v hv)
  | write text _ ih => exact .write text ih

/-- The functions that every program starts with are honest, and the others are if the host is. -/
theorem Native.program_honest {held : List Value} {host : Host} (hhost : host.Honest held) (f : Native)
    (args : List Value) : (f.program host args).Honest (· ∈ args ++ held) := by
  obtain ⟨id, name, routine⟩ := f
  cases routine with
  | print => exact (Native.program_plain ⟨id, name, .print⟩ args).honest
  | exp => exact (Native.program_plain ⟨id, name, .exp⟩ args).honest
  | fact => exact (Native.program_plain ⟨id, name, .fact⟩ args).honest
  | host behaviour => exact hhost behaviour name args

variable {programs : List Expr} {held : List Value} {eval : Expr → ScopeId → Action Value}
  {eval' : Expr → ScopeId → Watched Value} (heval : (watching programs held).Evaluates eval eval')

include heval

/-- Calling a founded closure is seen, and reports well if evaluating its body does. -/
theorem closureWatched_shows {w : Nat × Nat} {f : Closure} {args : List Value}
    (hf : (Value.closure f).Founded programs w) (hargs : ∀ v ∈ args, v.Founded programs w) :
    Watched.Shows programs held w (Value.Founded programs) (callClosure eval f args)
      (closureWatched eval' f args) := by
  have hcall : Watched.Shows programs held w (Value.Founded programs) (callClosure eval f args)
      (callClosure eval' f args) := Conformance.callClosure heval hf hargs
  refine hcall.noted fun s hs hw => ⟨hs, ?_, fun e σ h => ?_⟩
  · exact List.forall_mem_cons.mpr ⟨hf.later hw, fun v hv => (hargs v hv).later hw⟩
  · cases h

/-- A host function that knows founded values comes across founded values only. -/
theorem HostProgram.Honest.shows {known : Value → Prop} {p : HostProgram} (h : p.Honest known)
    {w : Nat × Nat} (hknown : ∀ v, known v → v.Founded programs w) :
    Watched.Shows programs held w (Value.Founded programs) (p.perform (callClosure eval))
      (p.perform (closureWatched eval')) := by
  -- What the function gets to know in between is founded when it gets to know it, and stays so.
  have hlater {known new : Value → Prop} {w w' : Nat × Nat} (hw : w ≤ w')
      (hknown : ∀ v, known v → v.Founded programs w) (hnew : ∀ v, new v → v.Founded programs w')
      (v : Value) (hv : known v ∨ new v) : v.Founded programs w' :=
    hv.elim (fun hv => (hknown v hv).later hw) (hnew v)
  induction h generalizing w with
  | done h => exact Action.conclude_shows fun v hv => (h v hv).founded hknown
  | write text _ ih =>
    refine (Action.write_shows text).bind fun w' hw reason _ => ih reason fun v hv => ?_
    exact (hknown v hv).later hw
  | invoke hf hargs _ ih =>
    have hcall := closureWatched_shows heval (hknown _ hf) fun v hv => (hargs v hv).founded hknown
    exact hcall.attempt.bind fun w' hw r hr => ih r (hlater hw hknown hr)
  | nested _ _ ihInner ih =>
    exact (ihInner hknown).attempt.bind fun w' hw r hr => ih r (hlater hw hknown hr)
  | recollect _ ih =>
    exact Action.recollect_shows.bind fun w' hw values hvalues => ih values (hlater hw hknown hvalues)
  | remember hvalues _ ih =>
    refine (Action.remember_shows fun v hv => (hvalues v hv).founded hknown).bind fun w' hw _ _ => ?_
    exact ih fun v hv => (hknown v hv).later hw

variable {host : Host} (hhost : host.Honest held)

include hhost

/-- Calling a function of an honest host is seen, and reports well. -/
theorem nativeWatched_shows {w : Nat × Nat} (f : Native) {args : List Value}
    (hargs : ∀ v ∈ args, v.Founded programs w) :
    Watched.Shows programs held w (Value.Founded programs)
      ((f.program host args).perform (callClosure eval)) (nativeWatched host eval' f args) := by
  have hprogram : Watched.Shows programs held w (Value.Founded programs)
      ((f.program host args).perform (callClosure eval))
      ((f.program host args).perform (closureWatched eval')) := by
    -- What the host holds is founded by now, if not at the stage that is asked about.
    intro s hs hw
    have hknown (v : Value) (hv : v ∈ args ++ held) : v.Founded programs s.bounds :=
      (List.mem_append.mp hv).elim (fun hv => (hargs v hv).later hw) (hs.held v)
    obtain ⟨hsame, hfounded, hgrown, hresult, hseen⟩ :=
      (f.program_honest hhost args).shows heval hknown s hs le_rfl
    refine ⟨hsame, hfounded, hgrown, fun v hv => ?_, hseen⟩
    obtain ⟨w', hle, hrest⟩ := hresult v hv
    exact ⟨w', hw.trans hle, hrest⟩
  refine hprogram.noted fun s hs hw => ⟨hs, ?_, fun e σ h => ?_⟩
  · exact List.forall_mem_cons.mpr ⟨trivial, fun v hv => (hargs v hv).later hw⟩
  · cases h

/-- Calls that are watched report well. -/
theorem callWatched_shows :
    (watching programs held).Calls (callValue host eval) (callWatched host eval') := by
  intro w callee v args _ hv hargs
  cases v with
  | closure f => exact (closureWatched_shows heval hv hargs).calling _
  | native f => exact (nativeWatched_shows heval hhost f hargs).calling _
  | undefined => exact Action.raise_shows _
  | number n => exact Action.raise_shows _
  | string text => exact Action.raise_shows _
  | bool b => exact Action.raise_shows _

end Hosts

/-- From founded sessions on, a watched evaluation ends as the plain one does, and all that is seen is
founded. -/
theorem evalWatched_shows {programs : List Expr} {held : List Value} {host : Host}
    (hhost : host.Honest held) (levels : Nat) :
    (watching programs held).Evaluates (evalIn host levels) (evalWatched host levels) ∧
      (watching programs held).Repeats (roundIn host levels) (roundWatched host levels) := by
  refine Conformance.of_levels (fun _ heval => callWatched_shows heval hhost) ?_ ?_ ?_ ?_ levels
  · intro w e σ _ _
    rw [evalIn_zero, evalWatched]
    exact Action.exhausted_shows
  · intro w first test update body isFirst σ _ _ _ _ _
    rw [roundIn_zero, roundWatched]
    exact Action.exhausted_shows
  · intro levels w e σ he hσ hstep
    rw [evalIn, evalWatched, ← evalStepCalling_callValue]
    refine (hstep.noted fun s hs hw => ⟨hs, List.forall_mem_nil _, fun e' σ' h => ?_⟩).deeper
    cases h
    exact ⟨he, hs.scopes.grounded (Nat.lt_of_lt_of_le hσ hw.1)⟩
  · intro levels w first test update body isFirst σ _ _ _ _ _ hstep
    rw [roundIn, roundWatched]
    exact hstep.deeper

end StuffScript
