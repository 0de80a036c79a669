import StuffScript.Proofs.Evolution

/-!
# Which scopes an evaluation changes

Assignment and stuffing bind names in the scope at hand, and every call and every counted loop has a
scope of its own. So evaluating an expression changes the scope that it is evaluated in and scopes that
it makes itself, and a call or a counted loop changes no scope that was there before it. Closures may
refer to any scope meanwhile; they read through it and never write.

The main statement is `evaluation_confined`. It asks nothing of the session and nothing of the host, whose
functions may remember what they like from one call to the next, and does not depend on how the evaluation
ends.
-/

namespace StuffScript

namespace Scopes

/-- One change: a scope is made, or a name is bound in a scope of a set. -/
inductive Step (W : ScopeId → Prop) : Scopes → Scopes → Prop
  | extend (ss : Scopes) (parent : ScopeId) : Step W ss (ss.extend parent).2
  | bind (ss : Scopes) {id : ScopeId} (h : W id) (name : String) (b : Binding) :
    Step W ss (ss.put id name b)

/-- Nothing is taken away: every scope is still there, in the same parent, and binds the names that it
bound. -/
def KeptIn (before after : Scopes) : Prop :=
  ∀ id sc, before.get? id = some sc → ∃ sc', after.get? id = some sc' ∧ sc'.parent = sc.parent ∧
    ∀ name, (sc.find? name).isSome → (sc'.find? name).isSome

/-- Scopes are kept where nothing happens. -/
theorem KeptIn.refl (ss : Scopes) : ss.KeptIn ss := fun _ sc h => ⟨sc, h, rfl, fun _ hn => hn⟩

/-- Scopes kept twice are kept. -/
theorem KeptIn.trans {before middle after : Scopes} (h₁ : before.KeptIn middle)
    (h₂ : middle.KeptIn after) : before.KeptIn after := by
  intro id sc hsc
  obtain ⟨sc₁, hget₁, hparent₁, hnames₁⟩ := h₁ id sc hsc
  obtain ⟨sc₂, hget₂, hparent₂, hnames₂⟩ := h₂ id sc₁ hget₁
  exact ⟨sc₂, hget₂, hparent₂.trans hparent₁, fun name hn => hnames₂ name (hnames₁ name hn)⟩

/-- A single change keeps every scope with its parent and its names. -/
theorem Step.keptIn {W : ScopeId → Prop} {before after : Scopes} (h : Step W before after) :
    before.KeptIn after := by
  intro id sc hsc
  cases h with
  | extend parent =>
    have hne : id ≠ before.size := Nat.ne_of_lt (lt_size hsc)
    exact ⟨sc, by rw [get?_extend, if_neg hne, hsc], rfl, fun _ hn => hn⟩
  | @bind target _ name b =>
    by_cases hid : id = target
    · subst hid
      refine ⟨sc.bind name b, by rw [get?_put, if_pos rfl, hsc, Option.map_some], rfl, ?_⟩
      intro n hn
      rw [Scope.find?_bind]
      split
      · rfl
      · exact hn
    · exact ⟨sc, by rw [get?_put, if_neg hid, hsc], rfl, fun _ hn => hn⟩

/-- A single change leaves the scopes outside the set as they were. -/
theorem Step.get?_eq {W : ScopeId → Prop} {before after : Scopes} (h : Step W before after)
    {id : ScopeId} (hid : id < before.size) (hW : ¬ W id) : after.get? id = before.get? id := by
  cases h with
  | extend parent => rw [get?_extend, if_neg (Nat.ne_of_lt hid)]
  | @bind target htarget name b =>
    have hne : id ≠ target := fun heq => hW (heq ▸ htarget)
    rw [get?_put, if_neg hne]

/-- The way from some scopes to others when names are bound only in the scopes of a set: at no point is
anything taken away, and what was there before outside the set is unchanged at the end. -/
structure Confined (W : ScopeId → Prop) (before after : Scopes) : Prop where
  steps : Relation.ReflTransGen (fun ss ss' => Step W ss ss' ∧ ss.KeptIn ss') before after
  unchanged : ∀ id < before.size, ¬ W id → after.get? id = before.get? id
  kept : before.KeptIn after

/-- Where nothing happens, nothing changes outside of any set. -/
theorem Confined.refl (W : ScopeId → Prop) (ss : Scopes) : Confined W ss ss :=
  ⟨.refl, fun _ _ _ => rfl, .refl ss⟩

/-- Changes confined to a set twice are confined to it. -/
theorem Confined.trans {W : ScopeId → Prop} {before middle after : Scopes}
    (h₁ : Confined W before middle) (h₂ : Confined W middle after)
    (hsize : before.size ≤ middle.size) : Confined W before after := by
  refine ⟨h₁.steps.trans h₂.steps, fun id hid hW => ?_, h₁.kept.trans h₂.kept⟩
  rw [h₂.unchanged id (Nat.lt_of_lt_of_le hid hsize) hW, h₁.unchanged id hid hW]

/-- One step changes bindings only in the scopes of the set. -/
theorem Step.confined {W : ScopeId → Prop} {before after : Scopes} (h : Step W before after) :
    Confined W before after :=
  ⟨.single ⟨h, h.keptIn⟩, fun _ hid hW => h.get?_eq hid hW, h.keptIn⟩

end Scopes

/-- Steps of evaluation that bind names only in the scopes of a set are confined to it. -/
theorem Session.Evolves.confined {W : ScopeId → Prop} {s t : Session} (h : s.Evolves W t) :
    s.scopes.Confined W t.scopes := by
  induction h with
  | refl s => exact .refl W s.scopes
  | trans hst _ ihst ihtu => exact ihst.trans ihtu hst.settled.scopes
  | bind s hid name b => exact (Scopes.Step.bind s.scopes hid name b).confined
  | extend s parent => exact (Scopes.Step.extend s.scopes parent).confined
  | identify s => exact .refl W s.scopes
  | write s text => exact .refl W s.scopes
  | remember s values => exact .refl W s.scopes
  | deeper _ _ ih => exact ih
  | calling _ _ ih => exact ih

/-- Evaluation changes the scope that it happens in and scopes made meanwhile; calls of closures and of
host functions, and counted loops, change only scopes made meanwhile. -/
theorem evaluation_confined (host : Host) (s : Session) :
    (∀ e σ, s.scopes.Confined (fun id => id = σ ∨ s.scopes.size ≤ id) (s.eval host e σ).2.scopes) ∧
    (∀ f args, s.scopes.Confined (fun id => s.scopes.size ≤ id)
      (s.callClosure host f args).2.scopes) ∧
    (∀ f args, s.scopes.Confined (fun id => s.scopes.size ≤ id)
      (s.callNative host f args).2.scopes) ∧
    (∀ span place first test update body σ, s.scopes.Confined (fun id => s.scopes.size ≤ id)
      (s.eval host (.loop span (.block place [first, test, update]) body) σ).2.scopes) := by
  refine ⟨fun e σ => ?_, fun f args => ?_, fun f args => ?_, ?_⟩
  · exact (s.eval_evolves host (W := fun id => id = σ ∨ s.scopes.size ≤ id) (fun _ => Or.inr) e
      (Or.inl rfl)).confined
  · exact (s.callClosure_evolves host (fun _ h => h) f args).confined
  · exact (s.callNative_evolves host (fun _ h => h) f args).confined
  · intro span place first test update body σ
    exact (s.countedLoop_evolves host (fun _ h => h) span place first test update body σ).confined

/-- A host may remember that a function was called, so that `tick() == tick()` is false. Nothing of this is
kept in a scope. -/
example :
    let host : Host := fun _ _ _ => .recollect fun values =>
      .remember (.undefined :: values) (.done (.ok (.bool values.isEmpty)))
    let s := (Session.new 10).define "tick" (.native ⟨0, "tick", .host "tick"⟩)
    let tick : Expr := .call ⟨1, 1⟩ (.ident ⟨1, 1⟩ "tick") []
    let ending := s.eval host (.binary ⟨1, 1⟩ tick "==" tick) Session.root
    ending.1.toOption.map Value.truthy = some false ∧ ending.2.scopes.size = s.scopes.size := by
  decide +kernel

end StuffScript
