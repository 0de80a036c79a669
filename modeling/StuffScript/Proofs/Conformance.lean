import StuffScript.Proofs.Correspondence

/-!
# Evaluating under watch

Some laws of evaluation are not about how it ends but about what happens meanwhile. They are told by a
second evaluator, which follows the rules on a carrier of its own and does calls in its own way, as
`evalStepCalling` lets it. A conformance says that such an evaluator goes along with another one as long
as it meets admitted expressions, scopes and values only, and that it never meets others. What is admitted
may grow in the course of an evaluation, stage by stage.

The main statements are `Conformance.evalStepCalling`, about the rules for one level, and
`Conformance.of_levels`, about any number of them. How levels are entered is left to each use, and so is what
happens inside a call.
-/

namespace StuffScript

/-- The faults of expressions that stand where another form is asked for. -/
inductive Fault.OfForm : Fault → Prop
  | badAssignment (target : Expr) : OfForm (.badAssignment target)
  | badStuffTarget (base : Expr) : OfForm (.badStuffTarget base)
  | badUnstuffTarget (base : Expr) : OfForm (.badUnstuffTarget base)
  | badLoopCondition (cond : Expr) : OfForm (.badLoopCondition cond)
  | badLoopParts (count : Nat) : OfForm (.badLoopParts count)

/-- Which expressions, scopes and values are admitted at a stage, and when a computation of one carrier
goes along with one of another. `holds w R x y` says that from stage `w` on `y` does what `x` does, and that
their common result is in `R`. -/
structure Conformance (World : Type) [Preorder World] (m n : Type → Type) [Carrier m] [Carrier n] where
  expr : Expr → Prop
  scope : World → ScopeId → Prop
  value : World → Value → Prop
  holds : {α : Type} → World → (World → α → Prop) → m α → n α → Prop
  part {e c : Expr} : expr e → c ∈ e.children → expr c
  body {w : World} {f : Closure} : value w (.closure f) → expr f.body
  scope_later {w w' : World} {σ : ScopeId} : w ≤ w' → scope w σ → scope w' σ
  value_later {w w' : World} {v : Value} : w ≤ w' → value w v → value w' v
  plain {w : World} {v : Value} : v.isFunction = false → value w v
  pure {α : Type} {w : World} {R : World → α → Prop} {a : α} :
    R w a → holds w R (Pure.pure a) (Pure.pure a)
  bind {α β : Type} {w : World} {R : World → α → Prop} {S : World → β → Prop} {x : m α} {y : n α}
    {f : α → m β} {g : α → n β} : holds w R x y →
    (∀ w', w ≤ w' → ∀ a, R w' a → holds w' S (f a) (g a)) → holds w S (x >>= f) (y >>= g)
  raise {w : World} {f : Fault} : f.OfForm →
    holds w value (Carrier.act (Action.raise f)) (Carrier.act (Action.raise f))
  read {w : World} {σ : ScopeId} (name : String) : scope w σ →
    holds w value (Carrier.act (Action.value σ name)) (Carrier.act (Action.value σ name))
  assign {w : World} {σ : ScopeId} {v : Value} (name : String) : scope w σ → value w v →
    holds w value (Carrier.act (Action.assign σ name v)) (Carrier.act (Action.assign σ name v))
  stuff {w : World} {σ : ScopeId} {v : Value} (name : String) : scope w σ → value w v →
    holds w value (Carrier.act (Action.stuff σ name v)) (Carrier.act (Action.stuff σ name v))
  stuffed {w : World} {σ : ScopeId} (name : String) : scope w σ →
    holds w value (Carrier.act (Action.stuffed σ name)) (Carrier.act (Action.stuffed σ name))
  extend {w : World} {σ : ScopeId} : scope w σ →
    holds w scope (Carrier.act (Action.extend σ)) (Carrier.act (Action.extend σ))
  close {w : World} {σ : ScopeId} (params : List String) {body : Expr} : expr body → scope w σ →
    holds w value (Carrier.act (Action.close params body σ)) (Carrier.act (Action.close params body σ))
  openCall {w : World} {f : Closure} {vs : List Value} : value w (.closure f) →
    (∀ v ∈ vs, value w v) →
    holds w scope (Carrier.act (Action.openCall f vs)) (Carrier.act (Action.openCall f vs))
  operate {w : World} {v u : Value} {span : Span} {left right : Expr} {op : String} :
    expr (.binary span left op right) → op ≠ "&&" → op ≠ "||" → value w v → value w u →
    holds w value (Carrier.act (Action.operate op v u)) (Carrier.act (Action.operate op v u))
  firstPartDue {w : World} {σ : ScopeId} (first : Expr) (isFirst : Bool) : scope w σ →
    holds w (fun _ _ => True) (Carrier.act (Action.firstPartDue first isFirst σ))
      (Carrier.act (Action.firstPartDue first isFirst σ))

namespace Conformance

variable {World : Type} [Preorder World] {m n : Type → Type} [Carrier m] [Carrier n]
  (C : Conformance World m n)

/-- From a stage on, two ways to evaluate in a scope go along with each other. -/
def Follows (w : World) (f : Expr → m Value) (g : Expr → n Value) : Prop :=
  ∀ w', w ≤ w' → ∀ e, C.expr e → C.holds w' C.value (f e) (g e)

/-- Two ways to evaluate go along with each other in admitted scopes. -/
def Evaluates (f : Expr → ScopeId → m Value) (g : Expr → ScopeId → n Value) : Prop :=
  ∀ w e σ, C.expr e → C.scope w σ → C.holds w C.value (f e σ) (g e σ)

/-- Two ways to carry out the rounds of a counted loop go along with each other. -/
def Repeats (f : Expr → Expr → Expr → Expr → Bool → ScopeId → m Value)
    (g : Expr → Expr → Expr → Expr → Bool → ScopeId → n Value) : Prop :=
  ∀ w first test update body isFirst σ, C.expr first → C.expr test → C.expr update → C.expr body →
    C.scope w σ → C.holds w C.value (f first test update body isFirst σ)
      (g first test update body isFirst σ)

/-- Two ways to call values go along with each other, where a call knows its function by the name that an
admitted expression has as a callee. -/
def Calls (f : String → Value → List Value → m Value) (g : String → Value → List Value → n Value) :
    Prop :=
  ∀ w callee v args, C.expr callee → C.value w v → (∀ u ∈ args, C.value w u) →
    C.holds w C.value (f callee.calleeName v args) (g callee.calleeName v args)

variable {C}

/-- What follows in one world follows in every later one. -/
theorem Follows.later {w w' : World} {f : Expr → m Value} {g : Expr → n Value} (h : C.Follows w f g)
    (hw : w ≤ w') : C.Follows w' f g :=
  fun w'' hw' => h w'' (hw.trans hw')

/-- Evaluations that conform follow each other in every scope. -/
theorem Evaluates.follows {f : Expr → ScopeId → m Value} {g : Expr → ScopeId → n Value}
    (h : C.Evaluates f g) {w : World} {σ : ScopeId} (hσ : C.scope w σ) :
    C.Follows w (f · σ) (g · σ) :=
  fun w' hw e he => h w' e σ he (C.scope_later hw hσ)

/-- A part that may be due is evaluated on both sides or on neither. -/
theorem evalIf {w : World} {f : Expr → m Value} {g : Expr → n Value} (h : C.Follows w f g)
    (due : Bool) {e : Expr} (he : C.expr e) :
    C.holds w C.value (evalIf due f e) (evalIf due g e) := by
  cases due with
  | false => exact C.pure (C.plain rfl)
  | true => exact h w le_rfl e he

/-- Sequences conform, if their items do. -/
theorem lastOf {w : World} {f : Expr → m Value} {g : Expr → n Value} (h : C.Follows w f g) {v : Value}
    (hv : C.value w v) {es : List Expr} (hes : ∀ e ∈ es, C.expr e) :
    C.holds w C.value (lastOf f v es) (lastOf g v es) := by
  induction es generalizing w v with
  | nil => exact C.pure hv
  | cons e es ih =>
    obtain ⟨he, hes⟩ := List.forall_mem_cons.mp hes
    exact C.bind (h w le_rfl e he) fun w' hw u hu => ih (h.later hw) hu hes

/-- The items of lists conform one by one. -/
theorem allOf {w : World} {f : Expr → m Value} {g : Expr → n Value} (h : C.Follows w f g)
    {vs : List Value} (hvs : ∀ v ∈ vs, C.value w v) {es : List Expr} (hes : ∀ e ∈ es, C.expr e) :
    C.holds w (fun w' us => ∀ u ∈ us, C.value w' u) (allOf f vs es) (allOf g vs es) := by
  induction es generalizing w vs with
  | nil => exact C.pure fun u hu => hvs u (List.mem_reverse.mp hu)
  | cons e es ih =>
    obtain ⟨he, hes⟩ := List.forall_mem_cons.mp hes
    refine C.bind (h w le_rfl e he) fun w' hw v hv => ih (h.later hw) ?_ hes
    exact List.forall_mem_cons.mpr ⟨hv, fun u hu => C.value_later hw (hvs u hu)⟩

section Steps

variable {call : String → Value → List Value → m Value}
  {call' : String → Value → List Value → n Value} {eval : Expr → ScopeId → m Value}
  {eval' : Expr → ScopeId → n Value} {round : Expr → Expr → Expr → Expr → Bool → ScopeId → m Value}
  {round' : Expr → Expr → Expr → Expr → Bool → ScopeId → n Value}
  (heval : C.Evaluates eval eval') (hround : C.Repeats round round') (hcall : C.Calls call call')

include heval

/-- Calling an admitted closure goes along if evaluating its body does. -/
theorem callClosure {w : World} {f : Closure} {args : List Value} (hf : C.value w (.closure f))
    (hargs : ∀ v ∈ args, C.value w v) :
    C.holds w C.value (callClosure eval f args) (callClosure eval' f args) :=
  C.bind (C.openCall hf hargs) fun w' _ σ hσ => heval w' f.body σ (C.body hf) hσ

include hround

/-- A loop goes along if evaluating one level deeper does. Its condition decides what kind of loop it
is. -/
theorem evalStep_loop {w : World} {span : Span} {cond body : Expr}
    (he : C.expr (.loop span cond body)) {σ : ScopeId} (hσ : C.scope w σ) :
    C.holds w C.value (evalStep Host.none eval round (.loop span cond body) σ)
      (evalStep Host.none eval' round' (.loop span cond body) σ) := by
  have hhere := heval.follows hσ
  have hcond : C.expr cond := C.part he List.mem_cons_self
  have hbody : C.expr body := C.part he (List.mem_cons_of_mem _ List.mem_cons_self)
  simp only [StuffScript.evalStep]
  split
  · refine C.bind (hhere w le_rfl _ hcond) fun w' hw c _ => ?_
    split
    · exact C.bind (hhere w' hw _ hbody) fun w'' hw' _ _ => hhere w'' (hw.trans hw') _ he
    · exact C.pure (C.plain rfl)
  · have hitem {item : Expr} (h : item ∈ _) : C.expr item := C.part hcond h
    refine C.bind (C.extend hσ) fun w' _ inner hinner => ?_
    exact hround w' _ _ _ _ true inner (hitem (by simp [Expr.children]))
      (hitem (by simp [Expr.children])) (hitem (by simp [Expr.children])) hbody hinner
  · exact C.raise (.badLoopParts _)
  · exact C.raise (.badLoopCondition _)

include hcall

/-- Evaluating an admitted expression goes along if evaluating one level deeper does, and calls do. -/
theorem evalStepCalling {w : World} {e : Expr} (he : C.expr e) {σ : ScopeId} (hσ : C.scope w σ) :
    C.holds w C.value (evalStepCalling call eval round e σ)
      (evalStepCalling call' eval' round' e σ) := by
  have hhere := heval.follows hσ
  have hpart {c : Expr} (hc : c ∈ e.children) : C.expr c := C.part he hc
  cases e with
  | number => exact C.pure (C.plain rfl)
  | string => exact C.pure (C.plain rfl)
  | bool => exact C.pure (C.plain rfl)
  | ident span name => exact C.read name hσ
  | assign span target value =>
    have hvalue := hpart (c := value) (by simp [Expr.children])
    simp only [StuffScript.evalStepCalling, evalStep]
    split
    · exact C.bind (hhere w le_rfl _ hvalue) fun w' hw _ hv => C.assign _ (C.scope_later hw hσ) hv
    · exact C.raise (.badAssignment _)
  | binary span left op right =>
    have hright := hpart (c := right) (by simp [Expr.children])
    refine C.bind (hhere w le_rfl _ (hpart List.mem_cons_self)) fun w' hw l hl => ?_
    split
    · split
      · exact hhere w' hw _ hright
      · exact C.pure hl
    · next hand =>
      split
      · split
        · exact C.pure hl
        · exact hhere w' hw _ hright
      · next hor =>
        exact C.bind (hhere w' hw _ hright) fun w'' hw' r hr =>
          C.operate he hand hor (C.value_later hw' hl) hr
  | call span callee args =>
    refine C.bind (hhere w le_rfl _ (hpart List.mem_cons_self)) fun w' hw f hf => ?_
    have hargs : ∀ arg ∈ args, C.expr arg := fun arg h => hpart (List.mem_cons_of_mem _ h)
    refine C.bind (allOf (hhere.later hw) (List.forall_mem_nil _) hargs) fun w'' hw' values hvalues => ?_
    exact hcall w'' callee f values (hpart List.mem_cons_self) (C.value_later hw' hf) hvalues
  | function span params body => exact C.close params (hpart List.mem_cons_self) hσ
  | ifThen span cond body =>
    refine C.bind (hhere w le_rfl _ (hpart List.mem_cons_self)) fun w' hw c _ => ?_
    split
    · exact hhere w' hw _ (hpart (by simp [Expr.children]))
    · exact C.pure (C.plain rfl)
  | ifElse span cond body other =>
    refine C.bind (hhere w le_rfl _ (hpart List.mem_cons_self)) fun w' hw c _ => ?_
    split
    · exact hhere w' hw _ (hpart (by simp [Expr.children]))
    · exact hhere w' hw _ (hpart (by simp [Expr.children]))
  | loop span cond body => exact evalStep_loop heval hround he hσ
  | stuff span base value =>
    have hbase := hpart (c := base) (by simp [Expr.children])
    have hvalue := hpart (c := value) (by simp [Expr.children])
    simp only [StuffScript.evalStepCalling, evalStep]
    split
    · exact C.raise (.badStuffTarget _)
    · refine C.bind (hhere w le_rfl _ hbase) fun w' hw _ _ => ?_
      exact C.bind (hhere w' hw _ hvalue) fun w'' hw' _ hv =>
        C.stuff _ (C.scope_later (hw.trans hw') hσ) hv
  | unstuff span base =>
    have hbase := hpart (c := base) (by simp [Expr.children])
    simp only [StuffScript.evalStepCalling, evalStep]
    split
    · exact C.raise (.badUnstuffTarget _)
    · exact C.bind (hhere w le_rfl _ hbase) fun w' hw _ _ => C.stuffed _ (C.scope_later hw hσ)
  | block span items => exact lastOf hhere (C.plain rfl) fun item h => hpart h

omit hcall

/-- A round of a counted loop goes along if evaluating one level deeper does. -/
theorem roundStep {w : World} {first test update body : Expr} (hfirst : C.expr first)
    (htest : C.expr test) (hupdate : C.expr update) (hbody : C.expr body) (isFirst : Bool) {σ : ScopeId}
    (hσ : C.scope w σ) :
    C.holds w C.value (roundStep eval round first test update body isFirst σ)
      (roundStep eval' round' first test update body isFirst σ) := by
  have hhere := heval.follows hσ
  refine C.bind (C.firstPartDue first isFirst hσ) fun w₁ h₁ due _ => ?_
  refine C.bind (evalIf (hhere.later h₁) due hfirst) fun w₂ h₂ _ _ => ?_
  refine C.bind (hhere w₂ (h₁.trans h₂) _ htest) fun w₃ h₃ c _ => ?_
  split
  · have h₁₃ := (h₁.trans h₂).trans h₃
    refine C.bind (hhere w₃ h₁₃ _ hbody) fun w₄ h₄ _ _ => ?_
    refine C.bind (hhere w₄ (h₁₃.trans h₄) _ hupdate) fun w₅ h₅ _ _ => ?_
    exact hround w₅ first test update body false σ hfirst htest hupdate hbody
      (C.scope_later ((h₁₃.trans h₄).trans h₅) hσ)
  · exact C.pure (C.plain rfl)

end Steps

/-- Two ways to evaluate that are each built up level by level go along with each other on every level: they
do where no level is left, and one level more carries over what the rules make of it. -/
theorem of_levels {eval : Nat → Expr → ScopeId → m Value} {eval' : Nat → Expr → ScopeId → n Value}
    {round : Nat → Expr → Expr → Expr → Expr → Bool → ScopeId → m Value}
    {round' : Nat → Expr → Expr → Expr → Expr → Bool → ScopeId → n Value}
    {call : Nat → String → Value → List Value → m Value}
    {call' : Nat → String → Value → List Value → n Value}
    (hcall : ∀ k, C.Evaluates (eval k) (eval' k) → C.Calls (call k) (call' k))
    (hzero : C.Evaluates (eval 0) (eval' 0)) (hlast : C.Repeats (round 0) (round' 0))
    (hsucc : ∀ k w e σ, C.expr e → C.scope w σ →
      C.holds w C.value (StuffScript.evalStepCalling (call k) (eval k) (round k) e σ)
        (StuffScript.evalStepCalling (call' k) (eval' k) (round' k) e σ) →
      C.holds w C.value (eval (k + 1) e σ) (eval' (k + 1) e σ))
    (hnext : ∀ k w first test update body isFirst σ, C.expr first → C.expr test → C.expr update →
      C.expr body → C.scope w σ →
      C.holds w C.value (StuffScript.roundStep (eval k) (round k) first test update body isFirst σ)
        (StuffScript.roundStep (eval' k) (round' k) first test update body isFirst σ) →
      C.holds w C.value (round (k + 1) first test update body isFirst σ)
        (round' (k + 1) first test update body isFirst σ)) (levels : Nat) :
    C.Evaluates (eval levels) (eval' levels) ∧ C.Repeats (round levels) (round' levels) := by
  induction levels with
  | zero => exact ⟨hzero, hlast⟩
  | succ levels ih =>
    obtain ⟨heval, hround⟩ := ih
    constructor
    · intro w e σ he hσ
      exact hsucc levels w e σ he hσ (evalStepCalling heval hround (hcall levels heval) he hσ)
    · intro w first test update body isFirst σ hfirst htest hupdate hbody hσ
      exact hnext levels w first test update body isFirst σ hfirst htest hupdate hbody hσ
        (roundStep heval hround hfirst htest hupdate hbody isFirst hσ)

end Conformance

end StuffScript
