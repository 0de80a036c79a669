import StuffScript.Evaluation
import StuffScript.Proofs.Likeness
import Mathlib.Order.CompleteBooleanAlgebra
import Mathlib.Order.CompletePartialOrder

/-!
# Corresponding evaluations

Most laws of evaluation compare runs of the same rules: a run with itself under an invariant, with a
run under another limit, with a run among other scopes, or with a run of an expression at other places.
Such a comparison goes through stages, and what corresponds at one stage still does at every later one.
A correspondence says what it is for scopes, values and whole actions to correspond, and that each single
action respects it.

The main statement is `Correspondence.evalIn`: then evaluating alike expressions respects it as well. It
rests on `Correspondence.evalStep`, about the rules for one level. The right-hand run may have more levels
left than the left-hand one; what happens where the left-hand run has none is left to each use.
-/

namespace StuffScript

/-- Values that evaluation treats alike: they are equal, or both host functions, or closures with
bodies that are alike. -/
inductive Value.Alike (P : Span → Span → Prop) : Value → Value → Prop
  | plain {v : Value} (h : v.isFunction = false) : Alike P v v
  | native (f g : Native) : Alike P (.native f) (.native g)
  | closure {f g : Closure} (h : f.body.Alike P g.body) : Alike P (.closure f) (.closure g)

/-- A value is treated like itself, if places correspond to themselves. -/
theorem Value.Alike.refl {P : Span → Span → Prop} (hP : ∀ p, P p p) (v : Value) : v.Alike P v := by
  cases v with
  | native f => exact .native f f
  | closure f => exact .closure (.refl hP f.body)
  | _ => exact .plain rfl

/-- A value is treated like itself. -/
theorem Value.Alike.self (v : Value) : v.Alike Eq v := refl (fun _ => rfl) v

/-- Where values correspond to themselves only, those that correspond at any stage are alike. -/
theorem Value.Alike.of_eq {World : Type} {_ : World} {v u : Value} (h : v = u) : v.Alike Eq u := by
  rw [h]
  exact .self u

/-- Alike values count as true together. -/
theorem Value.Alike.truthy_eq {P : Span → Span → Prop} {v w : Value} (h : v.Alike P w) :
    v.truthy = w.truthy := by
  cases h <;> rfl

/-- Alike values have the same kind. -/
theorem Value.Alike.kindName_eq {P : Span → Span → Prop} {v w : Value} (h : v.Alike P w) :
    v.kindName = w.kindName := by
  cases h <;> rfl

/-- Outcomes that match: results that are related, or the same failure. -/
inductive Outcome.Matches {α β : Type} (R : α → β → Prop) : Outcome α → Outcome β → Prop
  | ok {a : α} {b : β} (h : R a b) : Matches R (.ok a) (.ok b)
  | error (f : Failure) : Matches R (.error f) (.error f)

/-- Outcomes with equal values or equal failures are equal. -/
theorem Outcome.Matches.eq {α : Type} {r q : Outcome α} (h : Matches Eq r q) : r = q := by
  cases h with
  | ok h => rw [h]
  | error f => rfl

/-- What an outcome fails with. -/
def Outcome.toFailure? {α : Type} : Outcome α → Option Failure
  | .ok _ => none
  | .error f => some f

/-- An outcome with a failure is that failure. -/
theorem Outcome.eq_error_of_toFailure? {α : Type} {r : Outcome α} {f : Failure}
    (h : r.toFailure? = some f) : r = .error f := by
  cases r with
  | ok a => cases h
  | error g => rw [Option.some.inj h]

/-- How evaluation ends where no levels are left. -/
def Action.exhausted : Action Value :=
  fun s => (.error (s.failure (.stackExhausted s.limit)), s)

/-- Without levels left evaluation fails for want of them. -/
theorem evalIn_zero (host : Host) (e : Expr) (σ : ScopeId) :
    evalIn host 0 e σ = Action.exhausted := by
  simp only [evalIn]
  rfl

/-- Without levels left a round of a loop fails for want of them. -/
theorem roundIn_zero (host : Host) (first test update body : Expr) (isFirst : Bool) (σ : ScopeId) :
    roundIn host 0 first test update body isFirst σ = Action.exhausted := by
  simp only [roundIn]
  rfl

/-- A fault about an expression tells no more of it than what it is shown as. -/
theorem Fault.error_of_render {e e' : Expr} (h : e.render = e'.render) :
    (badAssignment e).error = (badAssignment e').error ∧
    (badStuffTarget e).error = (badStuffTarget e').error ∧
    (badUnstuffTarget e).error = (badUnstuffTarget e').error ∧
    (badLoopCondition e).error = (badLoopCondition e').error := by
  have hshown (text : String) : RuntimeError.mk .type (text ++ e.render) [] =
      RuntimeError.mk .type (text ++ e'.render) [] := by rw [h]
  exact ⟨hshown _, hshown _, hshown _, hshown _⟩

/-- Faults with the same error fail in the same way. -/
theorem Action.raise_congr {α : Type} {f g : Fault} (h : f.error = g.error) :
    (Action.raise f : Action α) = Action.raise g := by
  funext s
  simp only [Action.raise, Session.failure, h]

/-- Expressions that assign the same variable are due together. -/
theorem Action.firstPartDue_congr {first first' : Expr} (h : first.assigned? = first'.assigned?)
    (isFirst : Bool) (σ : ScopeId) :
    Action.firstPartDue first isFirst σ = Action.firstPartDue first' isFirst σ := by
  funext s
  simp only [Action.firstPartDue, h]

/-- Below the limit an action is performed one level down. -/
theorem Action.within_enter_of_lt {α : Type} (x : Action α) {s : Session} (h : s.depth < s.limit) :
    Action.within Action.enter Action.leave (fun _ => x) s =
      ((x { s with depth := s.depth + 1 }).1, Action.leave (x { s with depth := s.depth + 1 }).2) := by
  simp only [Action.within, Action.enter, if_pos h]
  rfl

/-- At the limit an action is not performed at all. -/
theorem Action.within_enter_of_not_lt {α : Type} (x : Action α) {s : Session}
    (h : ¬ s.depth < s.limit) :
    Action.within Action.enter Action.leave (fun _ => x) s =
      (.error (s.failure (.stackExhausted s.limit)), s) := by
  simp only [Action.within, Action.enter, if_neg h]

/-- When scopes, values and actions of two runs correspond, stage by stage, where the places of what is
evaluated are related by `P`. `holds w R x y` says that the actions `x` and `y` correspond from stage `w`
on, with results related by `R`. -/
structure Correspondence (World : Type) [Preorder World] (host : Host) (P : Span → Span → Prop) where
  scope : World → ScopeId → ScopeId → Prop
  value : World → Value → Value → Prop
  holds : {α β : Type} → World → (World → α → β → Prop) → Action α → Action β → Prop
  scope_later {w w' : World} {σ τ : ScopeId} : w ≤ w' → scope w σ τ → scope w' σ τ
  value_later {w w' : World} {v u : Value} : w ≤ w' → value w v u → value w' v u
  alike {w : World} {v u : Value} : value w v u → v.Alike P u
  plain {w : World} {v : Value} : v.isFunction = false → value w v v
  pure {α β : Type} {w : World} {R : World → α → β → Prop} {a : α} {b : β} :
    R w a b → holds w R (Pure.pure a) (Pure.pure b)
  bind {α β γ δ : Type} {w : World} {R : World → α → β → Prop} {S : World → γ → δ → Prop}
    {x : Action α} {y : Action β} {f : α → Action γ} {g : β → Action δ} : holds w R x y →
    (∀ w', w ≤ w' → ∀ a b, R w' a b → holds w' S (f a) (g b)) → holds w S (x >>= f) (y >>= g)
  deeper {w : World} {x y : Action Value} : holds w value x y →
    holds w value (Action.within Action.enter Action.leave fun _ => x)
      (Action.within Action.enter Action.leave fun _ => y)
  calling {w : World} {x y : Action Value} (name : String) : holds w value x y →
    holds w value (Action.within (Action.pushCall name) Action.popCall fun _ => x)
      (Action.within (Action.pushCall name) Action.popCall fun _ => y)
  raise {w : World} {f g : Fault} : f.error = g.error →
    holds w value (Action.raise f) (Action.raise g)
  read {w : World} {σ τ : ScopeId} (name : String) : scope w σ τ →
    holds w value (Action.value σ name) (Action.value τ name)
  assign {w : World} {σ τ : ScopeId} {v u : Value} (name : String) : scope w σ τ → value w v u →
    holds w value (Action.assign σ name v) (Action.assign τ name u)
  stuff {w : World} {σ τ : ScopeId} {v u : Value} (name : String) : scope w σ τ → value w v u →
    holds w value (Action.stuff σ name v) (Action.stuff τ name u)
  stuffed {w : World} {σ τ : ScopeId} (name : String) : scope w σ τ →
    holds w value (Action.stuffed σ name) (Action.stuffed τ name)
  extend {w : World} {σ τ : ScopeId} : scope w σ τ →
    holds w scope (Action.extend σ) (Action.extend τ)
  close {w : World} {σ τ : ScopeId} (params : List String) {body body' : Expr} :
    body.Alike P body' → scope w σ τ →
    holds w value (Action.close params body σ) (Action.close params body' τ)
  openCall {w : World} {f g : Closure} {vs us : List Value} :
    value w (.closure f) (.closure g) → List.Forall₂ (value w) vs us →
    holds w scope (Action.openCall f vs) (Action.openCall g us)
  operate {w : World} {v v' u u' : Value} (op : String) : value w v v' → value w u u' →
    holds w value (Action.operate op v u) (Action.operate op v' u')
  firstPartDue {w : World} {σ τ : ScopeId} (first : Expr) (isFirst : Bool) : scope w σ τ →
    holds w (fun _ => Eq) (Action.firstPartDue first isFirst σ) (Action.firstPartDue first isFirst τ)
  native {w : World} {f g : Native} {vs us : List Value}
    {call call' : Closure → List Value → Action Value} :
    value w (.native f) (.native g) → List.Forall₂ (value w) vs us →
    (∀ w', w ≤ w' → ∀ c d as bs, value w' (.closure c) (.closure d) →
      List.Forall₂ (value w') as bs → holds w' value (call c as) (call' d bs)) →
    holds w value ((f.program host vs).perform call) ((g.program host us).perform call')

namespace Correspondence

variable {World : Type} [Preorder World] {host : Host} {P : Span → Span → Prop}
  (C : Correspondence World host P)

/-- From a stage on, two ways to evaluate in a scope correspond. -/
def Follows (w : World) (f g : Expr → Action Value) : Prop :=
  ∀ w', w ≤ w' → ∀ e e', e.Alike P e' → C.holds w' C.value (f e) (g e')

/-- Two ways to evaluate correspond in corresponding scopes. -/
def Evaluates (f g : Expr → ScopeId → Action Value) : Prop :=
  ∀ w e e' σ τ, e.Alike P e' → C.scope w σ τ → C.holds w C.value (f e σ) (g e' τ)

/-- Two ways to carry out the rounds of a counted loop correspond in corresponding scopes. -/
def Repeats (f g : Expr → Expr → Expr → Expr → Bool → ScopeId → Action Value) : Prop :=
  ∀ w first first' test test' update update' body body' isFirst σ τ, first.Alike P first' →
    test.Alike P test' → update.Alike P update' → body.Alike P body' → C.scope w σ τ →
    C.holds w C.value (f first test update body isFirst σ) (g first' test' update' body' isFirst τ)

variable {C}

/-- What follows in one world follows in every later one. -/
theorem Follows.later {w w' : World} {f g : Expr → Action Value} (h : C.Follows w f g)
    (hw : w ≤ w') : C.Follows w' f g :=
  fun w'' hw' => h w'' (hw.trans hw')

/-- Evaluations that correspond follow each other in corresponding scopes. -/
theorem Evaluates.follows {f g : Expr → ScopeId → Action Value} (h : C.Evaluates f g) {w : World}
    {σ τ : ScopeId} (hσ : C.scope w σ τ) : C.Follows w (f · σ) (g · τ) :=
  fun w' hw e e' he => h w' e e' σ τ he (C.scope_later hw hσ)

/-- Corresponding argument lists stay so. -/
theorem values_later {w w' : World} {vs us : List Value} (hw : w ≤ w')
    (h : List.Forall₂ (C.value w) vs us) : List.Forall₂ (C.value w') vs us :=
  h.imp fun _ _ => C.value_later hw

/-- A part that may be due is evaluated on both sides or on neither. -/
theorem evalIf {w : World} {f g : Expr → Action Value} (h : C.Follows w f g) (due : Bool)
    {e e' : Expr} (he : e.Alike P e') : C.holds w C.value (evalIf due f e) (evalIf due g e') := by
  cases due with
  | false => exact C.pure (C.plain rfl)
  | true => exact h w le_rfl e e' he

/-- Sequences correspond, if their items do. -/
theorem lastOf {w : World} {f g : Expr → Action Value} (h : C.Follows w f g) {v u : Value}
    (hv : C.value w v u) {es es' : List Expr} (hes : List.Forall₂ (Expr.Alike P) es es') :
    C.holds w C.value (lastOf f v es) (lastOf g u es') := by
  induction hes generalizing w v u with
  | nil => exact C.pure hv
  | cons he _ ih => exact C.bind (h w le_rfl _ _ he) fun w' hw _ _ hvu => ih (h.later hw) hvu

/-- The items of lists correspond one by one. -/
theorem allOf {w : World} {f g : Expr → Action Value} (h : C.Follows w f g) {vs us : List Value}
    (hvs : List.Forall₂ (C.value w) vs us) {es es' : List Expr}
    (hes : List.Forall₂ (Expr.Alike P) es es') :
    C.holds w (fun w' => List.Forall₂ (C.value w')) (allOf f vs es) (allOf g us es') := by
  induction hes generalizing w vs us with
  | nil => exact C.pure (List.rel_reverse hvs)
  | cons he _ ih =>
    exact C.bind (h w le_rfl _ _ he) fun w' hw _ _ hv =>
      ih (h.later hw) (.cons hv (values_later hw hvs))

section Steps

variable {f g : Expr → ScopeId → Action Value}
  {round round' : Expr → Expr → Expr → Expr → Bool → ScopeId → Action Value}
  (heval : C.Evaluates f g) (hround : C.Repeats round round')

include heval

/-- Calls of corresponding closures correspond. -/
theorem callClosure {w : World} {c d : Closure} {vs us : List Value}
    (hc : C.value w (.closure c) (.closure d)) (hvs : List.Forall₂ (C.value w) vs us) :
    C.holds w C.value (callClosure f c vs) (callClosure g d us) := by
  cases C.alike hc with
  | plain h => simp [Value.isFunction] at h
  | closure hbody => exact C.bind (C.openCall hc hvs) fun w' _ σ τ hσ => heval w' _ _ σ τ hbody hσ

/-- Calls of corresponding values correspond, whatever is called. -/
theorem callValue {w : World} (name : String) {v u : Value} {vs us : List Value}
    (hv : C.value w v u) (hvs : List.Forall₂ (C.value w) vs us) :
    C.holds w C.value (callValue host f name v vs) (callValue host g name u us) := by
  cases C.alike hv with
  | plain h =>
    cases v with
    | native => simp [Value.isFunction] at h
    | closure => simp [Value.isFunction] at h
    | _ => exact C.raise rfl
  | native =>
    exact C.calling name (C.native hv hvs fun _ _ _ _ _ _ hc has => callClosure heval hc has)
  | closure => exact C.calling name (callClosure heval hv hvs)

include hround

/-- A loop respects a correspondence if evaluating one level deeper does. Its condition decides what kind
of loop it is. -/
theorem evalStep_loop {w : World} {p q : Span} (hp : P p q) {cond cond' body body' : Expr}
    (hcond : cond.Alike P cond') (hbody : body.Alike P body') {σ τ : ScopeId} (hσ : C.scope w σ τ) :
    C.holds w C.value (evalStep host f round (.loop p cond body) σ)
      (evalStep host g round' (.loop q cond' body') τ) := by
  have hhere := heval.follows hσ
  have hother : C.holds w C.value (Action.raise (.badLoopCondition cond))
      (Action.raise (.badLoopCondition cond')) :=
    C.raise (Fault.error_of_render hcond.render_eq).2.2.2
  cases hcond with
  | @block r r' hr items items' hitems =>
    have hcount : C.holds w C.value (Action.raise (.badLoopParts items.length))
        (Action.raise (.badLoopParts items'.length)) := by
      rw [hitems.length_eq]
      exact C.raise rfl
    cases hitems with
    | nil => exact hcount
    | @cons e₁ e₁' rest rest' h₁ hrest =>
      cases hrest with
      | nil =>
        have hcond : (Expr.block r [e₁]).Alike P (.block r' [e₁']) := .block hr (.cons h₁ .nil)
        refine C.bind (hhere w le_rfl _ _ hcond) fun w' hw c c' hc => ?_
        rw [(C.alike hc).truthy_eq]
        split
        · exact C.bind (hhere w' hw _ _ hbody) fun w'' hw' _ _ _ =>
            hhere w'' (hw.trans hw') _ _ (.loop hp hcond hbody)
        · exact C.pure (C.plain rfl)
      | cons h₂ hrest =>
        cases hrest with
        | nil => exact hcount
        | cons h₃ hrest =>
          cases hrest with
          | nil =>
            exact C.bind (C.extend hσ) fun w' _ inner inner' hinner =>
              hround w' _ _ _ _ _ _ _ _ _ inner inner' h₁ h₂ h₃ hbody hinner
          | cons => exact hcount
  | _ => exact hother

/-- Evaluating an expression respects a correspondence if evaluating one level deeper does. -/
theorem evalStep {w : World} {e e' : Expr} (he : e.Alike P e') {σ τ : ScopeId} (hσ : C.scope w σ τ) :
    C.holds w C.value (evalStep host f round e σ) (evalStep host g round' e' τ) := by
  have hhere := heval.follows hσ
  cases he with
  | number => exact C.pure (C.plain rfl)
  | string => exact C.pure (C.plain rfl)
  | bool => exact C.pure (C.plain rfl)
  | ident _ name => exact C.read name hσ
  | @assign _ _ _ target target' _ _ htarget hvalue =>
    have hother : C.holds w C.value (Action.raise (.badAssignment target))
        (Action.raise (.badAssignment target')) :=
      C.raise (Fault.error_of_render htarget.render_eq).1
    cases htarget with
    | ident =>
      exact C.bind (hhere w le_rfl _ _ hvalue) fun w' hw _ _ hv => C.assign _ (C.scope_later hw hσ) hv
    | _ => exact hother
  | binary _ op hleft hright =>
    refine C.bind (hhere w le_rfl _ _ hleft) fun w' hw l l' hl => ?_
    rw [(C.alike hl).truthy_eq]
    split
    · split
      · exact hhere w' hw _ _ hright
      · exact C.pure hl
    · split
      · split
        · exact C.pure hl
        · exact hhere w' hw _ _ hright
      · exact C.bind (hhere w' hw _ _ hright) fun w'' hw' _ _ hr =>
          C.operate op (C.value_later hw' hl) hr
  | call _ hcallee hargs =>
    refine C.bind (hhere w le_rfl _ _ hcallee) fun w' hw f f' hf => ?_
    refine C.bind (allOf (hhere.later hw) .nil hargs) fun w'' hw' vs us hvs => ?_
    rw [hcallee.calleeName_eq]
    exact callValue heval _ (C.value_later hw' hf) hvs
  | function _ params hbody => exact C.close params hbody hσ
  | ifThen _ hcond hbody =>
    refine C.bind (hhere w le_rfl _ _ hcond) fun w' hw c c' hc => ?_
    rw [(C.alike hc).truthy_eq]
    split
    · exact hhere w' hw _ _ hbody
    · exact C.pure (C.plain rfl)
  | ifElse _ hcond hbody hother =>
    refine C.bind (hhere w le_rfl _ _ hcond) fun w' hw c c' hc => ?_
    rw [(C.alike hc).truthy_eq]
    split
    · exact hhere w' hw _ _ hbody
    · exact hhere w' hw _ _ hother
  | loop hp hcond hbody => exact evalStep_loop heval hround hp hcond hbody hσ
  | stuff _ hbase hvalue =>
    simp only [StuffScript.evalStep, hbase.stuffTarget?_eq]
    split
    · exact C.raise (Fault.error_of_render hbase.render_eq).2.1
    · refine C.bind (hhere w le_rfl _ _ hbase) fun w' hw _ _ _ => ?_
      exact C.bind (hhere w' hw _ _ hvalue) fun w'' hw' _ _ hv =>
        C.stuff _ (C.scope_later (hw.trans hw') hσ) hv
  | unstuff _ hbase =>
    simp only [StuffScript.evalStep, hbase.stuffTarget?_eq]
    split
    · exact C.raise (Fault.error_of_render hbase.render_eq).2.2.1
    · exact C.bind (hhere w le_rfl _ _ hbase) fun w' hw _ _ _ => C.stuffed _ (C.scope_later hw hσ)
  | block _ hitems => exact lastOf hhere (C.plain rfl) hitems

/-- A round of a counted loop respects a correspondence if evaluating one level deeper does. -/
theorem roundStep {w : World} {first first' test test' update update' body body' : Expr}
    (hfirst : first.Alike P first') (htest : test.Alike P test') (hupdate : update.Alike P update')
    (hbody : body.Alike P body') (isFirst : Bool) {σ τ : ScopeId} (hσ : C.scope w σ τ) :
    C.holds w C.value (roundStep f round first test update body isFirst σ)
      (roundStep g round' first' test' update' body' isFirst τ) := by
  have hhere := heval.follows hσ
  have hdue := C.firstPartDue first isFirst hσ
  nth_rewrite 2 [Action.firstPartDue_congr hfirst.assigned?_eq] at hdue
  refine C.bind hdue fun w₁ h₁ due _ hdue => ?_
  subst hdue
  refine C.bind (evalIf (hhere.later h₁) due hfirst) fun w₂ h₂ _ _ _ => ?_
  refine C.bind (hhere w₂ (h₁.trans h₂) _ _ htest) fun w₃ h₃ c c' hc => ?_
  rw [(C.alike hc).truthy_eq]
  split
  · have h₁₃ := (h₁.trans h₂).trans h₃
    refine C.bind (hhere w₃ h₁₃ _ _ hbody) fun w₄ h₄ _ _ _ => ?_
    refine C.bind (hhere w₄ (h₁₃.trans h₄) _ _ hupdate) fun w₅ h₅ _ _ _ => ?_
    exact hround w₅ _ _ _ _ _ _ _ _ _ σ τ hfirst htest hupdate hbody
      (C.scope_later ((h₁₃.trans h₄).trans h₅) hσ)
  · exact C.pure (C.plain rfl)

end Steps

/-- Evaluating an expression respects a correspondence, and so does a round of a counted loop, if that
is so where the left-hand run has no levels left. -/
theorem evalIn_roundIn (extra : Nat) (hzero : C.Evaluates (evalIn host 0) (evalIn host extra))
    (hround : C.Repeats (roundIn host 0) (roundIn host extra)) (levels : Nat) :
    C.Evaluates (evalIn host levels) (evalIn host (levels + extra)) ∧
      C.Repeats (roundIn host levels) (roundIn host (levels + extra)) := by
  induction levels with
  | zero =>
    rw [Nat.zero_add]
    exact ⟨hzero, hround⟩
  | succ levels ih =>
    obtain ⟨heval, hnext⟩ := ih
    rw [Nat.add_right_comm levels 1 extra]
    constructor
    · intro w e e' σ τ he hσ
      simp only [StuffScript.evalIn]
      exact C.deeper (evalStep heval hnext he hσ)
    · intro w first first' test test' update update' body body' isFirst σ τ hfirst htest hupdate hbody hσ
      simp only [StuffScript.roundIn]
      exact C.deeper (roundStep heval hnext hfirst htest hupdate hbody isFirst hσ)

section SameLevels

variable (hzero : ∀ w, C.holds w C.value Action.exhausted Action.exhausted)
include hzero

/-- Evaluating with the same number of levels respects a correspondence if running out of levels
does, and so does a round of a counted loop. -/
theorem evalIn_roundIn_same (levels : Nat) :
    C.Evaluates (evalIn host levels) (evalIn host levels) ∧
      C.Repeats (roundIn host levels) (roundIn host levels) := by
  refine evalIn_roundIn (C := C) 0 ?_ ?_ levels
  · intro w e e' σ τ _ _
    rw [evalIn_zero, evalIn_zero]
    exact hzero w
  · intro w first first' test test' update update' body body' isFirst σ τ _ _ _ _ _
    rw [roundIn_zero, roundIn_zero]
    exact hzero w

/-- Evaluations with the same number of levels left correspond. -/
theorem evalIn (levels : Nat) : C.Evaluates (evalIn host levels) (evalIn host levels) :=
  (evalIn_roundIn_same hzero levels).1

end SameLevels

end Correspondence

end StuffScript
