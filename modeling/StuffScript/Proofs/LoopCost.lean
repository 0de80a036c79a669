import StuffScript.Proofs.Iteration
import StuffScript.Proofs.Sequencing

/-!
# What loops cost

A loop takes one level for each of its passes and gives none back before it ends. So the levels that are left
bound the number of passes, from above and from below: a loop that ends by itself has had a level for every
pass and for the test behind them, and as long as there are levels enough for the parts of a pass, a loop
does not fail for want of levels.

How many levels the parts need is told by their height, if there is neither a loop nor a call in them. The
main statement is `loops_cost_levels`.
-/

namespace StuffScript

namespace Expr

mutual

/-- The number of nodes on the longest way down. -/
def height : Expr → Nat
  | number .. | string .. | bool .. | ident .. => 1
  | assign _ target value => max target.height value.height + 1
  | binary _ left _ right => max left.height right.height + 1
  | call _ callee args => max callee.height (heightItems args) + 1
  | function _ _ body => body.height + 1
  | ifThen _ cond body => max cond.height body.height + 1
  | ifElse _ cond body other => max cond.height (max body.height other.height) + 1
  | loop _ cond body => max cond.height body.height + 1
  | stuff _ base value => max base.height value.height + 1
  | unstuff _ base => base.height + 1
  | block _ items => heightItems items + 1

/-- The largest height of several expressions, zero for none. -/
def heightItems : List Expr → Nat
  | [] => 0
  | e :: es => max e.height (heightItems es)

end

/-- Whether an expression is itself a loop or a call. -/
def isLoopOrCall : Expr → Bool
  | loop .. | call .. => true
  | _ => false

/-- There is neither a loop nor a call in an expression. -/
def Straight (e : Expr) : Prop := ∀ x ∈ e.preorder, x.isLoopOrCall = false

instance (e : Expr) : Decidable e.Straight :=
  inferInstanceAs (Decidable (∀ x ∈ e.preorder, x.isLoopOrCall = false))

/-- No item is higher than the highest. -/
theorem height_le_items {e : Expr} {es : List Expr} (h : e ∈ es) : e.height ≤ heightItems es := by
  induction es with
  | nil => simp at h
  | cons first es ih =>
    rw [heightItems]
    rcases List.mem_cons.mp h with rfl | h
    · exact Nat.le_max_left _ _
    · exact Nat.le_trans (ih h) (Nat.le_max_right _ _)

/-- Every child is less high. -/
theorem height_lt {e c : Expr} (h : c ∈ e.children) : c.height < e.height := by
  have hheight : e.height = heightItems e.children + 1 := by
    cases e <;> simp [height, children, heightItems]
  rw [hheight]
  exact Nat.lt_succ_of_le (height_le_items h)

/-- Parts of an expression without loops and calls have none either. -/
theorem Straight.child {e c : Expr} (h : e.Straight) (hc : c ∈ e.children) : c.Straight := by
  intro x hx
  apply h
  rw [preorder_eq]
  exact List.mem_cons_of_mem _ (List.mem_flatMap.mpr ⟨c, hc, hx⟩)

/-- An expression without loops and calls is neither. -/
theorem Straight.self {e : Expr} (h : e.Straight) : e.isLoopOrCall = false := by
  apply h
  rw [preorder_eq]
  exact List.mem_cons_self

end Expr

/-- From a depth and under a limit, an action comes back to them and does not fail for want of levels. -/
def Action.Fits {α : Type} (depth limit : Nat) (x : Action α) : Prop :=
  ∀ s : Session, s.depth = depth → s.limit = limit →
    (x s).2.depth = depth ∧ (x s).2.limit = limit ∧ ¬ Outcome.Exhausted (x s).1

section Faults

/-- A fault that is not the want of levels is no failure for want of levels. -/
theorem Session.not_exhausted_failure {α : Type} {f : Fault} (h : f.kind ≠ .stackExhausted) (s : Session) :
    ¬ Outcome.Exhausted (.error (s.failure f) : Outcome α) := by
  rintro ⟨g, hg, hkind⟩
  cases hg
  rw [Session.failure_hasKind] at hkind
  exact h (of_decide_eq_true hkind)

/-- No operator fails for want of levels. -/
theorem applyOperator_kind {op : String} {l r : Value} {f : Fault} (h : applyOperator op l r = .error f) :
    f.kind ≠ .stackExhausted := by
  have hnumber {v : Value} {g : Fault} (hv : v.number? = .error g) : g.kind ≠ .stackExhausted := by
    unfold Value.number? at hv
    split at hv
    · cases hv
    · cases hv
      simp [Fault.kind]
  unfold applyOperator at h
  split at h
  · cases h
  · split at h
    · cases h
    · cases hl : l.number? with
      | error g =>
        simp only [hl, Bind.bind, Except.bind] at h
        cases h
        exact hnumber hl
      | ok a =>
        cases hr : r.number? with
        | error g =>
          simp only [hl, hr, Bind.bind, Except.bind] at h
          cases h
          exact hnumber hr
        | ok b =>
          simp only [hl, hr, Bind.bind, Except.bind] at h
          repeat' split at h
          all_goals cases h <;> simp [Fault.kind]

end Faults

namespace Action.Fits

variable {α β : Type} {depth limit : Nat}

/-- Giving a value needs no levels. -/
theorem pure (a : α) : Fits depth limit (Pure.pure a) :=
  fun _ hdepth hlimit => ⟨hdepth, hlimit, Outcome.not_exhausted_ok a⟩

/-- One action after another fits, if each of them does. -/
theorem bind {x : Action α} {f : α → Action β} (hx : Fits depth limit x) (hf : ∀ a, Fits depth limit (f a)) :
    Fits depth limit (x >>= f) := by
  intro s hdepth hlimit
  have hs := hx s hdepth hlimit
  rw [Action.bind_apply]
  revert hs
  rcases x s with ⟨r, t⟩
  rintro ⟨hdepth', hlimit', hr⟩
  cases r with
  | error e => exact ⟨hdepth', hlimit', fun hcut => hr hcut.error⟩
  | ok a => exact hf a t hdepth' hlimit'

/-- Single actions that do not fail for want of levels. -/
theorem act {x : Action α} (h : x.Single) (hx : ∀ s, ¬ Outcome.Exhausted (x s).1) : Fits depth limit x := by
  intro s hdepth hlimit
  have hsettled := (h.evolving s (Nat.zero_le _)).settled
  exact ⟨hsettled.depth.trans hdepth, hsettled.limit.trans hlimit, hx s⟩

/-- Raising a fault that is not the want of levels needs none. -/
theorem raise {f : Fault} (h : f.kind ≠ .stackExhausted) :
    Fits depth limit (Action.raise f : Action Value) :=
  act (.raise f) fun s => s.not_exhausted_failure h

/-- Reading a variable needs no levels. -/
theorem value (σ : ScopeId) (name : String) : Fits depth limit (Action.value σ name) := by
  refine act (.value σ name) fun s => ?_
  unfold Action.value Scopes.value
  cases s.scopes.lookup σ name with
  | some b => exact Outcome.not_exhausted_ok _
  | none => exact s.not_exhausted_failure (by simp [Fault.kind])

/-- Assigning needs no levels. -/
theorem assign (σ : ScopeId) (name : String) (v : Value) : Fits depth limit (Action.assign σ name v) :=
  act (.assign σ name v) fun _ => Outcome.not_exhausted_ok v

/-- Stuffing needs no levels. -/
theorem stuff (σ : ScopeId) (name : String) (v : Value) : Fits depth limit (Action.stuff σ name v) := by
  refine act (.stuff σ name v) fun s => ?_
  unfold Action.stuff Scopes.stuff
  cases s.scopes.lookup σ name with
  | some b => exact Outcome.not_exhausted_ok v
  | none => exact s.not_exhausted_failure (by simp [Fault.kind])

/-- Reading what is stuffed needs no levels. -/
theorem stuffed (σ : ScopeId) (name : String) : Fits depth limit (Action.stuffed σ name) := by
  refine act (.stuffed σ name) fun s => ?_
  unfold Action.stuffed Scopes.stuffed
  split
  · exact Outcome.not_exhausted_ok _
  · next f hf =>
    split at hf
    · cases hf
    · cases hf
      exact s.not_exhausted_failure (by simp [Fault.kind])

/-- Applying an operator needs no levels. -/
theorem operate (op : String) (l r : Value) : Fits depth limit (Action.operate op l r) := by
  refine act (.operate op l r) fun s => ?_
  unfold Action.operate
  cases h : applyOperator op l r with
  | ok v => exact Outcome.not_exhausted_ok v
  | error f => exact s.not_exhausted_failure (applyOperator_kind h)

/-- Where there is a level left, what fits one level deeper fits. -/
theorem deeper {x : Action α} (hlt : depth < limit) (h : Fits (depth + 1) limit x) :
    Fits depth limit (Action.within Action.enter Action.leave fun _ => x) := by
  rintro s rfl rfl
  rw [Action.within_enter_of_lt x hlt]
  obtain ⟨hdepth, hlimit, hx⟩ := h { s with depth := s.depth + 1 } rfl rfl
  exact ⟨congrArg (· - 1) hdepth, hlimit, hx⟩

/-- A sequence fits, if all its items do. -/
theorem lastOf {eval : Expr → Action Value} {es : List Expr} (h : ∀ e ∈ es, Fits depth limit (eval e))
    (v : Value) : Fits depth limit (lastOf eval v es) := by
  induction es generalizing v with
  | nil => exact pure v
  | cons e es ih =>
    exact bind (h e List.mem_cons_self) fun u => ih (fun c hc => h c (List.mem_cons_of_mem _ hc)) u

end Action.Fits

/-- Where there are as many levels as it is high, an expression without loops and calls does not fail for
want of levels. -/
theorem Expr.Straight.fits (host : Host) (σ : ScopeId) {e : Expr} (h : e.Straight) {depth limit : Nat}
    (hlevels : depth + e.height ≤ limit) : Action.Fits depth limit (Action.eval host e σ) := by
  induction e using Expr.induction_on_children generalizing depth with
  | step e ih =>
    have hchild {c : Expr} (hc : c ∈ e.children) : Action.Fits (depth + 1) limit (Action.eval host c σ) := by
      have hless := height_lt hc
      exact ih c hc (h.child hc) (by omega)
    have hlt : depth < limit := by
      have hpos : 0 < e.height := by cases e <;> simp [height]
      omega
    have hself := h.self
    rw [Action.eval_eq]
    apply Action.Fits.deeper hlt
    cases e with
    | number _ _ n => exact .pure _
    | string _ v => exact .pure _
    | bool _ b => exact .pure _
    | ident _ name => exact .value σ name
    | assign p target value =>
      cases target with
      | ident _ name => exact .bind (hchild (by simp [children])) fun v => .assign σ name v
      | _ => exact .raise (by simp [Fault.kind])
    | binary _ left op right =>
      refine .bind (hchild (by simp [children])) fun l => ?_
      have hright := hchild (c := right) (by simp [children])
      split
      · split
        · exact hright
        · exact .pure l
      · split
        · split
          · exact .pure l
          · exact hright
        · exact .bind hright fun r => .operate op l r
    | call _ callee args => cases hself
    | function _ params body =>
      exact .act (.close params body σ) fun _ => Outcome.not_exhausted_ok _
    | ifThen _ cond body =>
      refine .bind (hchild (by simp [children])) fun c => ?_
      split
      · exact hchild (by simp [children])
      · exact .pure _
    | ifElse _ cond body other =>
      refine .bind (hchild (by simp [children])) fun c => ?_
      split
      · exact hchild (by simp [children])
      · exact hchild (by simp [children])
    | loop _ cond body => cases hself
    | stuff _ base value =>
      have hbase := hchild (c := base) (by simp [children])
      have hvalue := hchild (c := value) (by simp [children])
      simp only [evalStep]
      split
      · exact .raise (by simp [Fault.kind])
      · exact .bind hbase fun _ => .bind hvalue fun v => .stuff σ _ v
    | unstuff _ base =>
      have hbase := hchild (c := base) (by simp [children])
      simp only [evalStep]
      split
      · exact .raise (by simp [Fault.kind])
      · exact .bind hbase fun _ => .stuffed σ _
    | block _ items => exact .lastOf (fun c hc => hchild hc) _

/-- The passes of a loop: what is evaluated in them, in which scope, and from which depth on. -/
structure Passes where
  base : Nat
  scope : ScopeId
  test : Expr
  after : List Expr

/-- Evaluate in the pass with a number. -/
def Passes.eval (host : Host) (P : Passes) (j : Nat) (e : Expr) : Action Value :=
  evalDeeper host P.base j e P.scope

/-- Make the pass with a number. -/
def Passes.run (host : Host) (P : Passes) (j : Nat) : Action Bool := pass (P.eval host j) P.test P.after

/-- Which passes a loop comes to, and the session that the first of them finds. A counted loop has evaluated
its first part before them. -/
inductive Begins (host : Host) (σ : ScopeId) (s : Session) : Expr → Passes → Session → Prop
  | asking (p q : Span) (test body : Expr) :
    Begins host σ s (.loop p (.block q [test]) body) ⟨s.depth + 1, σ, .block q [test], [body]⟩ s
  | counting (p q : Span) {first : Expr} (test update body : Expr) {inner : ScopeId} {t u : Session}
    {v : Value} (hmade : Action.extend σ s = (.ok inner, t))
    (hfirst : evalDeeper host (s.depth + 2) 0 first inner t = (.ok v, u)) :
    Begins host σ s (.loop p (.block q [first, test, update]) body)
      ⟨s.depth + 2, inner, test, [body, update]⟩ u

/-- Passes are made from one number up to another, and each says to go on. -/
inductive Passed (x : Nat → Action Bool) : Nat → Session → Nat → Session → Prop
  | none (k : Nat) (s : Session) : Passed x k s k s
  | next {j k : Nat} {s t u : Session} (h : x j s = (.ok true, t)) (hmore : Passed x (j + 1) t k u) :
    Passed x j s k u

/-- A loop makes so many passes and ends at the test behind them, which is false. -/
def Completes (host : Host) (σ : ScopeId) (s : Session) (e : Expr) (k : Nat) (t : Session) : Prop :=
  ∃ P u w, Begins host σ s e P u ∧ Passed (P.run host) 0 u k w ∧ P.run host k w = (.ok false, t)

/-- A loop makes so many passes, and the test behind them is true. -/
def Lasts (host : Host) (σ : ScopeId) (s : Session) (e : Expr) (k : Nat) : Prop :=
  ∃ P u w c t, Begins host σ s e P u ∧ Passed (P.run host) 0 u k w ∧
    P.eval host k P.test w = (.ok c, t) ∧ c.truthy = true

section Passing

/-- A pass that comes to an end has evaluated its test, and goes on if that is true. -/
theorem test_of_pass {eval : Expr → Action Value} {test : Expr} {after : List Expr} {s t : Session} {b : Bool}
    (h : pass eval test after s = (.ok b, t)) :
    ∃ c u, eval test s = (.ok c, u) ∧ c.truthy = b := by
  rw [pass, Action.bind_apply] at h
  rcases heval : eval test s with ⟨r, u⟩
  rw [heval] at h
  cases r with
  | error f => cases h
  | ok c =>
    refine ⟨c, u, rfl, ?_⟩
    cases hc : c.truthy with
    | false =>
      simp only [hc, Bool.false_eq_true, if_false] at h
      cases h
      rfl
    | true =>
      simp only [hc, if_true] at h
      rw [Action.bind_apply] at h
      rcases hafter : lastOf eval .undefined after u with ⟨r, w⟩
      rw [hafter] at h
      cases r with
      | error f => cases h
      | ok v =>
        cases h
        rfl

/-- A pass is made at its own depth as a whole. -/
theorem Passes.run_eq (host : Host) (P : Passes) (j : Nat) :
    P.run host j = (pass (Action.eval host · P.scope) P.test P.after).atDepth (P.base + j) :=
  pass_atDepth host P.scope (P.base + j) P.test P.after

/-- Passes do not change the limit. -/
theorem Passes.run_limit (host : Host) (P : Passes) (j : Nat) (s : Session) :
    (P.run host j s).2.limit = s.limit := by
  rw [P.run_eq]
  exact (pass_evolving host P.scope P.test P.after _ (Nat.zero_le _)).settled.limit

/-- Passes keep the limit. -/
theorem Passed.limit {host : Host} {P : Passes} {j k : Nat} {s t : Session}
    (h : Passed (P.run host) j s k t) : t.limit = s.limit := by
  induction h with
  | none => rfl
  | @next j k s t u h _ ih =>
    have hlimit := P.run_limit host j s
    rw [h] at hlimit
    exact ih.trans hlimit

/-- What comes before the passes keeps the limit. -/
theorem Begins.limit {host : Host} {σ : ScopeId} {s u : Session} {e : Expr} {P : Passes}
    (h : Begins host σ s e P u) : u.limit = s.limit := by
  cases h with
  | asking => rfl
  | @counting _ _ first _ _ _ inner t u v hmade hfirst =>
    have hlimit : (evalDeeper host (s.depth + 2) 0 first inner t).2.limit = t.limit :=
      (Action.eval_evolving host inner first _ (Nat.zero_le _)).settled.limit
    rw [hfirst] at hlimit
    cases hmade
    exact hlimit

/-- Evaluation that comes to an end has had a level. -/
theorem Session.lt_of_ok {host : Host} {e : Expr} {σ : ScopeId} {s : Session} {v : Value}
    (h : (s.eval host e σ).1 = .ok v) : s.depth < s.limit := by
  have hnot : ¬ (s.eval host e σ).1.Exhausted := by
    rw [h]
    exact Outcome.not_exhausted_ok v
  exact Session.lt_of_not_exhausted hnot

/-- A block has had a level more, for what is in it. -/
theorem Session.lt_of_block_ok {host : Host} {q : Span} {e : Expr} {σ : ScopeId} {s : Session} {v : Value}
    (h : (s.eval host (.block q [e]) σ).1 = .ok v) : s.depth + 1 < s.limit := by
  rw [Session.eval_of_lt (Session.lt_of_ok h)] at h
  have hinside : (lastOf (Action.eval host · σ) (.bool false) [e] s.entered).1 = .ok v := h
  rw [lastOf, Action.bind_apply] at hinside
  rcases heval : Action.eval host e σ s.entered with ⟨r, u⟩
  rw [heval] at hinside
  cases r with
  | error f => cases hinside
  | ok w => exact Session.lt_of_ok (s := s.entered) (congrArg Prod.fst heval)

/-- The test of the pass that a loop ends in has had its level, which is as deep as the passes before it are
many. -/
theorem Begins.levels {host : Host} {σ : ScopeId} {s u w t : Session} {e : Expr} {P : Passes} {k : Nat}
    {b : Bool} (h : Begins host σ s e P u) (hw : w.limit = s.limit) (hrun : P.run host k w = (.ok b, t)) :
    s.depth + 1 + k + 2 ≤ s.limit := by
  obtain ⟨c, v, htest, -⟩ := test_of_pass hrun
  rw [← hw]
  have hok : (({ w with depth := P.base + k } : Session).eval host P.test P.scope).1 = .ok c :=
    congrArg Prod.fst htest
  cases h with
  | asking =>
    have hlt : s.depth + 1 + k + 1 < w.limit := Session.lt_of_block_ok hok
    omega
  | counting =>
    have hlt : s.depth + 2 + k < w.limit := Session.lt_of_ok hok
    omega

end Passing

section Loops

variable {host : Host} {σ : ScopeId} {s : Session}

/-- With the levels that it needs to come to its passes, a loop is their iteration. -/
theorem Begins.iterates {u : Session} {e : Expr} {P : Passes} (h : Begins host σ s e P u)
    (hlevels : P.base ≤ s.limit) : Iterates (P.run host) 0 u (s.eval host e σ) := by
  cases h with
  | asking p q test body => exact while_iterates_of_lt p q test body hlevels
  | @counting p q first test update body _ _ _ _ hmade hfirst =>
    have hcounted : CountedIterates (evalDeeper host (s.depth + 2)) first test update body σ s
        (s.eval host (.loop p (.block q [first, test, update]) body) σ) :=
      counted_iterates_of_lt p q first test update body hlevels
    generalize s.eval host (.loop p (.block q [first, test, update]) body) σ = ending at hcounted ⊢
    cases hcounted with
    | fails hmade' hfirst' =>
      cases hmade.symm.trans hmade'
      cases hfirst.symm.trans hfirst'
    | repeats hmade' hfirst' hpasses =>
      cases hmade.symm.trans hmade'
      cases hfirst.symm.trans hfirst'
      exact hpasses

/-- A loop that ends by itself has come to its passes. -/
theorem exists_begins {p : Span} {cond body : Expr} {v : Value} {t : Session}
    (h : s.eval host (.loop p cond body) σ = (.ok v, t)) :
    ∃ P u, Begins host σ s (.loop p cond body) P u ∧ P.base ≤ s.limit := by
  have hnot : ¬ (s.eval host (.loop p cond body) σ).1.Exhausted := by
    rw [h]
    exact Outcome.not_exhausted_ok v
  obtain ⟨hlt, heval⟩ := Session.eval_of_not_exhausted hnot
  cases cond with
  | block q items =>
    rcases items with _ | ⟨test, _ | ⟨second, _ | ⟨update, _ | ⟨fourth, rest⟩⟩⟩⟩
    · cases heval.symm.trans h
    · exact ⟨_, _, .asking p q test body, hlt⟩
    · cases heval.symm.trans h
    · have hcounted := counted_iterates p q test second update body hnot
      rw [h] at hcounted
      cases hcounted with
      | repeats hmade hfirst _ => exact ⟨_, _, .counting p q second update body hmade hfirst, counted_levels hnot⟩
    · cases heval.symm.trans h
  | _ => cases heval.symm.trans h

/-- Iteration that ends by itself ends at a test that is false, behind some passes. -/
theorem Iterates.ok_iff {x : Nat → Action Bool} {j : Nat} {s t : Session} {v : Value} :
    Iterates x j s (.ok v, t) ↔ v = .bool false ∧ ∃ k w, Passed x j s k w ∧ x k w = (.ok false, t) := by
  constructor
  · intro h
    refine ⟨h.eq_false, ?_⟩
    generalize hending : ((.ok v, t) : Ending) = ending at h
    induction h with
    | fails _ => cases hending
    | stops h =>
      cases hending
      exact ⟨_, _, .none _ _, h⟩
    | goesOn h _ ih =>
      obtain ⟨k, w, hpassed, hstop⟩ := ih hending
      exact ⟨k, w, .next h hpassed, hstop⟩
  · rintro ⟨rfl, k, w, hpassed, hstop⟩
    induction hpassed with
    | none => exact .stops hstop
    | next h _ ih => exact .goesOn h (ih hstop)

/-- Iteration that fails for want of levels makes all passes that have levels enough. -/
theorem Iterates.passed {x : Nat → Action Bool} {j k limit : Nat} {s : Session} {ending : Ending}
    (h : Iterates x j s ending) (hcut : ending.1.Exhausted) (hjk : j ≤ k) (hs : s.limit = limit)
    (hx : ∀ i ≤ k, ∀ t : Session, t.limit = limit →
      ¬ Outcome.Exhausted (x i t).1 ∧ (x i t).2.limit = limit) :
    ∃ w t, Passed x j s k w ∧ x k w = (.ok true, t) := by
  induction h with
  | @fails j s t f h =>
    have hnot := (hx j hjk s hs).1
    rw [h] at hnot
    exact absurd hcut.error hnot
  | stops h => exact absurd hcut (Outcome.not_exhausted_ok _)
  | @goesOn j s t ending h _ ih =>
    have ht := (hx j hjk s hs).2
    rw [h] at ht
    by_cases hlast : j = k
    · subst hlast
      exact ⟨s, t, .none j s, h⟩
    · obtain ⟨w, u, hpassed, hgoes⟩ := ih hcut (by omega) ht
      exact ⟨w, u, .next h hpassed, hgoes⟩

/-- A loop that ends by itself has had a level for every pass and for the test behind them. -/
theorem Completes.levels {e : Expr} {k : Nat} {t : Session} (h : Completes host σ s e k t) :
    s.depth + 1 + k + 2 ≤ s.limit := by
  obtain ⟨P, u, w, hbegins, hpassed, hstop⟩ := h
  exact hbegins.levels (hpassed.limit.trans hbegins.limit) hstop

/-- A loop that makes its passes and then finds its test false evaluates to false. -/
theorem Completes.eval_eq {e : Expr} {k : Nat} {t : Session} (h : Completes host σ s e k t) :
    s.eval host e σ = (.ok (.bool false), t) := by
  have hlevels := h.levels
  obtain ⟨P, u, w, hbegins, hpassed, hstop⟩ := h
  have hbase : P.base ≤ s.limit := by
    cases hbegins with
    | asking => exact (by omega : s.depth + 1 ≤ s.limit)
    | counting => exact (by omega : s.depth + 2 ≤ s.limit)
  have hends : Iterates (P.run host) 0 u (.ok (.bool false), t) :=
    Iterates.ok_iff.mpr ⟨rfl, k, w, hpassed, hstop⟩
  exact hends.unique (hbegins.iterates hbase)

/-- A loop ends by itself exactly if it makes some passes and finds its test false behind them. -/
theorem eval_loop_ok_iff {p : Span} {cond body : Expr} {v : Value} {t : Session} :
    s.eval host (.loop p cond body) σ = (.ok v, t) ↔
      v = .bool false ∧ ∃ k, Completes host σ s (.loop p cond body) k t := by
  constructor
  · intro h
    obtain ⟨P, u, hbegins, hlevels⟩ := exists_begins h
    have hiterates := hbegins.iterates hlevels
    rw [h] at hiterates
    obtain ⟨hv, k, w, hpassed, hstop⟩ := Iterates.ok_iff.mp hiterates
    exact ⟨hv, k, P, u, w, hbegins, hpassed, hstop⟩
  · rintro ⟨rfl, k, hcompletes⟩
    exact hcompletes.eval_eq

/-- A loop of a program itself is evaluated two levels down. -/
theorem Completes.run {loop : Expr} {before : List Expr} {v : Value} {t u : Session} {k : Nat}
    (h : Completes host Session.root t loop k u)
    (hbefore : Action.inOrder host (.bool false) before s.rested.entered = (.ok v, t)) (p : Span)
    (after : List Expr) :
    k + 4 ≤ s.limit ∧ s.run host (.block p (before ++ loop :: after)) =
      Prod.map id Action.leave (Action.inOrder host (.bool false) after u) := by
  have hsettled := (lastOf_evolving host Session.root (.bool false) before s.rested.entered
    (Nat.zero_le _)).settled
  rw [← Action.inOrder, hbefore] at hsettled
  have hdepth : t.depth = 1 := hsettled.depth
  have hlimit : t.limit = s.limit := hsettled.limit
  have hlevels := h.levels
  have heval : Action.eval host loop Session.root t = (.ok (.bool false), u) := h.eval_eq
  refine ⟨by omega, ?_⟩
  rw [Session.run_append_of_ok p (loop :: after) (by omega) hbefore, Action.inOrder, lastOf,
    Action.bind_apply, heval]
  rfl

/-- A counted loop that fails for want of levels has come to its passes, if there were levels enough for its
first part. -/
theorem exists_counting {p q : Span} {first test update body : Expr} (hfirst : first.Straight)
    (hlevels : s.depth + 2 + first.height ≤ s.limit)
    (hcut : (s.eval host (.loop p (.block q [first, test, update]) body) σ).1.Exhausted) :
    ∃ inner u, Begins host σ s (.loop p (.block q [first, test, update]) body)
      ⟨s.depth + 2, inner, test, [body, update]⟩ u := by
  have hcounted : CountedIterates (evalDeeper host (s.depth + 2)) first test update body σ s
      (s.eval host (.loop p (.block q [first, test, update]) body) σ) :=
    counted_iterates_of_lt p q first test update body (by omega)
  generalize s.eval host (.loop p (.block q [first, test, update]) body) σ = ending at hcounted hcut
  cases hcounted with
  | @fails inner t u f hmade hfails =>
    have ht : t.limit = s.limit := by
      cases hmade
      rfl
    have hnot := (hfirst.fits host inner hlevels { t with depth := s.depth + 2 } rfl ht).2.2
    have heval : (Action.eval host first inner { t with depth := s.depth + 2 }).1 = .error f :=
      congrArg Prod.fst hfails
    rw [heval] at hnot
    exact absurd hcut hnot
  | repeats hmade hdone _ => exact ⟨_, _, .counting p q test update body hmade hdone⟩

/-- Passes whose parts have levels enough do not fail for want of levels. -/
theorem Passes.run_fits {P : Passes} {j limit : Nat} (htest : P.test.Straight)
    (hafter : ∀ e ∈ P.after, e.Straight) (hlevels : ∀ e ∈ P.test :: P.after, P.base + j + e.height ≤ limit)
    {s : Session} (hs : s.limit = limit) :
    ¬ Outcome.Exhausted (P.run host j s).1 ∧ (P.run host j s).2.limit = limit := by
  have hpass : Action.Fits (P.base + j) limit (pass (Action.eval host · P.scope) P.test P.after) := by
    refine .bind (htest.fits host _ (hlevels _ List.mem_cons_self)) fun c => ?_
    split
    · refine .bind (.lastOf (fun e he => ?_) _) fun _ => .pure true
      exact (hafter e he).fits host _ (hlevels e (List.mem_cons_of_mem _ he))
    · exact .pure false
  obtain ⟨-, hlimit, hnot⟩ := hpass { s with depth := P.base + j } rfl hs
  rw [P.run_eq]
  exact ⟨hnot, hlimit⟩

/-- A loop that fails for want of levels makes the passes that have levels enough, and the test behind them
is true. -/
theorem Begins.lasts {u : Session} {e : Expr} {P : Passes} {k : Nat} (h : Begins host σ s e P u)
    (hcut : (s.eval host e σ).1.Exhausted) (hstraight : ∀ x ∈ P.test :: P.after, x.Straight)
    (hlevels : ∀ x ∈ P.test :: P.after, P.base + k + x.height ≤ s.limit) : Lasts host σ s e k := by
  have hbase : P.base ≤ s.limit := by
    have hle := hlevels P.test List.mem_cons_self
    omega
  obtain ⟨htest, hafter⟩ := List.forall_mem_cons.mp hstraight
  have hfits (i : Nat) (hi : i ≤ k) (t : Session) (ht : t.limit = s.limit) :
      ¬ Outcome.Exhausted (P.run host i t).1 ∧ (P.run host i t).2.limit = s.limit := by
    refine P.run_fits htest hafter (fun x hx => ?_) ht
    have hle := hlevels x hx
    omega
  obtain ⟨w, t, hpassed, hgoes⟩ := (h.iterates hbase).passed hcut (Nat.zero_le k) h.limit hfits
  obtain ⟨c, v, heval, hc⟩ := test_of_pass hgoes
  exact ⟨P, u, w, c, v, h, hpassed, heval, hc⟩

end Loops

/-- **Loops cost one level for each pass.** Let a loop be evaluated so that it is itself at some depth, one
more than that of the session. If it ends by itself behind so many passes, their number and two more levels
fit between that depth and the limit; so a loop that stands in a program itself makes at most four passes less
than the limit. Suppose that there is neither a loop nor a call in its parts, and that the limit leaves room
for a number of passes and the highest part; for a counted loop one level more. Then the loop does not fail
for want of levels before it has made these passes and found its test true behind them. An expression without
loops and calls does not fail for want of levels at all, if there are as many left as it is high. -/
theorem loops_cost_levels (host : Host) (σ : ScopeId) (s : Session) :
    (∀ p cond body, let loop := Expr.loop p cond body
      (∀ v t, s.eval host loop σ = (.ok v, t) ↔ v = .bool false ∧ ∃ k, Completes host σ s loop k t) ∧
      ∀ k t, Completes host σ s loop k t → (s.depth + 1) + k + 2 ≤ s.limit) ∧
    (∀ before loop v t k u, Action.inOrder host (.bool false) before s.rested.entered = (.ok v, t) →
      Completes host Session.root t loop k u → k + 4 ≤ s.limit ∧
        ∀ p after, s.run host (.block p (before ++ loop :: after)) =
          Prod.map id Action.leave (Action.inOrder host (.bool false) after u)) ∧
    (∀ p q test body k, let cond := Expr.block q [test]
      cond.Straight → body.Straight →
      (s.depth + 1) + k + max cond.height body.height ≤ s.limit →
      (s.eval host (.loop p cond body) σ).1.Exhausted → Lasts host σ s (.loop p cond body) k) ∧
    (∀ p q first test update body k, let loop := Expr.loop p (.block q [first, test, update]) body
      (∀ e ∈ [first, test, update, body], e.Straight) →
      (s.depth + 1) + k + 1 + Expr.heightItems [first, test, update, body] ≤ s.limit →
      (s.eval host loop σ).1.Exhausted → Lasts host σ s loop k) ∧
    ∀ e : Expr, e.Straight → s.depth + e.height ≤ s.limit → ¬ (s.eval host e σ).1.Exhausted := by
  refine ⟨fun p cond body => ⟨fun v t => eval_loop_ok_iff, fun k t h => h.levels⟩, ?_, ?_, ?_, ?_⟩
  · intro before loop v t k u hbefore h
    exact ⟨(h.run hbefore ⟨1, 1⟩ []).1, fun p after => (h.run hbefore p after).2⟩
  · intro p q test body k cond hcond hbody hlevels hcut
    have hbegins : Begins host σ s (.loop p cond body) ⟨s.depth + 1, σ, cond, [body]⟩ s :=
      .asking p q test body
    refine hbegins.lasts hcut ?_ ?_
    · simpa using ⟨hcond, hbody⟩
    · simp only [List.mem_cons, List.not_mem_nil, or_false]
      rintro x (rfl | rfl) <;> omega
  · intro p q first test update body k loop hstraight hlevels hcut
    have hpart (e : Expr) (he : e ∈ [first, test, update, body]) :
        (s.depth + 2) + k + e.height ≤ s.limit := by
      have hle := Expr.height_le_items he
      omega
    have hfirst := hpart first (by simp)
    obtain ⟨inner, u, hbegins⟩ := exists_counting (hstraight first (by simp)) (by omega) hcut
    have hsub : ∀ x ∈ [test, body, update], x ∈ [first, test, update, body] := by simp
    exact hbegins.lasts hcut (fun x hx => hstraight x (hsub x hx)) fun x hx => hpart x (hsub x hx)
  · intro e he hlevels
    exact (he.fits host σ hlevels s rfl rfl).2.2

/-- With five levels, the program `i = true loop [i] i = false` makes its one pass and ends. With four, the
endless loops `loop [true] false` and `loop [true, true, true] false` make a pass and are going to make the
next when levels run out. -/
theorem loops_cost_levels_endless :
    let here : Span := ⟨1, 1⟩
    let i := Expr.ident here "i"
    let yes := Expr.bool here true
    let no := Expr.bool here false
    let set := Expr.assign here i yes
    let asked := Expr.loop here (.block here [i]) (.assign here i no)
    let endless := Expr.loop here (.block here [yes]) no
    let counted := Expr.loop here (.block here [yes, yes, yes]) no
    let five := Session.new 5
    let four := Session.new 4
    (∃ k v t u, Action.inOrder Host.none (.bool false) [set] five.rested.entered = (.ok v, t) ∧
      Completes Host.none Session.root t asked k u ∧ k + 4 ≤ 5) ∧
    (four.eval Host.none endless Session.root).1.Exhausted ∧ Lasts Host.none Session.root four endless 1 ∧
    (four.eval Host.none counted Session.root).1.Exhausted ∧ Lasts Host.none Session.root four counted 1 ∧
    set.Straight ∧ ¬ (four.eval Host.none set Session.root).1.Exhausted := by
  intro here i yes no set asked endless counted five four
  have hset : set.Straight := by decide +kernel
  have hyes : yes.Straight := by decide +kernel
  have hno : no.Straight := by decide +kernel
  have hcond : (Expr.block here [yes]).Straight := by decide +kernel
  have hendless : (four.eval Host.none endless Session.root).1.Exhausted := by decide +kernel
  have hcounted : (four.eval Host.none counted Session.root).1.Exhausted := by decide +kernel
  obtain ⟨-, -, hasking, hcounting, hfits⟩ := loops_cost_levels Host.none Session.root four
  have hlasts := hasking here here yes no 1 hcond hno (by decide +kernel) hendless
  have hlasts' := hcounting here here yes yes yes no 1 (by simp [hyes, hno]) (by decide +kernel) hcounted
  refine ⟨?_, hendless, hlasts, hcounted, hlasts', hset, hfits set hset (by decide +kernel)⟩
  -- The session behind the assignment is named, and evaluated only in what is asked about it.
  generalize hdone : Action.inOrder Host.none (.bool false) [set] five.rested.entered = done
  have hfirst : done.1.isOk = true := by
    rw [← hdone]
    decide +kernel
  have hloop : (done.2.eval Host.none asked Session.root).1.isOk = true := by
    rw [← hdone]
    decide +kernel
  obtain ⟨r, t⟩ := done
  cases r with
  | error f => cases hfirst
  | ok v =>
    rcases heval : t.eval Host.none asked Session.root with ⟨r, u⟩
    rw [heval] at hloop
    cases r with
    | error f => cases hloop
    | ok w =>
      obtain ⟨k, hk⟩ := (((loops_cost_levels Host.none Session.root t).1 here (.block here [i])
        (.assign here i no)).1 w u |>.mp heval).2
      have hbound := ((loops_cost_levels Host.none Session.root five).2.1 [set] asked v t k u hdone hk).1
      exact ⟨k, v, t, u, rfl, hk, hbound⟩

end StuffScript
