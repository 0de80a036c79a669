import StuffScript.Evaluation.Rules
import Mathlib.Data.List.Forall2

/-!
# Expressions alike but for their places

Two expressions are alike when they have the same form throughout, with the same names, operators and
literals, and the places of their nodes are related in a given way. Where places are related only to
themselves this is equality; where any places are related it is equality up to places.

The main statement is `Expr.Alike.render_eq`: what an expression is shown as does not tell its places.
The other questions that evaluation asks of an expression are answered alike too.
-/

namespace StuffScript

/-- The same form throughout, with places related by `P`. -/
inductive Expr.Alike (P : Span → Span → Prop) : Expr → Expr → Prop
  | number {p q : Span} (h : P p q) (lexeme : String) (value : Float) :
    Alike P (.number p lexeme value) (.number q lexeme value)
  | string {p q : Span} (h : P p q) (value : String) : Alike P (.string p value) (.string q value)
  | bool {p q : Span} (h : P p q) (value : Bool) : Alike P (.bool p value) (.bool q value)
  | ident {p q : Span} (h : P p q) (name : String) : Alike P (.ident p name) (.ident q name)
  | assign {p q : Span} (h : P p q) {target target' value value' : Expr}
    (htarget : Alike P target target') (hvalue : Alike P value value') :
    Alike P (.assign p target value) (.assign q target' value')
  | binary {p q : Span} (h : P p q) {left left' right right' : Expr} (op : String)
    (hleft : Alike P left left') (hright : Alike P right right') :
    Alike P (.binary p left op right) (.binary q left' op right')
  | call {p q : Span} (h : P p q) {callee callee' : Expr} {args args' : List Expr}
    (hcallee : Alike P callee callee') (hargs : List.Forall₂ (Alike P) args args') :
    Alike P (.call p callee args) (.call q callee' args')
  | function {p q : Span} (h : P p q) (params : List String) {body body' : Expr}
    (hbody : Alike P body body') : Alike P (.function p params body) (.function q params body')
  | ifThen {p q : Span} (h : P p q) {cond cond' body body' : Expr} (hcond : Alike P cond cond')
    (hbody : Alike P body body') : Alike P (.ifThen p cond body) (.ifThen q cond' body')
  | ifElse {p q : Span} (h : P p q) {cond cond' body body' other other' : Expr}
    (hcond : Alike P cond cond') (hbody : Alike P body body') (hother : Alike P other other') :
    Alike P (.ifElse p cond body other) (.ifElse q cond' body' other')
  | loop {p q : Span} (h : P p q) {cond cond' body body' : Expr} (hcond : Alike P cond cond')
    (hbody : Alike P body body') : Alike P (.loop p cond body) (.loop q cond' body')
  | stuff {p q : Span} (h : P p q) {base base' value value' : Expr} (hbase : Alike P base base')
    (hvalue : Alike P value value') : Alike P (.stuff p base value) (.stuff q base' value')
  | unstuff {p q : Span} (h : P p q) {base base' : Expr} (hbase : Alike P base base') :
    Alike P (.unstuff p base) (.unstuff q base')
  | block {p q : Span} (h : P p q) {items items' : List Expr}
    (hitems : List.Forall₂ (Alike P) items items') : Alike P (.block p items) (.block q items')

/-- What holds of an expression if it holds of its direct parts holds of all expressions. -/
theorem Expr.induction_on_children {motive : Expr → Prop}
    (step : ∀ e : Expr, (∀ c ∈ e.children, motive c) → motive e) (e : Expr) : motive e := by
  have hone {a : Expr} (ha : motive a) : ∀ c ∈ [a], motive c := by
    simpa using ha
  have htwo {a b : Expr} (ha : motive a) (hb : motive b) : ∀ c ∈ [a, b], motive c := by
    simpa using ⟨ha, hb⟩
  have hcons {a : Expr} {es : List Expr} (ha : motive a) (hes : ∀ c ∈ es, motive c) :
      ∀ c ∈ a :: es, motive c := by
    simpa using ⟨ha, hes⟩
  exact @Expr.rec motive (fun es => ∀ c ∈ es, motive c)
    (fun _ _ _ => step _ (by simp [children]))
    (fun _ _ => step _ (by simp [children]))
    (fun _ _ => step _ (by simp [children]))
    (fun _ _ => step _ (by simp [children]))
    (fun _ _ _ htarget hvalue => step _ (htwo htarget hvalue))
    (fun _ _ _ _ hleft hright => step _ (htwo hleft hright))
    (fun _ _ _ hcallee hargs => step _ (hcons hcallee hargs))
    (fun _ _ _ hbody => step _ (hone hbody))
    (fun _ _ _ hcond hbody => step _ (htwo hcond hbody))
    (fun _ _ _ _ hcond hbody hother => step _ (hcons hcond (htwo hbody hother)))
    (fun _ _ _ hcond hbody => step _ (htwo hcond hbody))
    (fun _ _ _ hbase hvalue => step _ (htwo hbase hvalue))
    (fun _ _ hbase => step _ (hone hbase))
    (fun _ _ hitems => step _ hitems)
    (by simp) (fun _ _ => hcons) e

namespace Expr.Alike

variable {P : Span → Span → Prop}

/-- An expression is like itself, if places correspond to themselves. -/
theorem refl (hP : ∀ p, P p p) (e : Expr) : e.Alike P e := by
  induction e using Expr.induction_on_children with
  | step e ih =>
    have hitems (es : List Expr) (h : ∀ c ∈ es, c.Alike P c) : List.Forall₂ (Alike P) es es :=
      List.forall₂_same.mpr h
    cases e with
    | number p lexeme value => exact .number (hP p) lexeme value
    | string p value => exact .string (hP p) value
    | bool p value => exact .bool (hP p) value
    | ident p name => exact .ident (hP p) name
    | assign p target value => exact .assign (hP p) (ih _ (by simp [children])) (ih _ (by simp [children]))
    | binary p left op right =>
      exact .binary (hP p) op (ih _ (by simp [children])) (ih _ (by simp [children]))
    | call p callee args =>
      exact .call (hP p) (ih _ (by simp [children])) (hitems args fun c hc => ih c (by simp [children, hc]))
    | function p params body => exact .function (hP p) params (ih _ (by simp [children]))
    | ifThen p cond body => exact .ifThen (hP p) (ih _ (by simp [children])) (ih _ (by simp [children]))
    | ifElse p cond body other =>
      exact .ifElse (hP p) (ih _ (by simp [children])) (ih _ (by simp [children]))
        (ih _ (by simp [children]))
    | loop p cond body => exact .loop (hP p) (ih _ (by simp [children])) (ih _ (by simp [children]))
    | stuff p base value => exact .stuff (hP p) (ih _ (by simp [children])) (ih _ (by simp [children]))
    | unstuff p base => exact .unstuff (hP p) (ih _ (by simp [children]))
    | block p items => exact .block (hP p) (hitems items ih)

/-- An expression is like itself. -/
theorem self (e : Expr) : e.Alike Eq e := refl (fun _ => rfl) e

/-- Where places are related only to themselves, alike expressions are equal. -/
theorem eq {e e' : Expr} (h : e.Alike Eq e') : e = e' := by
  have hitems {es es' : List Expr} (hes : List.Forall₂ (Alike Eq) es es')
      (ih : ∀ c ∈ es, ∀ c', c.Alike Eq c' → c = c') : es = es' := by
    induction hes with
    | nil => rfl
    | cons hc _ ihes =>
      rw [ih _ (by simp) _ hc, ihes fun c hc => ih c (by simp [hc])]
  induction e using Expr.induction_on_children generalizing e' with
  | step e ih =>
    cases h with
    | number h lexeme value => rw [h]
    | string h value => rw [h]
    | bool h value => rw [h]
    | ident h name => rw [h]
    | assign h htarget hvalue =>
      rw [h, ih _ (by simp [children]) htarget, ih _ (by simp [children]) hvalue]
    | binary h op hleft hright =>
      rw [h, ih _ (by simp [children]) hleft, ih _ (by simp [children]) hright]
    | call h hcallee hargs =>
      rw [h, ih _ (by simp [children]) hcallee,
        hitems hargs fun c hc _ => ih c (by simp [children, hc])]
    | function h params hbody => rw [h, ih _ (by simp [children]) hbody]
    | ifThen h hcond hbody =>
      rw [h, ih _ (by simp [children]) hcond, ih _ (by simp [children]) hbody]
    | ifElse h hcond hbody hother =>
      rw [h, ih _ (by simp [children]) hcond, ih _ (by simp [children]) hbody,
        ih _ (by simp [children]) hother]
    | loop h hcond hbody =>
      rw [h, ih _ (by simp [children]) hcond, ih _ (by simp [children]) hbody]
    | stuff h hbase hvalue =>
      rw [h, ih _ (by simp [children]) hbase, ih _ (by simp [children]) hvalue]
    | unstuff h hbase => rw [h, ih _ (by simp [children]) hbase]
    | block h hitems' => rw [h, hitems hitems' fun c hc _ => ih c hc]

/-- Alike expressions are shown as the same text. -/
theorem render_eq {e e' : Expr} (h : e.Alike P e') : e.render = e'.render := by
  have hitems {es es' : List Expr} (hes : List.Forall₂ (Alike P) es es')
      (ih : ∀ c ∈ es, ∀ c', c.Alike P c' → c.render = c'.render) :
      renderItems es = renderItems es' := by
    induction hes with
    | nil => rfl
    | @cons c c' es es' hc hes ihes =>
      have hrest := ihes fun d hd => ih d (by simp [hd])
      cases hes with
      | nil => simp only [renderItems, ih c (by simp) c' hc]
      | cons => simp only [renderItems, ih c (by simp) c' hc] at hrest ⊢; rw [hrest]
  induction e using Expr.induction_on_children generalizing e' with
  | step e ih =>
    cases h with
    | number => rfl
    | string => rfl
    | bool => rfl
    | ident => rfl
    | assign h htarget hvalue =>
      simp only [render, ih _ (by simp [children]) htarget, ih _ (by simp [children]) hvalue]
    | binary h op hleft hright =>
      simp only [render, ih _ (by simp [children]) hleft, ih _ (by simp [children]) hright]
    | call h hcallee hargs =>
      simp only [render, ih _ (by simp [children]) hcallee,
        hitems hargs fun c hc _ => ih c (by simp [children, hc])]
    | function h params hbody => simp only [render, ih _ (by simp [children]) hbody]
    | ifThen h hcond hbody =>
      simp only [render, ih _ (by simp [children]) hcond, ih _ (by simp [children]) hbody]
    | ifElse h hcond hbody hother =>
      simp only [render, ih _ (by simp [children]) hcond, ih _ (by simp [children]) hbody,
        ih _ (by simp [children]) hother]
    | loop h hcond hbody =>
      simp only [render, ih _ (by simp [children]) hcond, ih _ (by simp [children]) hbody]
    | stuff h hbase hvalue =>
      simp only [render, ih _ (by simp [children]) hbase, ih _ (by simp [children]) hvalue]
    | unstuff h hbase => simp only [render, ih _ (by simp [children]) hbase]
    | block h hitems' => simp only [render, hitems hitems' fun c hc _ => ih c hc]

/-- Alike callees give their calls the same name. -/
theorem calleeName_eq {e e' : Expr} (h : e.Alike P e') : e.calleeName = e'.calleeName := by
  cases h <;> rfl

/-- Alike targets assign the same variable, or none. -/
theorem assigned?_eq {e e' : Expr} (h : e.Alike P e') : e.assigned? = e'.assigned? := by
  cases h with
  | assign _ htarget _ => cases htarget <;> rfl
  | _ => rfl

/-- Alike brackets name the same variable, or none. -/
theorem stuffTarget?_eq {e e' : Expr} (h : e.Alike P e') : e.stuffTarget? = e'.stuffTarget? := by
  cases h with
  | block _ hitems =>
    cases hitems with
    | nil => rfl
    | cons hitem hrest =>
      cases hrest with
      | nil => cases hitem <;> rfl
      | cons => cases hitem <;> rfl
  | _ => rfl

end Expr.Alike

end StuffScript
