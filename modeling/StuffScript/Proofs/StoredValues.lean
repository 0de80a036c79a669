import StuffScript.Proofs.Heap
import StuffScript.Proofs.Likeness
import Mathlib.Order.Nat

/-!
# What sessions store

Scopes are made in older ones, and they store the values that names are bound to and the values stuffed
on them. Where every scope lies in an older one, going outwards from any scope comes to one that lies in
none. A set that has all the values stored has them still after a name is bound to a value of the set, or
a scope is made; looking names up finds values of the set.

The set that matters is that of founded values. A closure is founded when it refers to a scope that exists,
has an identity that was given out, and its body is a part of a program that was evaluated. The bounds are
the number of scopes and the number of identities; both only grow, so what is founded stays founded. A
session is founded when all that it stores is, and all that the host has come by.
-/

namespace StuffScript

namespace Scope

/-- What a name is found to be bound to is among the bindings. -/
theorem mem_of_find? {sc : Scope} {name : String} {b : Binding} (h : sc.find? name = some b) :
    (name, b) ∈ sc.bindings := by
  obtain ⟨parent, bindings⟩ := sc
  simp only [find?] at h
  induction bindings with
  | nil => cases h
  | cons entry rest ih =>
    obtain ⟨m, old⟩ := entry
    rw [lookup_entry] at h
    split at h
    · next hname =>
      cases h
      rw [hname]
      exact List.mem_cons_self
    · exact List.mem_cons_of_mem _ (ih h)

/-- A binding that is there after a name is bound is the new one or was there before. -/
theorem mem_put {name : String} {b : Binding} {bs : List (String × Binding)}
    {entry : String × Binding} (h : entry ∈ put name b bs) : entry = (name, b) ∨ entry ∈ bs := by
  induction bs with
  | nil => exact Or.inl (List.mem_singleton.mp h)
  | cons old rest ih =>
    obtain ⟨m, x⟩ := old
    rw [put] at h
    split at h
    · rcases List.mem_cons.mp h with heq | hrest
      · exact Or.inl heq
      · exact Or.inr (List.mem_cons_of_mem _ hrest)
    · rcases List.mem_cons.mp h with heq | hrest
      · exact Or.inr (heq ▸ List.mem_cons_self)
      · exact (ih hrest).imp id (List.mem_cons_of_mem _)

end Scope

/-- The value of a binding, or the value stuffed on it. -/
def Binding.Carries (b : Binding) (v : Value) : Prop := v = b.value ∨ b.stuffed = some v

/-- What is assigned carries the value and nothing stuffed. -/
theorem Binding.carries_assigned {v u : Value} : Binding.Carries { value := v } u ↔ u = v :=
  or_iff_left (fun h => by cases h)

namespace Scopes

/-- A value is stored in some scope, as what a name is bound to or as what is stuffed on it. -/
def Stores (ss : Scopes) (v : Value) : Prop :=
  ∃ id sc, ss.get? id = some sc ∧ ∃ entry ∈ sc.bindings, entry.2.Carries v

/-- Going outwards from a scope leads through scopes that exist, each older than the one before, to one
that lies in none. -/
inductive Grounded (ss : Scopes) : ScopeId → Prop
  | root {σ : ScopeId} {sc : Scope} (h : ss.get? σ = some sc) (hparent : sc.parent = none) : Grounded ss σ
  | inside {σ p : ScopeId} {sc : Scope} (h : ss.get? σ = some sc) (hparent : sc.parent = some p)
    (hlt : p < σ) (hp : Grounded ss p) : Grounded ss σ

/-- Every scope lies in an older one, and all values stored are in a set. -/
structure Storing (P : Value → Prop) (ss : Scopes) : Prop where
  older : ∀ id sc, ss.get? id = some sc → ∀ p ∈ sc.parent, p < id
  values : ∀ v, ss.Stores v → P v

/-- Looking a name up finds what is stored. -/
theorem stores_of_lookup {ss : Scopes} {σ : ScopeId} {name : String} {b : Binding}
    (h : ss.lookup σ name = some b) {v : Value} (hv : b.Carries v) : ss.Stores v := by
  induction σ using Nat.strongRecOn with
  | ind σ ih =>
    rw [Scopes.lookup] at h
    split at h
    · cases h
    · next sc hsc =>
      split at h
      · next found hfound =>
        cases h
        exact ⟨σ, sc, hsc, _, Scope.mem_of_find? hfound, hv⟩
      · split at h
        · cases h
        · next p _ =>
          split at h
          · next hp => exact ih p hp h
          · cases h

/-- After a name is bound, a value stored is one of the new binding or was stored before. -/
theorem carries_or_stores_of_put {ss : Scopes} {σ : ScopeId} {name : String} {b : Binding} {v : Value}
    (h : (ss.put σ name b).Stores v) : b.Carries v ∨ ss.Stores v := by
  obtain ⟨id, sc, hsc, entry, hentry, hv⟩ := h
  rw [get?_put] at hsc
  split at hsc
  · next hid =>
    subst hid
    obtain ⟨old, hold, rfl⟩ := Option.map_eq_some_iff.mp hsc
    rcases Scope.mem_put hentry with rfl | hmem
    · exact .inl hv
    · exact .inr ⟨id, old, hold, entry, hmem, hv⟩
  · exact .inr ⟨id, sc, hsc, entry, hentry, hv⟩

/-- Writing a binding moves no scope. -/
theorem parent_of_put {ss : Scopes} {σ id : ScopeId} {name : String} {b : Binding} {sc : Scope}
    (h : (ss.put σ name b).get? id = some sc) : ∃ old, ss.get? id = some old ∧ sc.parent = old.parent := by
  rw [get?_put] at h
  split at h
  · next hid =>
    subst hid
    obtain ⟨old, hold, rfl⟩ := Option.map_eq_some_iff.mp h
    exact ⟨old, hold, rfl⟩
  · exact ⟨sc, h, rfl⟩

namespace Storing

variable {P Q : Value → Prop} {ss : Scopes}

/-- Values in a set are in any wider set. -/
theorem mono (h : ss.Storing P) (hPQ : ∀ v, P v → Q v) : ss.Storing Q :=
  ⟨h.older, fun v hv => hPQ v (h.values v hv)⟩

/-- From every scope there is a way outwards that ends. -/
theorem grounded (h : ss.Storing P) {σ : ScopeId} (hσ : σ < ss.size) : ss.Grounded σ := by
  induction σ using Nat.strongRecOn with
  | ind σ ih =>
    obtain ⟨sc, hsc⟩ := get?_of_lt hσ
    cases hparent : sc.parent with
    | none => exact .root hsc hparent
    | some p =>
      have hlt : p < σ := h.older σ sc hsc p hparent
      exact .inside hsc hparent hlt (ih p hlt (hlt.trans hσ))

/-- What a name stands for is in the set. -/
theorem lookup (h : ss.Storing P) {σ : ScopeId} {name : String} {b : Binding}
    (hb : ss.lookup σ name = some b) {v : Value} (hv : b.Carries v) : P v :=
  h.values v (stores_of_lookup hb hv)

/-- Writing a binding of values in the set keeps all values in it. -/
theorem put (h : ss.Storing P) (σ : ScopeId) (name : String) {b : Binding}
    (hb : ∀ v, b.Carries v → P v) : (ss.put σ name b).Storing P where
  older id sc hsc p hp := by
    obtain ⟨old, hold, hparent⟩ := parent_of_put hsc
    exact h.older id old hold p (hparent ▸ hp)
  values v hv := (carries_or_stores_of_put hv).elim (hb v) (h.values v)

/-- Assigning a value in the set keeps all values in it. -/
theorem assign (h : ss.Storing P) (σ : ScopeId) (name : String) {v : Value} (hv : P v) :
    (ss.assign σ name v).Storing P :=
  h.put σ name fun _ hu => Binding.carries_assigned.mp hu ▸ hv

/-- A scope that is added stores nothing and lies in an older one, if in any. -/
theorem pushed (h : ss.Storing P) {ss' : Scopes} {parent : Option ScopeId}
    (hget : ∀ id, ss'.get? id = if id = ss.size then some { parent := parent } else ss.get? id)
    (hparent : ∀ p ∈ parent, p < ss.size) : ss'.Storing P where
  older id sc hsc p hp := by
    rw [hget] at hsc
    split at hsc
    · next hid =>
      cases hsc
      exact hid ▸ hparent p hp
    · exact h.older id sc hsc p hp
  values v hv := by
    obtain ⟨id, sc, hsc, entry, hentry, hcarries⟩ := hv
    rw [hget] at hsc
    split at hsc
    · cases hsc
      cases hentry
    · exact h.values v ⟨id, sc, hsc, entry, hentry, hcarries⟩

/-- A new outermost scope stores nothing. -/
theorem root (h : ss.Storing P) : ss.root.2.Storing P :=
  h.pushed ss.get?_root fun p hp => by cases hp

/-- A new scope stores nothing, and lies in an older one. -/
theorem extend (h : ss.Storing P) {parent : ScopeId} (hparent : parent < ss.size) :
    (ss.extend parent).2.Storing P := by
  refine h.pushed (ss.get?_extend parent) fun p hp => ?_
  cases hp
  exact hparent

/-- Parameters are bound to arguments, or to `false`. -/
theorem bindParams (h : ss.Storing P) (σ : ScopeId) (params : List String) {args : List Value}
    (hargs : ∀ v ∈ args, P v) (hfalse : P (.bool false)) :
    (Action.bindParams ss σ params args).Storing P ∧
      (Action.bindParams ss σ params args).size = ss.size := by
  induction params generalizing ss args with
  | nil => exact ⟨h, rfl⟩
  | cons name params ih =>
    cases args with
    | nil =>
      obtain ⟨hrest, hsize⟩ := ih (h.assign σ name hfalse) hargs
      exact ⟨hrest, hsize.trans (size_put ..)⟩
    | cons v args =>
      obtain ⟨hv, hargs⟩ := List.forall_mem_cons.mp hargs
      obtain ⟨hrest, hsize⟩ := ih (h.assign σ name hv) hargs
      exact ⟨hrest, hsize.trans (size_put ..)⟩

end Storing

end Scopes

section Parts

/-- The parts of an expression are those of its children, and itself. -/
theorem Expr.mem_preorder_iff {x e : Expr} :
    x ∈ e.preorder ↔ x = e ∨ ∃ c ∈ e.children, x ∈ c.preorder := by
  rw [preorder_eq, List.mem_cons, List.mem_flatMap]

/-- A child of a part is a part. -/
theorem Expr.mem_preorder_of_child {p e c : Expr} (he : e ∈ p.preorder) (hc : c ∈ e.children) :
    c ∈ p.preorder := by
  induction p using Expr.induction_on_children with
  | step p ih =>
    rw [mem_preorder_iff] at he ⊢
    rcases he with rfl | ⟨d, hd, he⟩
    · exact .inr ⟨c, hc, mem_preorder_iff.mpr (.inl rfl)⟩
    · exact .inr ⟨d, hd, ih d hd he⟩

/-- A part of a part is a part. -/
theorem Expr.mem_preorder_trans {x e p : Expr} (hx : x ∈ e.preorder) (he : e ∈ p.preorder) :
    x ∈ p.preorder := by
  induction e using Expr.induction_on_children with
  | step e ih =>
    rcases Expr.mem_preorder_iff.mp hx with rfl | ⟨c, hc, hx⟩
    · exact he
    · exact ih c hc hx (Expr.mem_preorder_of_child he hc)

/-- A part of one of some programs. -/
def Expr.PartOf (programs : List Expr) (e : Expr) : Prop := ∃ p ∈ programs, e ∈ p.preorder

/-- The parts of programs include what they consist of. -/
theorem Expr.PartOf.child {programs : List Expr} {e c : Expr} (h : e.PartOf programs)
    (hc : c ∈ e.children) : c.PartOf programs := by
  obtain ⟨p, hp, he⟩ := h
  exact ⟨p, hp, mem_preorder_of_child he hc⟩

/-- A program is a part of itself. -/
theorem Expr.partOf_self {programs : List Expr} {p : Expr} (h : p ∈ programs) : p.PartOf programs :=
  ⟨p, h, mem_preorder_iff.mpr (.inl rfl)⟩

end Parts

/-- How many scopes and how many identities a session has given out. -/
def Session.bounds (s : Session) : Nat × Nat := (s.scopes.size, s.nextId)

/-- A value is founded if, being a closure, it refers to a scope and has an identity below the bounds, and
its body is a part of one of the programs. -/
def Value.Founded (programs : List Expr) (bounds : Nat × Nat) : Value → Prop
  | .closure f => f.scope < bounds.1 ∧ f.id < bounds.2 ∧ f.body.PartOf programs
  | _ => True

section Founded

variable {programs more : List Expr} {small large : Nat × Nat}

/-- Plain data refers to nothing. -/
theorem Value.founded_of_plain {v : Value} (h : v.isFunction = false) : v.Founded programs small := by
  cases v with
  | closure f => cases h
  | _ => trivial

/-- What is founded stays so where there is more of everything. -/
theorem Value.Founded.mono {v : Value} (h : v.Founded programs small) (hle : small ≤ large)
    (hsub : programs ⊆ more) : v.Founded more large := by
  cases v with
  | closure f =>
    obtain ⟨hscope, hid, p, hp, hbody⟩ := h
    exact ⟨Nat.lt_of_lt_of_le hscope hle.1, Nat.lt_of_lt_of_le hid hle.2, p, hsub hp, hbody⟩
  | _ => trivial

/-- What is founded stays so where there are more scopes and identities. -/
theorem Value.Founded.later {v : Value} (hle : small ≤ large) (h : v.Founded programs small) :
    v.Founded programs large :=
  h.mono hle (List.Subset.refl _)

/-- The body of a founded closure is a part of one of the programs. -/
theorem Value.Founded.body {f : Closure} (h : (Value.closure f).Founded programs small) :
    f.body.PartOf programs :=
  h.2.2

/-- A scope that exists goes on existing. -/
theorem ScopeId.within_later {σ : ScopeId} (hle : small ≤ large) (h : σ < small.1) : σ < large.1 :=
  Nat.lt_of_lt_of_le h hle.1

end Founded

/-- Every scope lies in an older one, and every value stored is founded, as is every value that a host
has come by or that its functions remember. -/
structure Session.Founded (programs : List Expr) (held : List Value) (s : Session) : Prop where
  scopes : s.scopes.Storing (Value.Founded programs s.bounds)
  held : ∀ v ∈ held, v.Founded programs s.bounds
  memory : ∀ v ∈ s.memory, v.Founded programs s.bounds

namespace Session.Founded

variable {programs : List Expr} {held : List Value} {s t : Session}

/-- A session is founded on more programs if it is founded on some of them. -/
theorem mono (h : s.Founded programs held) {more : List Expr} (hsub : programs ⊆ more) :
    s.Founded more held :=
  ⟨h.scopes.mono fun _ hv => hv.mono le_rfl hsub, fun v hv => (h.held v hv).mono le_rfl hsub,
    fun v hv => (h.memory v hv).mono le_rfl hsub⟩

/-- A later session is founded if its scopes are good; what was held and remembered still is. -/
theorem later (h : s.Founded programs held) (hle : s.bounds ≤ t.bounds)
    (hscopes : t.scopes.Storing (Value.Founded programs t.bounds)) (hmemory : t.memory = s.memory) :
    t.Founded programs held :=
  ⟨hscopes, fun v hv => (h.held v hv).later hle, fun v hv => (h.memory v (hmemory ▸ hv)).later hle⟩

/-- Where scopes, identities and memory are the same, nothing else can hurt. -/
theorem congr (h : s.Founded programs held) (hscopes : t.scopes = s.scopes) (hid : t.nextId = s.nextId)
    (hmemory : t.memory = s.memory) : t.Founded programs held := by
  have hbounds : t.bounds = s.bounds := by rw [bounds, bounds, hscopes, hid]
  refine h.later hbounds.ge ?_ hmemory
  rw [hbounds, hscopes]
  exact h.scopes

/-- Binding a name to founded values keeps a session founded. -/
theorem put (h : s.Founded programs held) (σ : ScopeId) (name : String) {b : Binding}
    (hb : ∀ v, b.Carries v → v.Founded programs s.bounds) :
    Session.Founded programs held { s with scopes := s.scopes.put σ name b } := by
  have hbounds : Session.bounds { s with scopes := s.scopes.put σ name b } = s.bounds := by
    simp only [bounds, Scopes.size_put]
  refine h.later hbounds.ge ?_ rfl
  rw [hbounds]
  exact h.scopes.put σ name hb

/-- Giving out an identity keeps a session founded. -/
theorem identify (h : s.Founded programs held) :
    Session.Founded programs held { s with nextId := s.nextId + 1 } := by
  have hle : s.bounds ≤ Session.bounds { s with nextId := s.nextId + 1 } := ⟨le_rfl, Nat.le_succ _⟩
  exact h.later hle (h.scopes.mono fun _ hv => hv.later hle) rfl

/-- Making a scope without a parent keeps a session founded. -/
theorem root (h : s.Founded programs held) :
    Session.Founded programs held { s with scopes := s.scopes.root.2 } := by
  have hle : s.bounds ≤ Session.bounds { s with scopes := s.scopes.root.2 } :=
    ⟨(Scopes.size_root s.scopes).ge.trans' (Nat.le_succ _), le_rfl⟩
  exact h.later hle (h.scopes.root.mono fun _ hv => hv.later hle) rfl

/-- Making a scope in one that exists keeps a session founded. -/
theorem extend (h : s.Founded programs held) {σ : ScopeId} (hσ : σ < s.scopes.size) :
    Session.Founded programs held { s with scopes := (s.scopes.extend σ).2 } := by
  have hle : s.bounds ≤ Session.bounds { s with scopes := (s.scopes.extend σ).2 } :=
    ⟨(Scopes.size_extend s.scopes σ).ge.trans' (Nat.le_succ _), le_rfl⟩
  exact h.later hle ((h.scopes.extend hσ).mono fun _ hv => hv.later hle) rfl

/-- Binding parameters to founded values keeps a session founded, and makes no scope. -/
theorem bindParams (h : s.Founded programs held) (σ : ScopeId) (params : List String)
    {args : List Value} (hargs : ∀ v ∈ args, v.Founded programs s.bounds) :
    Session.Founded programs held { s with scopes := Action.bindParams s.scopes σ params args } ∧
      (Action.bindParams s.scopes σ params args).size = s.scopes.size := by
  obtain ⟨hbound, hsize⟩ := h.scopes.bindParams σ params hargs trivial
  have hbounds : Session.bounds { s with scopes := Action.bindParams s.scopes σ params args } =
      s.bounds := by
    simp only [bounds, hsize]
  refine ⟨h.later hbounds.ge ?_ rfl, hsize⟩
  rw [hbounds]
  exact hbound

end Session.Founded

end StuffScript
