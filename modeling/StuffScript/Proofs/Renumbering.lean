import StuffScript.Proofs.Simulation
import StuffScript.Proofs.StoredValues

/-!
# Runs that number new scopes differently

Scopes and function identities are numbered in the order they are made. A run that starts where more of
them have been made gives its own ones higher numbers, and that is all the difference it makes: numbers
are only compared with each other, and a renumbering that keeps their order keeps every comparison. A
shift moves the numbers from a bound on by a fixed distance. Two sessions mirror each other under a shift
if one is the other renumbered, as far as it goes, and both have written the same since some point.

The main statement is `callClosure_mirrored`: calls of a closure and of the renumbered closure, from
sessions that mirror each other, end in the same way and in sessions that mirror each other.
-/

namespace StuffScript

/-- Move numbers from a bound on by a distance. -/
def shiftFrom (bound distance n : Nat) : Nat := if n < bound then n else n + distance

/-- Numbers below the bound stay. -/
theorem shiftFrom_of_lt {bound distance n : Nat} (h : n < bound) : shiftFrom bound distance n = n :=
  if_pos h

/-- Numbers from the bound on move by the distance. -/
theorem shiftFrom_of_le {bound distance n : Nat} (h : bound ≤ n) :
    shiftFrom bound distance n = n + distance :=
  if_neg (Nat.not_lt.mpr h)

/-- Shifting keeps the order of numbers. -/
theorem shiftFrom_lt_iff {bound distance m n : Nat} :
    shiftFrom bound distance m < shiftFrom bound distance n ↔ m < n := by
  unfold shiftFrom
  split <;> split <;> omega

/-- Shifting keeps numbers apart. -/
theorem shiftFrom_inj {bound distance m n : Nat} :
    shiftFrom bound distance m = shiftFrom bound distance n ↔ m = n := by
  unfold shiftFrom
  split <;> split <;> omega

/-- A shift of scopes and of identities: from which numbers on, and how far. -/
structure Shift where
  start : Nat × Nat
  distance : Nat × Nat

namespace Shift

variable (ρ : Shift)

/-- The new number of a scope. -/
def scope (σ : ScopeId) : ScopeId := shiftFrom ρ.start.1 ρ.distance.1 σ

/-- The new number of an identity. -/
def id (n : Nat) : Nat := shiftFrom ρ.start.2 ρ.distance.2 n

/-- Scopes below the bound keep their numbers. -/
theorem scope_of_lt {σ : ScopeId} (h : σ < ρ.start.1) : ρ.scope σ = σ := shiftFrom_of_lt h

/-- Scopes from the bound on are renumbered. -/
theorem scope_of_le {σ : ScopeId} (h : ρ.start.1 ≤ σ) : ρ.scope σ = σ + ρ.distance.1 :=
  shiftFrom_of_le h

/-- Different scopes stay different. -/
theorem scope_inj {σ τ : ScopeId} : ρ.scope σ = ρ.scope τ ↔ σ = τ := shiftFrom_inj

/-- Scopes keep their order. -/
theorem scope_lt_iff {σ τ : ScopeId} : ρ.scope σ < ρ.scope τ ↔ σ < τ := shiftFrom_lt_iff

/-- Identities below the bound stay. -/
theorem id_of_lt {n : Nat} (h : n < ρ.start.2) : ρ.id n = n := shiftFrom_of_lt h

/-- Identities from the bound on are renumbered. -/
theorem id_of_le {n : Nat} (h : ρ.start.2 ≤ n) : ρ.id n = n + ρ.distance.2 := shiftFrom_of_le h

/-- Different identities stay different. -/
theorem id_inj {m n : Nat} : ρ.id m = ρ.id n ↔ m = n := shiftFrom_inj

/-- A closure with its identity and its scope renumbered. -/
def closure (f : Closure) : Closure := { f with id := ρ.id f.id, scope := ρ.scope f.scope }

/-- A value renumbered. Host functions keep their identities, since none is made meanwhile. -/
def value : Value → Value
  | .closure f => .closure (ρ.closure f)
  | v => v

/-- A binding renumbered. -/
def binding (b : Binding) : Binding :=
  { value := ρ.value b.value, stuffed := b.stuffed.map ρ.value }

/-- A scope renumbered, with all it binds and the scope it lies in. -/
def contents (sc : Scope) : Scope :=
  { parent := sc.parent.map ρ.scope
    bindings := sc.bindings.map fun entry => (entry.1, ρ.binding entry.2) }

/-- Evaluation treats a value and the renumbered one alike. -/
theorem value_alike (v : Value) : v.Alike Eq (ρ.value v) := by
  cases v with
  | closure f => exact .closure (.self f.body)
  | native f => exact .native f f
  | _ => exact .plain rfl

/-- Plain data has no numbers. -/
theorem value_of_plain {v : Value} (h : v.isFunction = false) : ρ.value v = v := by
  cases v with
  | closure => cases h
  | _ => rfl

/-- The text of a value does not show its number. -/
theorem value_text (v : Value) : (ρ.value v).text = v.text := by
  cases v <;> rfl

/-- Operators and host functions read the same in a renumbered value. -/
theorem value_sameReading (v : Value) : v.SameReading (ρ.value v) := by
  cases v with
  | closure f => exact .functions rfl rfl rfl
  | _ => exact .same _

/-- Values are equal after renumbering if they were before. -/
theorem value_equals (v u : Value) : (ρ.value v).equals (ρ.value u) = v.equals u := by
  have hid (m n : Nat) : (ρ.id m == ρ.id n) = (m == n) := by
    by_cases h : m = n
    · rw [h, beq_self_eq_true, beq_self_eq_true]
    · rw [beq_false_of_ne h, beq_false_of_ne (mt ρ.id_inj.mp h)]
  cases v with
  | closure f =>
    cases u with
    | closure g => exact hid f.id g.id
    | _ => rfl
  | _ => cases u <;> rfl

variable {ρ} {programs : List Expr}

/-- Values that refer to numbers below the bounds only stay as they are. -/
theorem value_of_founded {v : Value} (h : v.Founded programs ρ.start) : ρ.value v = v := by
  cases v with
  | closure f => simp only [value, closure, ρ.id_of_lt h.2.1, ρ.scope_of_lt h.1]
  | _ => rfl

/-- Bindings that refer to numbers below the bounds only stay as they are. -/
theorem binding_of_founded {b : Binding} (h : ∀ v, b.Carries v → v.Founded programs ρ.start) :
    ρ.binding b = b := by
  obtain ⟨v, stuffed⟩ := b
  simp only [binding, value_of_founded (h v (.inl rfl)), Binding.mk.injEq, true_and]
  cases stuffed with
  | none => rfl
  | some u => rw [Option.map_some, value_of_founded (h u (.inr rfl))]

/-- Scopes that refer to numbers below the bounds only stay as they are. -/
theorem contents_of_founded {sc : Scope} (hparent : ∀ p ∈ sc.parent, p < ρ.start.1)
    (hbindings : ∀ entry ∈ sc.bindings, ∀ v, entry.2.Carries v → v.Founded programs ρ.start) :
    ρ.contents sc = sc := by
  obtain ⟨parent, bindings⟩ := sc
  have hp : parent.map ρ.scope = parent := by
    cases parent with
    | none => rfl
    | some p => rw [Option.map_some, ρ.scope_of_lt (hparent p rfl)]
  have hb : bindings.map (fun entry => (entry.1, ρ.binding entry.2)) = bindings := by
    conv_rhs => rw [← List.map_id bindings]
    refine List.map_congr_left fun entry hentry => ?_
    rw [binding_of_founded (hbindings entry hentry)]
    rfl
  simp only [contents, hp, hb]

variable (ρ)

/-- A renumbered scope binds the same names, to what is renumbered. -/
theorem find?_contents (sc : Scope) (name : String) :
    (ρ.contents sc).find? name = (sc.find? name).map ρ.binding := by
  obtain ⟨parent, bindings⟩ := sc
  simp only [contents, Scope.find?]
  induction bindings with
  | nil => rfl
  | cons entry rest ih =>
    obtain ⟨m, b⟩ := entry
    rw [List.map_cons, Scope.lookup_entry, Scope.lookup_entry, ih]
    split <;> rfl

/-- Binding a name comes to the same before and after renumbering. -/
theorem contents_bind (sc : Scope) (name : String) (b : Binding) :
    ρ.contents (sc.bind name b) = (ρ.contents sc).bind name (ρ.binding b) := by
  obtain ⟨parent, bindings⟩ := sc
  simp only [contents, Scope.bind, Scope.mk.injEq, true_and]
  induction bindings with
  | nil => rfl
  | cons entry rest ih =>
    obtain ⟨m, old⟩ := entry
    by_cases h : m = name
    · simp only [List.map_cons, Scope.put, if_pos h]
    · simp only [List.map_cons, Scope.put, if_neg h, ih]

end Shift

/-- Every scope of the first is there in the second with its new number, and the next scope to be made
gets the new number of the next one in the first. -/
structure Scopes.Mirrors (ρ : Shift) (ss ts : Scopes) : Prop where
  start : ρ.start.1 ≤ ss.size
  size : ts.size = ss.size + ρ.distance.1
  get? : ∀ id, ts.get? (ρ.scope id) = (ss.get? id).map ρ.contents

namespace Scopes.Mirrors

variable {ρ : Shift} {ss ts : Scopes}

/-- The number that the next scope gets is renumbered too. -/
theorem size_eq (h : ss.Mirrors ρ ts) : ts.size = ρ.scope ss.size := by
  rw [h.size, ρ.scope_of_le h.start]

/-- Looking a name up goes through corresponding scopes and finds what corresponds. -/
theorem lookup (h : ss.Mirrors ρ ts) (id : ScopeId) (name : String) :
    ts.lookup (ρ.scope id) name = (ss.lookup id name).map ρ.binding := by
  induction id using Nat.strongRecOn with
  | ind id ih =>
    rw [Scopes.lookup, Scopes.lookup, h.get? id]
    cases ss.get? id with
    | none => rfl
    | some sc =>
      simp only [Option.map_some, Shift.find?_contents]
      cases sc.find? name with
      | some b => rfl
      | none =>
        cases hparent : sc.parent with
        | none => simp [Shift.contents, hparent]
        | some p =>
          simp only [Shift.contents, hparent, Option.map_some, Option.map_none]
          by_cases hp : p < id
          · rw [if_pos hp, if_pos (ρ.scope_lt_iff.mpr hp), ih p hp]
          · rw [if_neg hp, if_neg (mt ρ.scope_lt_iff.mp hp)]
            rfl

/-- A name is bound in a scope exactly if it is in the renumbered one. -/
theorem owns (h : ss.Mirrors ρ ts) (id : ScopeId) (name : String) :
    ts.owns (ρ.scope id) name = ss.owns id name := by
  rw [Scopes.owns, Scopes.owns, h.get? id]
  cases ss.get? id with
  | none => rfl
  | some sc =>
    simp only [Option.map_some, Option.bind_some, Shift.find?_contents, Option.isSome_map]

/-- Writing the same binding into a scope and its mirror keeps them mirrors. -/
theorem put (h : ss.Mirrors ρ ts) (id : ScopeId) (name : String) (b : Binding) :
    (ss.put id name b).Mirrors ρ (ts.put (ρ.scope id) name (ρ.binding b)) := by
  refine ⟨?_, ?_, fun j => ?_⟩
  · rw [size_put]
    exact h.start
  · rw [size_put, size_put, h.size]
  · rw [get?_put, get?_put]
    by_cases hj : j = id
    · rw [if_pos hj, if_pos (congrArg ρ.scope hj), h.get? id, Option.map_map, Option.map_map]
      refine congrArg (Option.map · (ss.get? id)) (funext fun sc => ?_)
      exact (ρ.contents_bind sc name b).symm
    · rw [if_neg hj, if_neg (mt ρ.scope_inj.mp hj), h.get? j]

/-- Assigning the same value in a scope and its mirror keeps them mirrors. -/
theorem assign (h : ss.Mirrors ρ ts) (id : ScopeId) (name : String) (v : Value) :
    (ss.assign id name v).Mirrors ρ (ts.assign (ρ.scope id) name (ρ.value v)) :=
  h.put id name { value := v }

/-- Opening a scope within a scope and its mirror keeps them mirrors. -/
theorem extend (h : ss.Mirrors ρ ts) (parent : ScopeId) :
    (ss.extend parent).2.Mirrors ρ (ts.extend (ρ.scope parent)).2 := by
  refine ⟨?_, ?_, fun j => ?_⟩
  · rw [size_extend]
    exact h.start.trans (Nat.le_succ _)
  · rw [size_extend, size_extend, h.size, Nat.add_right_comm]
  · rw [get?_extend, get?_extend, h.size_eq]
    by_cases hj : j = ss.size
    · rw [if_pos hj, if_pos (congrArg ρ.scope hj)]
      rfl
    · rw [if_neg hj, if_neg (mt ρ.scope_inj.mp hj), h.get? j]

/-- Binding the same arguments in a scope and its mirror keeps them mirrors. -/
theorem bindParams (h : ss.Mirrors ρ ts) (id : ScopeId) (params : List String) (args : List Value) :
    (Action.bindParams ss id params args).Mirrors ρ
      (Action.bindParams ts (ρ.scope id) params (args.map ρ.value)) := by
  induction params generalizing ss ts args with
  | nil => exact h
  | cons p params ih =>
    cases args with
    | nil => exact ih (h.assign id p (.bool false)) []
    | cons v args => exact ih (h.assign id p v) args

end Scopes.Mirrors

/-- The second session is the first renumbered, but for scopes that the first does not have. Both have
written the same after the given texts. -/
structure Session.Mirrors (ρ : Shift) (before : String × String) (s t : Session) : Prop where
  limit : t.limit = s.limit
  depth : t.depth = s.depth
  calls : t.calls = s.calls
  fault : t.console.fault = s.console.fault
  written : ∃ text, s.console.written = before.1 ++ text ∧ t.console.written = before.2 ++ text
  scopes : s.scopes.Mirrors ρ t.scopes
  start : ρ.start.2 ≤ s.nextId
  nextId : t.nextId = s.nextId + ρ.distance.2

/-- From sessions that mirror each other two actions end in the same way, in sessions that do. -/
def Action.Mirrored {α β : Type} (ρ : Shift) (before : String × String) (R : α → β → Prop)
    (x : Action α) (y : Action β) : Prop :=
  ∀ s t : Session, s.Mirrors ρ before t →
    Outcome.Matches R (x s).1 (y t).1 ∧ (x s).2.Mirrors ρ before (y t).2

/-- Sessions that mirror each other agree on what calls and levels depend on. -/
theorem Session.Mirrors.coupling (ρ : Shift) (before : String × String) :
    Session.Coupling (Session.Mirrors ρ before) where
  limit h := h.limit
  depth h := h.depth
  calls h := h.calls
  atDepth _ h := { h with depth := rfl }
  inCalls _ h := { h with calls := rfl }

namespace Action

variable {ρ : Shift} {before : String × String}

/-- Failing is the same everywhere. -/
theorem raise_mirrored {α β : Type} {R : α → β → Prop} (f : Fault) :
    Mirrored ρ before R (Action.raise f : Action α) (Action.raise f : Action β) :=
  Simulates.raise (Session.Mirrors.coupling ρ before) rfl

/-- A variable has the renumbered value in the mirror. -/
theorem value_mirrored (σ : ScopeId) (name : String) :
    Mirrored ρ before (fun v u => u = ρ.value v) (Action.value σ name)
      (Action.value (ρ.scope σ) name) := by
  intro s t h
  simp only [Action.value, Scopes.value, h.scopes.lookup σ name]
  cases s.scopes.lookup σ name with
  | none => exact raise_mirrored _ s t h
  | some b => exact ⟨.ok rfl, h⟩

/-- A variable has the renumbered value stuffed on it in the mirror. -/
theorem stuffed_mirrored (σ : ScopeId) (name : String) :
    Mirrored ρ before (fun v u => u = ρ.value v) (Action.stuffed σ name)
      (Action.stuffed (ρ.scope σ) name) := by
  intro s t h
  simp only [Action.stuffed, Scopes.stuffed, h.scopes.lookup σ name]
  cases s.scopes.lookup σ name with
  | none => exact raise_mirrored _ s t h
  | some b =>
    obtain ⟨v, stuffed⟩ := b
    cases stuffed with
    | none => exact raise_mirrored _ s t h
    | some u => exact ⟨.ok rfl, h⟩

/-- An assignment of the renumbered value mirrors the assignment. -/
theorem assign_mirrored (σ : ScopeId) (name : String) (v : Value) :
    Mirrored ρ before (fun v u => u = ρ.value v) (Action.assign σ name v)
      (Action.assign (ρ.scope σ) name (ρ.value v)) :=
  fun _ _ h => ⟨.ok rfl, { h with scopes := h.scopes.assign σ name v }⟩

/-- Stuffing the renumbered value mirrors stuffing. -/
theorem stuff_mirrored (σ : ScopeId) (name : String) (v : Value) :
    Mirrored ρ before (fun v u => u = ρ.value v) (Action.stuff σ name v)
      (Action.stuff (ρ.scope σ) name (ρ.value v)) := by
  intro s t h
  simp only [Action.stuff, Scopes.stuff, h.scopes.lookup σ name]
  cases s.scopes.lookup σ name with
  | none => exact raise_mirrored _ s t h
  | some b =>
    exact ⟨.ok rfl, { h with scopes := h.scopes.put σ name { value := b.value, stuffed := some v } }⟩

/-- The scope opened in the mirror has the renumbered number. -/
theorem extend_mirrored (σ : ScopeId) :
    Mirrored ρ before (fun σ τ => τ = ρ.scope σ) (Action.extend σ) (Action.extend (ρ.scope σ)) :=
  fun _ _ h => ⟨.ok h.scopes.size_eq, { h with scopes := h.scopes.extend σ }⟩

/-- The closure made in the mirror has the renumbered identity and scope. -/
theorem close_mirrored (params : List String) (body : Expr) (σ : ScopeId) :
    Mirrored ρ before (fun v u => u = ρ.value v) (Action.close params body σ)
      (Action.close params body (ρ.scope σ)) := by
  intro s t h
  have hid : t.nextId = ρ.id s.nextId := by rw [h.nextId, ρ.id_of_le h.start]
  refine ⟨.ok ?_, { h with start := h.start.trans (Nat.le_succ _), nextId := ?_ }⟩
  · rw [hid]
    rfl
  · change t.nextId + 1 = s.nextId + 1 + ρ.distance.2
    rw [h.nextId, Nat.add_right_comm]

/-- A call of the renumbered closure opens the renumbered scope. -/
theorem openCall_mirrored (f : Closure) (args : List Value) :
    Mirrored ρ before (fun σ τ => τ = ρ.scope σ) (Action.openCall f args)
      (Action.openCall (ρ.closure f) (args.map ρ.value)) := by
  intro s t h
  have hscopes := (h.scopes.extend f.scope).bindParams s.scopes.size f.params args
  rw [← h.scopes.size_eq] at hscopes
  exact ⟨.ok h.scopes.size_eq, { h with scopes := hscopes }⟩

/-- Whether the first part of a loop is due does not depend on the numbering. -/
theorem firstPartDue_mirrored (first : Expr) (isFirst : Bool) (σ : ScopeId) :
    Mirrored ρ before Eq (Action.firstPartDue first isFirst σ)
      (Action.firstPartDue first isFirst (ρ.scope σ)) := by
  intro s t h
  unfold Action.firstPartDue
  split
  · next name _ => exact ⟨.ok (by rw [h.scopes.owns]), h⟩
  · exact ⟨.ok rfl, h⟩

/-- Both sessions write the same text. -/
theorem write_mirrored (text : String) :
    Mirrored ρ before Eq (Action.write text) (Action.write text) := by
  intro s t h
  simp only [Action.write, h.fault]
  cases s.console.fault with
  | some reason => exact ⟨.ok rfl, h⟩
  | none =>
    obtain ⟨printed, hs, ht⟩ := h.written
    refine ⟨.ok rfl, { h with fault := rfl, written := ⟨printed ++ text, ?_, ?_⟩ }⟩
    · rw [hs, String.append_assoc]
    · rw [ht, String.append_assoc]

end Action

section HostFunctions

variable (ρ : Shift)

/-- Host functions do the same for renumbered arguments. -/
theorem Shift.program_native (f : Native) (args : List Value) :
    f.program Host.none (args.map ρ.value) = f.program Host.none args := by
  have hargs : List.Forall₂ Value.SameReading args (args.map ρ.value) := by
    rw [List.forall₂_map_right_iff, List.forall₂_same]
    exact fun v _ => ρ.value_sameReading v
  obtain ⟨id, name, routine⟩ := f
  cases routine with
  | print => exact (printProgram_congr hargs).symm
  | exp => exact (expProgram_congr hargs).symm
  | fact => exact (factProgram_congr hargs).symm
  | host behaviour => rfl

/-- Plain host functions end in the same way in sessions that mirror each other. -/
theorem HostProgram.Plain.mirrored {before : String × String} {p : HostProgram} (h : p.Plain)
    (call call' : Closure → List Value → Action Value) :
    Action.Mirrored ρ before (fun v u => u = ρ.value v) (p.perform call) (p.perform call') := by
  induction h with
  | @done result hplain =>
    refine Action.Simulates.conclude (Session.Mirrors.coupling ρ before) ?_
    cases result with
    | ok v => exact .ok (ρ.value_of_plain (hplain v rfl)).symm
    | error f => exact .error f
  | @write text next _ ih =>
    refine Action.Simulates.bind (Action.write_mirrored text) fun a b hab => ?_
    subst hab
    exact ih a

end HostFunctions

/-- Lists correspond value by value if one is the other renumbered. -/
theorem Shift.values_eq {ρ : Shift} {vs us : List Value}
    (h : List.Forall₂ (fun v u => u = ρ.value v) vs us) : us = vs.map ρ.value := by
  induction h with
  | nil => rfl
  | cons hvu _ ih => rw [hvu, ih, List.map_cons]

/-- Renumbering as a correspondence of a run with the one from the renumbered session. -/
def renumbering (ρ : Shift) (before : String × String) : Correspondence Unit Host.none Eq where
  scope _ σ τ := τ = ρ.scope σ
  value _ v u := u = ρ.value v
  holds w R x y := Action.Mirrored ρ before (R w) x y
  scope_later _ h := h
  value_later _ h := h
  alike {_ v _} h := h ▸ ρ.value_alike v
  plain h := (ρ.value_of_plain h).symm
  pure h _ _ hst := ⟨.ok h, hst⟩
  bind hx hf := Action.Simulates.bind hx fun a b hab => hf () le_rfl a b hab
  deeper h := Action.Simulates.deeper (Session.Mirrors.coupling ρ before) h
  calling name h := Action.Simulates.calling (Session.Mirrors.coupling ρ before) h name
  raise h := Action.Simulates.raise (Session.Mirrors.coupling ρ before) h
  read {_ σ _} name hσ := hσ ▸ Action.value_mirrored σ name
  assign {_ σ _ v _} name hσ hv := by
    subst hσ hv
    exact Action.assign_mirrored σ name v
  stuff {_ σ _ v _} name hσ hv := by
    subst hσ hv
    exact Action.stuff_mirrored σ name v
  stuffed {_ σ _} name hσ := hσ ▸ Action.stuffed_mirrored σ name
  extend {_ σ _} hσ := hσ ▸ Action.extend_mirrored σ
  close {_ σ _} params body _ hbody hσ := by
    obtain rfl := hbody.eq
    subst hσ
    exact Action.close_mirrored params body σ
  openCall {_ f _ vs _} hf hvs := by
    cases hf
    rw [Shift.values_eq hvs]
    exact Action.openCall_mirrored f vs
  operate {_ v _ u _} op hv hu := by
    subst hv hu
    exact Action.Simulates.operate (Session.Mirrors.coupling ρ before)
      (fun v hv => (ρ.value_of_plain hv).symm) op (ρ.value_equals v u).symm (ρ.value_sameReading v)
      (ρ.value_sameReading u)
  firstPartDue {_ σ _} first isFirst hσ := hσ ▸ Action.firstPartDue_mirrored first isFirst σ
  native {_ f _ vs _ call call'} hf hvs _ := by
    cases hf
    rw [Shift.values_eq hvs, ρ.program_native]
    exact (f.program_plain vs).mirrored ρ call call'

/-- Calls of a closure and of the renumbered closure end in the same way from sessions that mirror each
other, and leave sessions that do. -/
theorem callClosure_mirrored (ρ : Shift) (before : String × String) (levels : Nat) (f : Closure)
    (args : List Value) :
    Action.Mirrored ρ before (fun v u => u = ρ.value v)
      (callClosure (evalIn Host.none levels) f args)
      (callClosure (evalIn Host.none levels) (ρ.closure f) (args.map ρ.value)) := by
  have heval : (renumbering ρ before).Evaluates (evalIn Host.none levels) (evalIn Host.none levels) :=
    Correspondence.evalIn
      (fun _ => Action.Simulates.exhausted (Session.Mirrors.coupling ρ before)) levels
  refine Correspondence.callClosure heval (w := ()) (c := f) rfl ?_
  · rw [List.forall₂_map_right_iff, List.forall₂_same]
    exact fun v _ => rfl

end StuffScript
