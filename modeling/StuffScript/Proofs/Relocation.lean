import StuffScript.Proofs.EarliestError
import StuffScript.Proofs.Heap
import StuffScript.Proofs.ParserLikeness
import StuffScript.Proofs.Simulation

/-!
# Programs laid out differently

Gaps, comments and line ends between tokens decide where tokens stand. Places go from the tokens into the
expressions, and with the bodies of functions into values, bindings and scopes, but evaluation never asks
for them. A value is moved if it is the same but for the places in its body; bindings, scopes and sessions
are moved if the values in them are. Evaluating alike expressions in moved sessions comes to the same, and
leaves moved sessions.

A host function gets closures as arguments, and may have remembered others, and could look at the places
in them, so this is asked of a host: for moved values it does the same. The functions that every program
starts with do.

The main statement is `layout_never_matters`: texts with the same tokens have the same complaint, or
programs that are shown as the same text and whose runs come to the same.
-/

namespace StuffScript

section Values

variable {P : Span → Span → Prop}

/-- The same closure but for the places in its body. -/
structure Closure.Moved (P : Span → Span → Prop) (f g : Closure) : Prop where
  id : f.id = g.id
  params : f.params = g.params
  scope : f.scope = g.scope
  body : f.body.Alike P g.body

/-- The same value but for places. -/
inductive Value.Moved (P : Span → Span → Prop) : Value → Value → Prop
  | plain {v : Value} (h : v.isFunction = false) : Moved P v v
  | native (f : Native) : Moved P (.native f) (.native f)
  | closure {f g : Closure} (h : f.Moved P g) : Moved P (.closure f) (.closure g)

/-- A value has moved to where it stands, if places stay as they are. -/
theorem Value.Moved.refl (hP : ∀ p, P p p) (v : Value) : v.Moved P v := by
  cases v with
  | native f => exact .native f
  | closure f => exact .closure ⟨rfl, rfl, rfl, .refl hP f.body⟩
  | _ => exact .plain rfl

/-- Evaluation treats moved values alike. -/
theorem Value.Moved.alike {v u : Value} (h : v.Moved P u) : v.Alike P u := by
  cases h with
  | plain h => exact .plain h
  | native f => exact .native f f
  | closure h => exact .closure h.body

/-- Operators and host functions read the same in a moved value. -/
theorem Value.Moved.sameReading {v u : Value} (h : v.Moved P u) : v.SameReading u := by
  cases h with
  | plain => exact .same _
  | native => exact .same _
  | closure => exact .functions rfl rfl rfl

/-- Functions are told apart by their identities, not by where their bodies stand. -/
theorem Value.Moved.equals_eq {v v' u u' : Value} (hv : v.Moved P v') (hu : u.Moved P u') :
    v.equals u = v'.equals u' := by
  cases hv with
  | plain hplain =>
    cases hu with
    | closure =>
      cases v with
      | closure => cases hplain
      | _ => rfl
    | _ => rfl
  | native f => cases hu <;> rfl
  | closure hf =>
    cases hu with
    | plain hplain =>
      cases u with
      | closure => cases hplain
      | _ => rfl
    | native => rfl
    | closure hg => simp only [Value.equals, hf.id, hg.id]

/-- The same binding but for places. -/
structure Binding.Moved (P : Span → Span → Prop) (b c : Binding) : Prop where
  value : b.value.Moved P c.value
  stuffed : Option.Rel (Value.Moved P) b.stuffed c.stuffed

/-- The same names in the same order, bound to the same but for places, in the same parent. -/
structure Scope.Moved (P : Span → Span → Prop) (sc sd : Scope) : Prop where
  parent : sc.parent = sd.parent
  bindings : List.Forall₂ (fun x y => x.1 = y.1 ∧ Binding.Moved P x.2 y.2) sc.bindings sd.bindings

/-- A name is bound in both scopes or in neither, to the same but for places. -/
theorem Scope.Moved.find? {sc sd : Scope} (h : sc.Moved P sd) (name : String) :
    Option.Rel (Binding.Moved P) (sc.find? name) (sd.find? name) := by
  obtain ⟨parent, bindings⟩ := sc
  obtain ⟨parent', bindings'⟩ := sd
  have hbindings := h.bindings
  simp only [Scope.find?] at hbindings ⊢
  clear h
  induction hbindings with
  | nil => exact .none
  | @cons entry entry' _ _ hentry _ ih =>
    obtain ⟨n, b⟩ := entry
    obtain ⟨n', b'⟩ := entry'
    obtain ⟨rfl, hb⟩ := hentry
    rw [Scope.lookup_entry, Scope.lookup_entry]
    split
    · exact .some hb
    · exact ih

/-- Binding a name to the same but for places keeps the scopes the same but for places. -/
theorem Scope.Moved.bind {sc sd : Scope} (h : sc.Moved P sd) (name : String) {b c : Binding}
    (hb : b.Moved P c) : (sc.bind name b).Moved P (sd.bind name c) := by
  obtain ⟨parent, bindings⟩ := sc
  obtain ⟨parent', bindings'⟩ := sd
  refine ⟨h.parent, ?_⟩
  have hbindings := h.bindings
  simp only [Scope.bind] at hbindings ⊢
  clear h
  induction hbindings with
  | nil => exact .cons ⟨rfl, hb⟩ .nil
  | @cons entry entry' _ _ hentry hrest ih =>
    obtain ⟨n, old⟩ := entry
    obtain ⟨n', old'⟩ := entry'
    obtain ⟨rfl, hold⟩ := hentry
    simp only [Scope.put]
    split
    · exact .cons ⟨rfl, hb⟩ hrest
    · exact .cons ⟨rfl, hold⟩ ih

end Values

/-- The same scopes but for places. -/
structure Scopes.Moved (P : Span → Span → Prop) (ss ts : Scopes) : Prop where
  size : ss.size = ts.size
  get? : ∀ id, Option.Rel (Scope.Moved P) (ss.get? id) (ts.get? id)

namespace Scopes.Moved

variable {P : Span → Span → Prop} {ss ts : Scopes}

/-- Looking a name up goes through the same scopes. -/
theorem lookup (h : ss.Moved P ts) (id : ScopeId) (name : String) :
    Option.Rel (Binding.Moved P) (ss.lookup id name) (ts.lookup id name) := by
  induction id using Nat.strongRecOn with
  | ind id ih =>
    have hget := h.get? id
    rw [Scopes.lookup, Scopes.lookup]
    generalize ss.get? id = sc? at hget
    generalize ts.get? id = sd? at hget
    cases hget with
    | none => exact .none
    | @some sc sd hsc =>
      have hfind := hsc.find? name
      simp only [hsc.parent]
      generalize sc.find? name = b? at hfind
      generalize sd.find? name = c? at hfind
      cases hfind with
      | some hb => exact .some hb
      | none =>
        cases sd.parent with
        | none => exact .none
        | some p =>
          by_cases hp : p < id
          · simp only [if_pos hp]
            exact ih p hp
          · simp only [if_neg hp]
            exact .none

/-- A name is bound in a scope exactly if it is in the moved one. -/
theorem owns (h : ss.Moved P ts) (id : ScopeId) (name : String) : ss.owns id name = ts.owns id name := by
  have hget := h.get? id
  rw [Scopes.owns, Scopes.owns]
  generalize ss.get? id = sc? at hget
  generalize ts.get? id = sd? at hget
  cases hget with
  | none => rfl
  | @some sc sd hsc =>
    have hfind := hsc.find? name
    simp only [Option.bind_some]
    generalize sc.find? name = b? at hfind
    generalize sd.find? name = c? at hfind
    cases hfind <;> rfl

/-- Writing moved bindings keeps the scopes moved. -/
theorem put (h : ss.Moved P ts) (id : ScopeId) (name : String) {b c : Binding} (hb : b.Moved P c) :
    (ss.put id name b).Moved P (ts.put id name c) := by
  refine ⟨by rw [size_put, size_put, h.size], fun j => ?_⟩
  rw [get?_put, get?_put]
  split
  · have hget := h.get? id
    generalize ss.get? id = sc? at hget
    generalize ts.get? id = sd? at hget
    cases hget with
    | none => exact .none
    | some hsc => exact .some (hsc.bind name hb)
  · exact h.get? j

/-- Assigning moved values keeps the scopes moved. -/
theorem assign (h : ss.Moved P ts) (id : ScopeId) (name : String) {v u : Value} (hv : v.Moved P u) :
    (ss.assign id name v).Moved P (ts.assign id name u) :=
  h.put id name ⟨hv, .none⟩

/-- Opening a scope keeps the scopes moved. -/
theorem extend (h : ss.Moved P ts) (parent : ScopeId) :
    (ss.extend parent).2.Moved P (ts.extend parent).2 := by
  refine ⟨by rw [size_extend, size_extend, h.size], fun j => ?_⟩
  rw [get?_extend, get?_extend, h.size]
  split
  · exact .some ⟨rfl, .nil⟩
  · exact h.get? j

/-- Binding moved arguments keeps the scopes moved. -/
theorem bindParams (h : ss.Moved P ts) (id : ScopeId) (params : List String) {vs us : List Value}
    (hvs : List.Forall₂ (Value.Moved P) vs us) :
    (Action.bindParams ss id params vs).Moved P (Action.bindParams ts id params us) := by
  induction params generalizing ss ts vs us with
  | nil => exact h
  | cons p params ih =>
    cases hvs with
    | nil => exact ih (h.assign id p (.plain rfl)) .nil
    | cons hv hvs => exact ih (h.assign id p hv) hvs

end Scopes.Moved

/-- The same session but for places: everything bound or remembered is moved, and all else is equal, what
was printed included. -/
structure Session.Moved (P : Span → Span → Prop) (s t : Session) : Prop where
  limit : t.limit = s.limit
  depth : t.depth = s.depth
  calls : t.calls = s.calls
  console : t.console = s.console
  nextId : t.nextId = s.nextId
  scopes : s.scopes.Moved P t.scopes
  memory : List.Forall₂ (Value.Moved P) s.memory t.memory

/-- A session is the same as itself. -/
theorem Session.Moved.refl {P : Span → Span → Prop} (hP : ∀ p, P p p) (s : Session) : s.Moved P s := by
  have hbinding (b : Binding) : b.Moved P b := by
    refine ⟨.refl hP b.value, ?_⟩
    cases b.stuffed with
    | none => exact .none
    | some v => exact .some (.refl hP v)
  refine ⟨rfl, rfl, rfl, rfl, rfl, ⟨rfl, fun id => ?_⟩, List.forall₂_same.mpr fun v _ => .refl hP v⟩
  cases s.scopes.get? id with
  | none => exact .none
  | some sc => exact .some ⟨rfl, List.forall₂_same.mpr fun entry _ => ⟨rfl, hbinding entry.2⟩⟩

/-- Moved sessions agree on what calls and levels depend on. -/
theorem Session.Moved.coupling (P : Span → Span → Prop) : Session.Coupling (Session.Moved P) where
  limit h := h.limit
  depth h := h.depth
  calls h := h.calls
  atDepth _ h := { h with depth := rfl }
  inCalls _ h := { h with calls := rfl }

/-- The same conversation, as long as the answers are the same but for places. -/
inductive HostProgram.Moved (P : Span → Span → Prop) : HostProgram → HostProgram → Prop
  | done {r q : Outcome Value} (h : Outcome.Matches (Value.Moved P) r q) : Moved P (.done r) (.done q)
  | write (text : String) {next next' : Option String → HostProgram}
    (h : ∀ reason, Moved P (next reason) (next' reason)) : Moved P (.write text next) (.write text next')
  | invoke {f g : Closure} (hf : f.Moved P g) {vs us : List Value}
    (hvs : List.Forall₂ (Value.Moved P) vs us) {next next' : Outcome Value → HostProgram}
    (h : ∀ r q, Outcome.Matches (Value.Moved P) r q → Moved P (next r) (next' q)) :
    Moved P (.invoke f vs next) (.invoke g us next')
  | nested {inner inner' : HostProgram} (hinner : Moved P inner inner')
    {next next' : Outcome Value → HostProgram}
    (h : ∀ r q, Outcome.Matches (Value.Moved P) r q → Moved P (next r) (next' q)) :
    Moved P (.nested inner next) (.nested inner' next')
  | recollect {next next' : List Value → HostProgram}
    (h : ∀ vs us, List.Forall₂ (Value.Moved P) vs us → Moved P (next vs) (next' us)) :
    Moved P (.recollect next) (.recollect next')
  | remember {vs us : List Value} (hvs : List.Forall₂ (Value.Moved P) vs us) {next next' : HostProgram}
    (h : Moved P next next') : Moved P (.remember vs next) (.remember us next')

/-- A host that does not look at places. -/
def Host.Blind (P : Span → Span → Prop) (host : Host) : Prop :=
  ∀ behaviour name vs us, List.Forall₂ (Value.Moved P) vs us →
    (host behaviour name vs).Moved P (host behaviour name us)

section HostFunctions

variable {P : Span → Span → Prop}

/-- A host without functions of its own looks at no places. -/
theorem Host.none_blind : Host.none.Blind P := fun _ _ _ _ _ => .done (.ok (.plain rfl))

/-- A host function that has nothing called learns of no places. -/
theorem HostProgram.Plain.moved {p : HostProgram} (h : p.Plain) : p.Moved P p := by
  induction h with
  | @done result hplain =>
    cases result with
    | ok v => exact .done (.ok (.plain (hplain v rfl)))
    | error f => exact .done (.error f)
  | write text _ ih => exact .write text ih

/-- Functions that every program starts with do the same for moved arguments. -/
theorem Native.program_moved {host : Host} (hhost : host.Blind P) (f : Native) {vs us : List Value}
    (hvs : List.Forall₂ (Value.Moved P) vs us) :
    (f.program host vs).Moved P (f.program host us) := by
  have hreading : List.Forall₂ Value.SameReading vs us := hvs.imp fun _ _ h => h.sameReading
  obtain ⟨id, name, routine⟩ := f
  cases routine with
  | print =>
    have hplain : (printProgram vs).Plain := Native.program_plain ⟨id, name, .print⟩ vs
    change (printProgram vs).Moved P (printProgram us)
    rw [← printProgram_congr hreading]
    exact hplain.moved
  | exp =>
    change (expProgram vs).Moved P (expProgram us)
    rw [← expProgram_congr hreading]
    exact (HostProgram.ofNumber_plain _).moved
  | fact =>
    change (factProgram vs).Moved P (factProgram us)
    rw [← factProgram_congr hreading]
    exact (HostProgram.ofNumber_plain _).moved
  | host behaviour => exact hhost behaviour name vs us hvs

end HostFunctions

namespace Action

variable {P : Span → Span → Prop}

/-- From sessions that are the same but for places two actions end in the same way, in such sessions. -/
abbrev Moved {α β : Type} (P : Span → Span → Prop) (R : α → β → Prop) (x : Action α) (y : Action β) :
    Prop :=
  Action.Simulates (Session.Moved P) R x y

/-- Failing is the same everywhere. -/
theorem raise_moved {α β : Type} {R : α → β → Prop} (f : Fault) :
    Action.Moved P R (Action.raise f : Action α) (Action.raise f : Action β) :=
  .raise (Session.Moved.coupling P) rfl

/-- A variable has moved values in moved sessions. -/
theorem value_moved (σ : ScopeId) (name : String) :
    Action.Moved P (Value.Moved P) (Action.value σ name) (Action.value σ name) := by
  intro s t h
  have hlookup := h.scopes.lookup σ name
  simp only [Action.value, Scopes.value]
  generalize s.scopes.lookup σ name = b? at hlookup
  generalize t.scopes.lookup σ name = c? at hlookup
  cases hlookup with
  | none => exact raise_moved _ s t h
  | some hb => exact ⟨.ok hb.value, h⟩

/-- The values stuffed on a variable are moved in moved sessions. -/
theorem stuffed_moved (σ : ScopeId) (name : String) :
    Action.Moved P (Value.Moved P) (Action.stuffed σ name) (Action.stuffed σ name) := by
  intro s t h
  have hlookup := h.scopes.lookup σ name
  simp only [Action.stuffed, Scopes.stuffed]
  generalize s.scopes.lookup σ name = b? at hlookup
  generalize t.scopes.lookup σ name = c? at hlookup
  cases hlookup with
  | none => exact raise_moved _ s t h
  | @some b c hb =>
    obtain ⟨v, stuffed⟩ := b
    obtain ⟨u, stuffed'⟩ := c
    cases hb.stuffed with
    | none => exact raise_moved _ s t h
    | some hv => exact ⟨.ok hv, h⟩

/-- Assigning moved values comes to moved values, in moved sessions. -/
theorem assign_moved (σ : ScopeId) (name : String) {v u : Value} (hv : v.Moved P u) :
    Action.Moved P (Value.Moved P) (Action.assign σ name v) (Action.assign σ name u) :=
  fun _ _ h => ⟨.ok hv, { h with scopes := h.scopes.assign σ name hv }⟩

/-- Stuffing moved values comes to moved values, in moved sessions. -/
theorem stuff_moved (σ : ScopeId) (name : String) {v u : Value} (hv : v.Moved P u) :
    Action.Moved P (Value.Moved P) (Action.stuff σ name v) (Action.stuff σ name u) := by
  intro s t h
  have hlookup := h.scopes.lookup σ name
  simp only [Action.stuff, Scopes.stuff]
  generalize s.scopes.lookup σ name = b? at hlookup
  generalize t.scopes.lookup σ name = c? at hlookup
  cases hlookup with
  | none => exact raise_moved _ s t h
  | some hb => exact ⟨.ok hv, { h with scopes := h.scopes.put σ name ⟨hb.value, .some hv⟩ }⟩

/-- The scopes that are opened in moved sessions have the same number. -/
theorem extend_moved (σ : ScopeId) :
    Action.Moved P Eq (Action.extend σ) (Action.extend σ) :=
  fun _ _ h => ⟨.ok h.scopes.size, { h with scopes := h.scopes.extend σ }⟩

/-- Bodies that are alike are closed to functions that are the same but for places. -/
theorem close_moved (params : List String) {body body' : Expr} (hbody : body.Alike P body')
    (σ : ScopeId) :
    Action.Moved P (Value.Moved P) (Action.close params body σ) (Action.close params body' σ) :=
  fun _ _ h => ⟨.ok (.closure ⟨h.nextId.symm, rfl, rfl, hbody⟩),
    { h with nextId := congrArg (· + 1) h.nextId }⟩

/-- Calls of moved closures with moved arguments open scopes with the same number. -/
theorem openCall_moved {f g : Closure} (hf : f.Moved P g) {vs us : List Value}
    (hvs : List.Forall₂ (Value.Moved P) vs us) :
    Action.Moved P Eq (Action.openCall f vs) (Action.openCall g us) := by
  intro s t h
  have hscopes := (h.scopes.extend f.scope).bindParams s.scopes.size f.params hvs
  nth_rewrite 2 [hf.scope, hf.params, h.scopes.size] at hscopes
  exact ⟨.ok h.scopes.size, { h with scopes := hscopes }⟩

/-- Whether the first part of a loop is due does not depend on places. -/
theorem firstPartDue_moved (first : Expr) (isFirst : Bool) (σ : ScopeId) :
    Action.Moved P Eq (Action.firstPartDue first isFirst σ) (Action.firstPartDue first isFirst σ) := by
  intro s t h
  unfold Action.firstPartDue
  split
  · next name _ => exact ⟨.ok (by rw [h.scopes.owns]), h⟩
  · exact ⟨.ok rfl, h⟩

/-- Moved sessions write the same text. -/
theorem write_moved (text : String) : Action.Moved P Eq (Action.write text) (Action.write text) := by
  intro s t h
  simp only [Action.write, h.console]
  split
  · exact ⟨.ok rfl, h⟩
  · exact ⟨.ok rfl, { h with console := rfl }⟩

/-- What is remembered is moved. -/
theorem recollect_moved :
    Action.Moved P (List.Forall₂ (Value.Moved P)) Action.recollect Action.recollect :=
  fun _ _ h => ⟨.ok h.memory, h⟩

/-- Remembering what is moved leaves the same but for places. -/
theorem remember_moved {vs us : List Value} (hvs : List.Forall₂ (Value.Moved P) vs us) :
    Action.Moved P Eq (Action.remember vs) (Action.remember us) :=
  fun _ _ h => ⟨.ok rfl, { h with memory := hvs }⟩

end Action

/-- The same conversation comes to the same if the closures that it has called do. -/
theorem HostProgram.Moved.perform {P : Span → Span → Prop} {p q : HostProgram} (h : p.Moved P q)
    {call call' : Closure → List Value → Action Value}
    (hcall : ∀ f g vs us, f.Moved P g → List.Forall₂ (Value.Moved P) vs us →
      Action.Moved P (Value.Moved P) (call f vs) (call' g us)) :
    Action.Moved P (Value.Moved P) (p.perform call) (q.perform call') := by
  induction h with
  | done h => exact .conclude (Session.Moved.coupling P) h
  | write text _ ih =>
    refine (Action.write_moved text).bind fun reason reason' hreason => ?_
    subst hreason
    exact ih reason
  | invoke hf hvs _ ih => exact (hcall _ _ _ _ hf hvs).attempt.bind ih
  | nested _ _ ihInner ih => exact ihInner.attempt.bind ih
  | recollect _ ih => exact Action.recollect_moved.bind ih
  | remember hvs _ ih => exact (Action.remember_moved hvs).bind fun _ _ _ => ih

/-- Being the same but for places as a correspondence of runs. -/
def relocation (P : Span → Span → Prop) {host : Host} (hhost : host.Blind P) :
    Correspondence Unit host P where
  scope _ σ τ := σ = τ
  value _ := Value.Moved P
  holds w R x y := Action.Moved P (R w) x y
  scope_later _ h := h
  value_later _ h := h
  alike h := h.alike
  plain h := .plain h
  pure h _ _ hst := ⟨.ok h, hst⟩
  bind hx hf := hx.bind fun a b hab => hf () le_rfl a b hab
  deeper h := h.deeper (Session.Moved.coupling P)
  calling name h := h.calling (Session.Moved.coupling P) name
  raise h := .raise (Session.Moved.coupling P) h
  read {_ σ _} name hσ := hσ ▸ Action.value_moved σ name
  assign {_ σ _ _ _} name hσ hv := hσ ▸ Action.assign_moved σ name hv
  stuff {_ σ _ _ _} name hσ hv := hσ ▸ Action.stuff_moved σ name hv
  stuffed {_ σ _} name hσ := hσ ▸ Action.stuffed_moved σ name
  extend {_ σ _} hσ := hσ ▸ Action.extend_moved σ
  close {_ σ _} params _ _ hbody hσ := hσ ▸ Action.close_moved params hbody σ
  openCall hf hvs := by
    cases hf with
    | plain h => cases h
    | closure hf => exact Action.openCall_moved hf hvs
  operate op hv hu :=
    .operate (Session.Moved.coupling P) (fun _ h => .plain h) op (hv.equals_eq hu) hv.sameReading
      hu.sameReading
  firstPartDue {_ σ _} first isFirst hσ := hσ ▸ Action.firstPartDue_moved first isFirst σ
  native {_ f g _ _ _ _} hf hvs hcall := by
    have hfg : f = g := by
      cases hf with
      | plain h => cases h
      | native => rfl
    subst hfg
    exact (f.program_moved hhost hvs).perform fun c d as bs hc has =>
      hcall () le_rfl c d as bs (.closure hc) has

section Runs

variable {P : Span → Span → Prop} {host : Host} (hhost : host.Blind P) {s t : Session}
  (hst : s.Moved P t) {e e' : Expr} (he : e.Alike P e')
include hhost hst he

/-- Evaluating alike expressions comes to the same but for places. -/
theorem eval_moved (σ : ScopeId) :
    Outcome.Matches (Value.Moved P) (s.eval host e σ).1 (t.eval host e' σ).1 ∧
      (s.eval host e σ).2.Moved P (t.eval host e' σ).2 := by
  have hlevels : t.levels = s.levels := by rw [Session.levels, Session.levels, hst.limit, hst.depth]
  have heval : (relocation P hhost).Evaluates (evalIn host s.levels) (evalIn host s.levels) :=
    Correspondence.evalIn (fun _ => Action.Simulates.exhausted (Session.Moved.coupling P)) s.levels
  rw [Session.eval_eq, Session.eval_eq, hlevels]
  exact heval () e e' σ σ he rfl s t hst

/-- Running alike programs in moved sessions comes to the same, and leaves moved sessions. -/
theorem run_moved :
    Outcome.Matches (Value.Moved P) (s.run host e).1 (t.run host e').1 ∧
      (s.run host e).2.Moved P (t.run host e').2 := by
  have hstart : Session.Moved P { s with depth := 0, calls := [] } { t with depth := 0, calls := [] } :=
    { hst with depth := rfl, calls := rfl }
  exact eval_moved hhost hstart he Session.root

end Runs

/-- Layout never matters: source texts with the same tokens are both rejected with the same message but
for the place at its end, or both accepted. Then the programs are shown as the same text, and running them
from sessions that are the same but for places, such as one and the same session, gives the same value or
failure and leaves the same output and bindings, with function bodies compared but for places. -/
theorem layout_never_matters {source source' : String} (h : (Stream.ofString source).error? = none)
    (h' : (Stream.ofString source').error? = none) (htokens : tokensOf source = tokensOf source') :
    (∃ d d', parse source = .error d ∧ parse source' = .error d' ∧ d.kind = d'.kind ∧ ∃ message,
      d.text = message ++ " (" ++ d.position.text ++ ")" ∧
      d'.text = message ++ " (" ++ d'.position.text ++ ")") ∨
    ∃ e e', parse source = .ok e ∧ parse source' = .ok e' ∧ e.Alike Anywhere e' ∧
      e.render = e'.render ∧
      ∀ host : Host, host.Blind Anywhere → ∀ s t : Session, s.Moved Anywhere t →
        Outcome.Matches (Value.Moved Anywhere) (s.run host e).1 (t.run host e').1 ∧
        (s.run host e).2.Moved Anywhere (t.run host e').2 := by
  have hparse := parse_alike h h' htokens
  generalize parse source = result at hparse
  generalize parse source' = result' at hparse
  cases hparse with
  | @error d d' hd =>
    refine .inl ⟨d, d', rfl, rfl, hd.1, d.message, rfl, ?_⟩
    rw [hd.2]
    rfl
  | @ok e e' he =>
    exact .inr ⟨e, e', rfl, rfl, he, he.render_eq, fun host hhost s t hst => run_moved hhost hst he⟩

/-- A function and a call of it, on one line, and on three lines with a comment. -/
theorem layout_never_matters_comment :
    let source := "f = fun [x] x + 1 f(2)"
    let source' := "f=fun[x]\n\tx+1 ~ the next number\n  f ( 2 )"
    (Stream.ofString source).words ≠ (Stream.ofString source').words ∧
    ∃ e e', parse source = .ok e ∧ parse source' = .ok e' ∧ e.render = e'.render ∧
      ∀ s : Session,
        Outcome.Matches (Value.Moved Anywhere) (s.run Host.none e).1 (s.run Host.none e').1 ∧
        (s.run Host.none e).2.Moved Anywhere (s.run Host.none e').2 := by
  intro source source'
  have h : (Stream.ofString source).error? = none := by decide +kernel
  have h' : (Stream.ofString source').error? = none := by decide +kernel
  have htokens : tokensOf source = tokensOf source' := by decide +kernel
  have hleft : (advance [] (tokensOf source)).any (·.all Goal.optional) := by decide +kernel
  have haccepted : Accepted source := accepted_iff.mpr ⟨h, (Option.any_eq_true _ _).mp hleft⟩
  refine ⟨by decide +kernel, ?_⟩
  obtain ⟨d, _, herror, _⟩ | ⟨e, e', he, he', -, hrender, hruns⟩ := layout_never_matters h h' htokens
  · obtain ⟨e, he⟩ := haccepted
    rw [herror] at he
    cases he
  · exact ⟨e, e', he, he', hrender, fun s =>
      hruns Host.none Host.none_blind s s (.refl (fun _ => trivial) s)⟩

end StuffScript
