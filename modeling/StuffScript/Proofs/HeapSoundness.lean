import StuffScript.Proofs.Balance
import StuffScript.Proofs.Watching

/-!
# Sessions that hosts can reach are founded

A host starts from a new session and has it do one operation after another, with functions of the host's
own in between. It passes in plain data, its own functions, and values that it has come by: those that an
operation returned or passed to one of its functions, and those that it read from a scope. Its functions
may remember what they are given, and return it or have it called when they are called again, in the same
operation or in a later one. Then nothing ever dangles. Scopes lie in older scopes, and functions that are
stored, returned or passed on refer to scopes that exist and to parts of programs that were evaluated. So
neither an evaluation nor a lookup comes to a scope that does not exist.

The main statement is `reachable_sessions_founded`.
-/

namespace StuffScript

namespace Operation

/-- Carry out an operation and watch it. -/
def watch (s : Session) : Operation → Ending × List Sighting
  | define name v => ((.ok v, s.define name v), [⟨s.define name v, .returns v⟩])
  | run host program =>
    evalWatched host s.limit program Session.root { s with depth := 0, calls := [] }
  | eval host e scope => evalWatched host s.levels e scope s
  | callClosure host f args => closureWatched (evalWatched host s.levels) f args s
  | callNative host f args => nativeWatched host (evalWatched host s.levels) f args s

/-- The values that an operation shows: functions that are called, what is passed to them, and what is
returned. -/
def shown (s : Session) (op : Operation) : List Value := (op.watch s).2.flatMap fun n => n.event.values

/-- The programs that an operation evaluates. -/
def programs : Operation → List Expr
  | run _ program => [program]
  | eval _ e _ => [e]
  | _ => []

/-- The operations that a host can ask for with the values that it has come by. -/
inductive Allowed (s : Session) (held : List Value) : Operation → Prop
  | define (name : String) {v : Value} (hv : v.Given (· ∈ held)) : Allowed s held (.define name v)
  | run {host : Host} (hhost : host.Honest held) (program : Expr) : Allowed s held (.run host program)
  | eval {host : Host} (hhost : host.Honest held) (e : Expr) {σ : ScopeId} (hσ : σ < s.scopes.size) :
    Allowed s held (.eval host e σ)
  | callClosure {host : Host} (hhost : host.Honest held) {f : Closure} (hf : .closure f ∈ held)
    {args : List Value} (hargs : ∀ v ∈ args, v.Given (· ∈ held)) :
    Allowed s held (.callClosure host f args)
  | callNative {host : Host} (hhost : host.Honest held) (f : Native) {args : List Value}
    (hargs : ∀ v ∈ args, v.Given (· ∈ held)) : Allowed s held (.callNative host f args)

end Operation

/-- A session that a host can reach, with the values that it has come by and the programs that were
evaluated on the way. Besides the operations, a host can provide the functions that every program starts
with, make functions of its own and scopes, bind names in scopes and read what they store; and it can look
into what its functions remember, and change that. -/
inductive Session.Reachable : Session → List Value → List Expr → Prop
  | new (requested : Int) : Reachable (Session.new requested) [] []
  | register {s : Session} {held : List Value} {programs : List Expr} (h : s.Reachable held programs) :
    Reachable s.register held programs
  | native {s : Session} {held : List Value} {programs : List Expr} (h : s.Reachable held programs)
    (name : String) (routine : Routine) :
    Reachable { s with nextId := s.nextId + 1 } (.native ⟨s.nextId, name, routine⟩ :: held) programs
  | root {s : Session} {held : List Value} {programs : List Expr} (h : s.Reachable held programs) :
    Reachable { s with scopes := s.scopes.root.2 } held programs
  | extend {s : Session} {held : List Value} {programs : List Expr} (h : s.Reachable held programs)
    {σ : ScopeId} (hσ : σ < s.scopes.size) :
    Reachable { s with scopes := (s.scopes.extend σ).2 } held programs
  | bind {s : Session} {held : List Value} {programs : List Expr} (h : s.Reachable held programs)
    (σ : ScopeId) (name : String) {b : Binding} (hb : ∀ v, b.Carries v → v.Given (· ∈ held)) :
    Reachable { s with scopes := s.scopes.put σ name b } held programs
  | read {s : Session} {held : List Value} {programs : List Expr} (h : s.Reachable held programs)
    {v : Value} (hv : s.scopes.Stores v) : Reachable s (v :: held) programs
  | recollect {s : Session} {held : List Value} {programs : List Expr} (h : s.Reachable held programs)
    {v : Value} (hv : v ∈ s.memory) : Reachable s (v :: held) programs
  | remember {s : Session} {held : List Value} {programs : List Expr} (h : s.Reachable held programs)
    {values : List Value} (hvalues : ∀ v ∈ values, v.Given (· ∈ held)) :
    Reachable { s with memory := values } held programs
  | console {s : Session} {held : List Value} {programs : List Expr} (h : s.Reachable held programs)
    (console : Console) : Reachable { s with console := console } held programs
  | perform {s : Session} {held : List Value} {programs : List Expr} (h : s.Reachable held programs)
    {op : Operation} (hop : op.Allowed s held) :
    Reachable (op.perform s).2 (op.shown s ++ held) (op.programs ++ programs)

namespace Session.Founded

variable {programs : List Expr} {held : List Value} {s : Session}

/-- What a host may come up with is founded if what it has come by is. -/
theorem given (h : s.Founded programs held) {v : Value} (hv : v.Given (· ∈ held)) :
    v.Founded programs s.bounds :=
  hv.founded h.held

/-- A host can come by one more value that is founded. -/
theorem holding (h : s.Founded programs held) {v : Value} (hv : v.Founded programs s.bounds) :
    s.Founded programs (v :: held) :=
  ⟨h.scopes, List.forall_mem_cons.mpr ⟨hv, h.held⟩, h.memory⟩

/-- Binding a name in the root scope to a founded value keeps a session founded. -/
theorem define (h : s.Founded programs held) (name : String) {v : Value}
    (hv : v.Founded programs s.bounds) : (s.define name v).Founded programs held :=
  h.put Session.root name fun _ hu => Binding.carries_assigned.mp hu ▸ hv

/-- Providing a host function keeps a session founded. -/
theorem defineNative (h : s.Founded programs held) (name f : String) (routine : Routine) :
    (s.defineNative name f routine).Founded programs held :=
  h.identify.define name trivial

end Session.Founded

/-- An allowed operation on a founded session ends as it does when it is not watched, and what is seen of
it is founded. -/
theorem Operation.Allowed.reports {s : Session} {held : List Value} {programs : List Expr}
    {op : Operation} (hop : op.Allowed s held) (hs : s.Founded programs held)
    (hroot : Session.root < s.scopes.size) :
    (op.watch s).1 = op.perform s ∧ Watched.Reports (op.programs ++ programs) held s.bounds
      (Value.Founded (op.programs ++ programs)) s (op.watch s) := by
  have hmore := hs.mono (List.subset_append_right op.programs programs)
  have hgiven {args : List Value} (hargs : ∀ v ∈ args, v.Given (· ∈ held)) :
      ∀ v ∈ args, v.Founded (op.programs ++ programs) s.bounds :=
    fun v hv => hmore.given (hargs v hv)
  cases hop with
  | @define name v hv =>
    have hv := hmore.given hv
    have hdefined := hmore.define name hv
    have hbounds : s.bounds = (s.define name v).bounds := by
      simp only [Session.bounds, Session.define, Scopes.assign, Scopes.size_put]
    refine ⟨rfl, hdefined, hbounds.le, fun u hu => ?_, List.forall_mem_singleton.mpr ⟨?_, le_rfl⟩⟩
    · cases hu
      exact ⟨_, hbounds.le, le_rfl, hv.later hbounds.le⟩
    · refine ⟨hdefined, List.forall_mem_singleton.mpr (hv.later hbounds.le), fun e σ h => ?_⟩
      cases h
  | @run host hhost program =>
    have hstart : Session.Founded ([program] ++ programs) held { s with depth := 0, calls := [] } :=
      hmore.congr rfl rfl rfl
    obtain ⟨hsame, hfounded, hgrown, hresult, hseen⟩ := (evalWatched_shows hhost s.limit).1 s.bounds
      program Session.root (Expr.partOf_self List.mem_cons_self) hroot _ hstart le_rfl
    rw [perform, Session.run, Session.eval_eq]
    exact ⟨hsame, hfounded, hgrown, hresult, hseen⟩
  | @eval host hhost e σ hσ =>
    rw [perform, Session.eval_eq]
    exact (evalWatched_shows hhost s.levels).1 s.bounds e σ (Expr.partOf_self List.mem_cons_self) hσ
      s hmore le_rfl
  | callClosure hhost hf hargs =>
    rw [perform, Session.callClosure_eq]
    exact closureWatched_shows (evalWatched_shows hhost s.levels).1 (hmore.held _ hf) (hgiven hargs)
      s hmore le_rfl
  | callNative hhost f hargs =>
    rw [perform, Session.callNative_eq]
    exact nativeWatched_shows (evalWatched_shows hhost s.levels).1 hhost f (hgiven hargs) s hmore le_rfl

/-- After an allowed operation the session is founded, and so is what the host has come by. -/
theorem Operation.Allowed.founded {s : Session} {held : List Value} {programs : List Expr}
    {op : Operation} (hop : op.Allowed s held) (hs : s.Founded programs held)
    (hroot : Session.root < s.scopes.size) :
    (op.perform s).2.Founded (op.programs ++ programs) (op.shown s ++ held) ∧
      Session.root < (op.perform s).2.scopes.size := by
  obtain ⟨hsame, hfounded, hgrown, _, hseen⟩ := hop.reports hs hroot
  rw [← hsame]
  refine ⟨⟨hfounded.scopes, fun v hv => ?_, hfounded.memory⟩, Nat.lt_of_lt_of_le hroot hgrown.1⟩
  rcases List.mem_append.mp hv with hv | hv
  · obtain ⟨n, hn, hv⟩ := List.mem_flatMap.mp hv
    obtain ⟨hn, hsize⟩ := hseen n hn
    exact (hn.values v hv).later hsize
  · exact hfounded.held v hv

/-- Each step of a host leads from a founded session to a founded one. -/
theorem Session.Reachable.founded {s : Session} {held : List Value} {programs : List Expr}
    (h : s.Reachable held programs) :
    s.Founded programs held ∧ Session.root < s.scopes.size := by
  induction h with
  | new requested =>
    have hempty (P : Value → Prop) : (Scopes.root {}).2.Storing P := by
      refine Scopes.Storing.root ⟨fun id sc hsc => ?_, fun v hv => ?_⟩
      · cases hsc
      · obtain ⟨id, sc, hsc, _⟩ := hv
        cases hsc
    exact ⟨⟨hempty _, List.forall_mem_nil _, List.forall_mem_nil _⟩, Nat.one_pos⟩
  | register _ ih =>
    obtain ⟨hs, hroot⟩ := ih
    refine ⟨((hs.defineNative _ _ _).defineNative _ _ _).defineNative _ _ _, ?_⟩
    simpa only [Session.register, Session.defineNative, Session.define, Scopes.assign, Scopes.size_put]
      using hroot
  | native _ name routine ih => exact ⟨ih.1.identify.holding trivial, ih.2⟩
  | root _ ih => exact ⟨ih.1.root, ih.2.trans_le ((Scopes.size_root _).ge.trans' (Nat.le_succ _))⟩
  | extend _ hσ ih =>
    exact ⟨ih.1.extend hσ, ih.2.trans_le ((Scopes.size_extend _ _).ge.trans' (Nat.le_succ _))⟩
  | bind _ σ name hb ih =>
    obtain ⟨hs, hroot⟩ := ih
    exact ⟨hs.put σ name fun v hv => hs.given (hb v hv), hroot.trans_le (Scopes.size_put ..).ge⟩
  | read _ hv ih => exact ⟨ih.1.holding (ih.1.scopes.values _ hv), ih.2⟩
  | recollect _ hv ih => exact ⟨ih.1.holding (ih.1.memory _ hv), ih.2⟩
  | remember _ hvalues ih =>
    exact ⟨⟨ih.1.scopes, ih.1.held, fun v hv => ih.1.given (hvalues v hv)⟩, ih.2⟩
  | console _ _ ih => exact ⟨ih.1.congr rfl rfl rfl, ih.2⟩
  | perform _ hop ih => exact hop.founded ih.1 ih.2

end StuffScript
