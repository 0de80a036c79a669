import StuffScript.Proofs.CallPaths
import StuffScript.Proofs.HeapSoundness
import StuffScript.Proofs.UniqueReading

/-!
# Operators are always known

Applying an operator that is none of the language's fails, with an error of its own. Sources do not lead
there. Parsing joins two sides by operators of its table only, and evaluation has a rule for each of these
but the assignment. A function that is called may come from an earlier program, but it is part of one that
was parsed as well.

What a failure says is a text, so it has to be told apart from what other failures say. Here it matters that
names hold no spaces: the name of what is called and is no function stands at the beginning of its error.

The main statement is `operator_errors_unreachable`.
-/

namespace StuffScript

section Trees

/-- The infix operators, except for the one of assignments. -/
def operations : List String := ["||", "&&", "<", ">", "<=", ">=", "==", "!=", "+", "-", "*", "/", "%"]

/-- They are the infix operators that are no assignment. -/
theorem mem_operations_iff {op : String} : op ∈ operations ↔ op ≠ "=" ∧ (infixPower? op).isSome := by
  constructor
  · have hall : ∀ op ∈ operations, op ≠ "=" ∧ (infixPower? op).isSome := by decide
    exact hall op
  · rintro ⟨hne, hop⟩
    unfold infixPower? at hop
    split at hop <;> simp_all [operations]

/-- An operation has an operator of the language, and a name holds no space. -/
def Expr.Ordinary : Expr → Prop
  | .binary _ _ op _ => op ∈ operations
  | .ident _ name => ' ' ∉ name.toList
  | _ => True

/-- A node with well-shaped tokens is ordinary. -/
theorem Frame.ordinary {e : Expr} {segs : List (List Token)} {ts : List Token} (h : Frame e segs ts)
    (hts : ∀ t ∈ ts, t.Shaped) : e.Ordinary := by
  cases h with
  | @ident t _ ht =>
    have hshaped := hts t (by simp)
    exact hshaped.not_mem (by simp [ht]) (by rw [ht]; rfl)
  | @binary op _ _ _ _ _ hop hne =>
    refine mem_operations_iff.mpr ⟨hne, ?_⟩
    unfold Token.infixPower? at hop
    split at hop
    · exact hop
    · cases hop
  | _ => trivial

/-- All nodes of a tree that parsing gives are ordinary. -/
theorem ordinary_of_parse {source : String} {e : Expr} (h : parse source = .ok e) :
    ∀ x ∈ e.preorder, x.Ordinary :=
  throughout_of_parse Frame.ordinary (fun _ _ => trivial) h

/-- All operations in a tree have operators of the language. -/
def Expr.OperatorsKnown (e : Expr) : Prop :=
  ∀ span left op right, .binary span left op right ∈ e.preorder → op ∈ operations

/-- The programs are ordinary throughout. -/
def AllOrdinary (programs : List Expr) : Prop := ∀ p ∈ programs, ∀ x ∈ p.preorder, x.Ordinary

/-- A part of ordinary programs is ordinary. -/
theorem Expr.PartOf.ordinary {programs : List Expr} (hprograms : AllOrdinary programs) {e : Expr}
    (h : e.PartOf programs) : e.Ordinary := by
  obtain ⟨p, hp, he⟩ := h
  exact hprograms p hp e he

/-- All operations in a part of ordinary programs have operators of the language. -/
theorem Expr.PartOf.operatorsKnown {programs : List Expr} (hprograms : AllOrdinary programs) {e : Expr}
    (h : e.PartOf programs) : e.OperatorsKnown := by
  intro span left op right hop
  obtain ⟨p, hp, he⟩ := h
  exact hprograms p hp _ (Expr.mem_preorder_trans hop he)

end Trees

section Faults

/-- How the message of an error about an operator begins. -/
def operatorError : String := "Error applying operator"

/-- A failure comes down to an error about an operator that cannot be applied. -/
def Failure.BlamesOperator (f : Failure) : Prop :=
  ∃ e, f.cause? = some e ∧ operatorError.toList <+: e.message.toList

/-- Applying an operator that evaluation has no rule for ends in such a failure. -/
theorem Fault.badOperator_blamesOperator (op : String) :
    (Failure.runtime (badOperator op).error).BlamesOperator := by
  refine ⟨_, rfl, ?_⟩
  change operatorError.toList <+: ("Error applying operator: " ++ op).toList
  simp [operatorError]

/-- No operator is blamed, and names that a message begins with hold no space. -/
def Fault.Ordinary : Fault → Prop
  | badOperator _ => False
  | notFunction name _ => ' ' ∉ name.toList
  | missingArgument function _ => ' ' ∉ function.toList
  | badArgument function _ _ => ' ' ∉ function.toList
  | _ => True

/-- A message that begins with another letter is not about an operator. -/
theorem not_operatorError_of_head {message : String} (h : message.toList.head? ≠ some 'E') :
    ¬ operatorError.toList <+: message.toList := by
  rintro ⟨rest, hrest⟩
  rw [← hrest] at h
  exact h rfl

/-- A message with another letter behind its first space is not about an operator. -/
theorem not_operatorError_of_word {message : String} {word : List Char} {c : Char}
    (h : word ++ [' ', c] <+: message.toList) (hword : ' ' ∉ word) (hc : c ≠ 'a') :
    ¬ operatorError.toList <+: message.toList := by
  obtain ⟨more, hmore⟩ := h
  rintro ⟨rest, hrest⟩
  have hbegin : operatorError.toList = "Error".toList ++ ' ' :: 'a' :: "pplying operator".toList := by
    simp [operatorError]
  rw [← hrest, hbegin, List.append_assoc, List.append_assoc] at hmore
  obtain ⟨-, hsecond⟩ := append_cons_injective hword (by simp) hmore
  exact hc (List.cons.inj hsecond).1

/-- The message of an ordinary fault does not begin like one about an operator. -/
theorem Fault.Ordinary.not_operatorError {f : Fault} (h : f.Ordinary) :
    ¬ operatorError.toList <+: f.message.toList := by
  have hparens {function : String} (hfunction : ' ' ∉ function.toList) :
      ' ' ∉ function.toList ++ ['(', ')'] := by
    simpa using hfunction
  -- Unfolding the message by its equations would go through all texts at once.
  cases f with
  | badOperator op => exact h.elim
  | notFunction name got =>
    refine not_operatorError_of_word ?_ h (c := 'i') (by decide)
    delta message
    simp
  | missingArgument function index =>
    refine not_operatorError_of_word ?_ (hparens h) (c := 'e') (by decide)
    delta message
    simp
  | badArgument function index got =>
    refine not_operatorError_of_word ?_ (hparens h) (c := 'e') (by decide)
    delta message
    simp
  | _ =>
    apply not_operatorError_of_head
    delta message
    simp

/-- Noting the calls under way blames no operator. -/
theorem Failure.recordCalls_blamesOperator {f : Failure} {calls : List String}
    (h : (f.recordCalls calls).BlamesOperator) : f.BlamesOperator := by
  unfold recordCalls at h
  split at h
  · exact h
  · next e he =>
    split at h
    · obtain ⟨e', he', hmessage⟩ := h
      cases he'
      exact ⟨e, he, hmessage⟩
    · exact h

/-- An ordinary fault blames no operator. -/
theorem Fault.Ordinary.not_blamesOperator {f : Fault} (h : f.Ordinary) :
    ¬ (Failure.runtime f.error).BlamesOperator := by
  rintro ⟨e, he, hmessage⟩
  cases he
  exact h.not_operatorError hmessage

/-- The calls that are recorded when a fault arises are no part of its message. -/
theorem Fault.Ordinary.failure {f : Fault} (h : f.Ordinary) (s : Session) :
    ¬ (s.failure f).BlamesOperator :=
  fun hblames => h.not_blamesOperator (Failure.recordCalls_blamesOperator hblames)

/-- Faults in the form of an expression are ordinary. -/
theorem Fault.OfForm.ordinary {f : Fault} (h : f.OfForm) : f.Ordinary := by
  cases h <;> trivial

/-- Each operation is carried out for all operands, except that most want numbers, and divisions a divisor
other than zero. -/
theorem applyOperator_fault {op : String} (hop : op ∈ operations) (hand : op ≠ "&&") (hor : op ≠ "||")
    {left right : Value} {fault : Fault} (h : applyOperator op left right = .error fault) :
    (∃ v, fault = .wantNumber v) ∨ fault = .divisionByZero := by
  have hnumber {v : Value} (hv : v.number? = .error fault) : fault = .wantNumber v := by
    cases v <;> cases hv <;> rfl
  unfold applyOperator at h
  split at h
  · cases h
  · next heq =>
    split at h
    · cases h
    · next hne =>
      cases hl : left.number? with
      | error f =>
        rw [hl] at h
        cases h
        exact .inl ⟨left, hnumber hl⟩
      | ok a =>
        cases hr : right.number? with
        | error f =>
          rw [hl, hr] at h
          cases h
          exact .inl ⟨right, hnumber hr⟩
        | ok b =>
          simp only [hl, hr, Bind.bind, Except.bind] at h
          repeat' split at h
          all_goals cases h
          · exact .inr rfl
          · exact .inr rfl
          · simp_all [operations]

end Faults

section Evaluation

variable (programs : List Expr) (held : List Value)

/-- From founded sessions with at least the given bounds, an action does not fail for an operator. -/
def Action.Clear {α : Type} (w : Nat × Nat) (x : Action α) : Prop :=
  ∀ s : Session, s.Founded programs held → w ≤ s.bounds → ∀ f, (x s).1 = .error f → ¬ f.BlamesOperator

variable {programs held}

namespace Action.Clear

variable {α β : Type} {w : Nat × Nat}

/-- An action that always gives a value blames no operator. -/
theorem of_ok {x : Action α} (h : ∀ s, ∃ a, (x s).1 = .ok a) : Clear programs held w x := by
  intro s _ _ f hf
  obtain ⟨a, ha⟩ := h s
  rw [ha] at hf
  cases hf

/-- An action that fails with ordinary faults only. -/
theorem of_fault {x : Action α} (h : ∀ s f, (x s).1 = .error f → ∃ fault : Fault, fault.Ordinary ∧
    s.failure fault = f) : Clear programs held w x := by
  intro s _ _ f hf
  obtain ⟨fault, hfault, rfl⟩ := h s f hf
  exact hfault.failure s

/-- Raising an ordinary fault blames no operator. -/
theorem raise {fault : Fault} (h : fault.Ordinary) :
    Clear programs held w (Action.raise fault : Action α) :=
  of_fault fun _ _ hf => ⟨fault, h, Except.error.inj hf⟩

/-- Running out of levels blames no operator. -/
theorem exhausted : Clear programs held w Action.exhausted :=
  of_fault fun s _ hf => ⟨.stackExhausted s.limit, trivial, Except.error.inj hf⟩

/-- Reading a variable blames no operator. -/
theorem value (σ : ScopeId) (name : String) : Clear programs held w (Action.value σ name) := by
  refine of_fault fun s f hf => ⟨.undefinedVariable name, trivial, ?_⟩
  unfold Action.value Scopes.value at hf
  cases hlookup : s.scopes.lookup σ name with
  | some b => simp [hlookup] at hf
  | none => simpa [hlookup] using hf

/-- Reading what is stuffed on a variable blames no operator. -/
theorem stuffed (σ : ScopeId) (name : String) : Clear programs held w (Action.stuffed σ name) := by
  refine of_fault fun s f hf => ⟨.undefinedStuff name, trivial, ?_⟩
  unfold Action.stuffed Scopes.stuffed at hf
  cases hlookup : s.scopes.lookup σ name with
  | none => simpa [hlookup] using hf
  | some b =>
    obtain ⟨v, stuffed⟩ := b
    cases stuffed with
    | none => simpa [hlookup] using hf
    | some u => simp [hlookup] at hf

/-- Stuffing a value on a variable blames no operator. -/
theorem stuff (σ : ScopeId) (name : String) (v : Value) :
    Clear programs held w (Action.stuff σ name v) := by
  refine of_fault fun s f hf => ⟨.undefinedVariable name, trivial, ?_⟩
  unfold Action.stuff Scopes.stuff at hf
  cases hlookup : s.scopes.lookup σ name with
  | some b => simp [hlookup] at hf
  | none => simpa [hlookup] using hf

/-- Finding out whether the first part of a loop is due blames no operator. -/
theorem firstPartDue (first : Expr) (isFirst : Bool) (σ : ScopeId) :
    Clear programs held w (Action.firstPartDue first isFirst σ) := by
  refine of_ok fun s => ?_
  unfold Action.firstPartDue
  split
  · exact ⟨_, rfl⟩
  · exact ⟨_, rfl⟩

/-- Writing blames no operator: what the console says is an answer and not a failure. -/
theorem write (text : String) : Clear programs held w (Action.write text) := by
  refine of_ok fun s => ?_
  unfold Action.write
  split
  · exact ⟨_, rfl⟩
  · exact ⟨_, rfl⟩

/-- Applying an operator of the language blames none. -/
theorem operate {op : String} (hop : op ∈ operations) (hand : op ≠ "&&") (hor : op ≠ "||")
    (left right : Value) : Clear programs held w (Action.operate op left right) := by
  refine of_fault fun s f hf => ?_
  unfold Action.operate at hf
  split at hf
  · cases hf
  · next fault hfault =>
    cases hf
    refine ⟨fault, ?_, rfl⟩
    rcases applyOperator_fault hop hand hor hfault with ⟨v, rfl⟩ | rfl
    · trivial
    · trivial

/-- Passing a result on blames an operator only if the result does. -/
theorem conclude {result : Outcome Value} (h : ∀ f, result = .error f → ¬ f.BlamesOperator) :
    Clear programs held w (Action.conclude result) := by
  intro s _ _ f hf hblames
  cases result with
  | ok v => cases hf
  | error g =>
    cases hf
    exact h g rfl (Failure.recordCalls_blamesOperator hblames)

/-- What comes second starts where the first has led to, as far as that is shown. -/
theorem bind {R : Nat × Nat → α → Prop} {x : Action α} {y : Watched α} {f : α → Action β}
    (hx : Clear programs held w x) (hshows : Watched.Shows programs held w R x y)
    (hf : ∀ w', w ≤ w' → ∀ a, R w' a → Clear programs held w' (f a)) :
    Clear programs held w (x >>= f) := by
  intro s hs hw failure hfailure
  obtain ⟨hsame, hfounded, -, hresult, -⟩ := hshows s hs hw
  have hclear := hx s hs hw
  rw [Action.bind_apply] at hfailure
  rw [hsame] at hfounded hresult
  rcases hrun : x s with ⟨r, t⟩
  rw [hrun] at hclear hfailure hfounded hresult
  cases r with
  | error e =>
    cases hfailure
    exact hclear failure rfl
  | ok a =>
    obtain ⟨w', hle, hle', ha⟩ := hresult a rfl
    exact hf w' hle a ha t hfounded hle' failure hfailure

/-- Evaluating a level deeper blames an operator only if the evaluation does. -/
theorem deeper {x : Action α} (hx : Clear programs held w x) :
    Clear programs held w (Action.within Action.enter Action.leave fun _ => x) := by
  intro s hs hw f hf
  by_cases hlt : s.depth < s.limit
  · rw [Action.within_enter_of_lt x hlt] at hf
    exact hx { s with depth := s.depth + 1 } (hs.congr rfl rfl rfl) hw f hf
  · rw [Action.within_enter_of_not_lt x hlt] at hf
    cases hf
    exact Fault.Ordinary.failure (f := .stackExhausted s.limit) trivial s

/-- A call blames an operator only if what it performs does. -/
theorem calling {x : Action α} (name : String) (hx : Clear programs held w x) :
    Clear programs held w (Action.within (Action.pushCall name) Action.popCall fun _ => x) := by
  intro s hs hw f hf
  exact hx { s with calls := name :: s.calls } (hs.congr rfl rfl rfl) hw f hf

end Action.Clear

variable (held) in
/-- Evaluating parts of ordinary programs as a conformance: what is watched does not fail for an operator. -/
def clearing (hprograms : AllOrdinary programs) : Conformance (Nat × Nat) Action Watched where
  expr := Expr.PartOf programs
  scope w σ := σ < w.1
  value := Value.Founded programs
  holds w R x y := Watched.Shows programs held w R x y ∧ Action.Clear programs held w x
  part := @Expr.PartOf.child programs
  body := @Value.Founded.body programs
  scope_later := @ScopeId.within_later
  value_later := @Value.Founded.later programs
  plain := @Value.founded_of_plain programs
  pure h := ⟨.pure h, .of_ok fun _ => ⟨_, rfl⟩⟩
  bind hx hf := ⟨hx.1.bind fun w' hw a ha => (hf w' hw a ha).1,
    hx.2.bind hx.1 fun w' hw a ha => (hf w' hw a ha).2⟩
  raise hf := ⟨Action.raise_shows _, .raise hf.ordinary⟩
  read name _ := ⟨Action.value_shows _ name, .value _ name⟩
  assign name _ hv := ⟨Action.assign_shows _ name hv, .of_ok fun _ => ⟨_, rfl⟩⟩
  stuff name _ hv := ⟨Action.stuff_shows _ name hv, .stuff _ name _⟩
  stuffed name _ := ⟨Action.stuffed_shows _ name, .stuffed _ name⟩
  extend hσ := ⟨Action.extend_shows hσ, .of_ok fun _ => ⟨_, rfl⟩⟩
  close params _ hbody hσ := ⟨Action.close_shows params hbody hσ, .of_ok fun _ => ⟨_, rfl⟩⟩
  openCall hf hargs := ⟨Action.openCall_shows hf hargs, .of_ok fun _ => ⟨_, rfl⟩⟩
  operate he hand hor _ _ := ⟨Action.operate_shows _ _ _, .operate (he.ordinary hprograms) hand hor _ _⟩
  firstPartDue first isFirst _ := ⟨Action.firstPartDue_shows first isFirst _, .firstPartDue first isFirst _⟩

/-- Asking for a number before going on adds faults about arguments only. -/
theorem numberArgument_bind_fault {function : String} (hfunction : ' ' ∉ function.toList)
    {args : List Value} {index : Nat} {next : Float → Except Fault Float}
    (hnext : ∀ n fault, next n = .error fault → fault.Ordinary) {fault : Fault}
    (h : numberArgument function args index >>= next = .error fault) : fault.Ordinary := by
  unfold numberArgument at h
  split at h
  · cases h
    exact hfunction
  · next n _ => exact hnext n fault h
  · cases h
    exact hfunction

/-- A host function that computes a number blames no operator, if its faults do not. -/
theorem HostProgram.ofNumber_clear {w : Nat × Nat} {result : Except Fault Float}
    (h : ∀ fault, result = .error fault → fault.Ordinary) (call : Closure → List Value → Action Value) :
    Action.Clear programs held w ((ofNumber result).perform call) := by
  cases result with
  | ok n => exact .of_ok fun _ => ⟨_, rfl⟩
  | error fault =>
    refine .conclude fun f hf => ?_
    cases hf
    exact (h fault rfl).not_blamesOperator

/-- The functions that every program starts with do not blame operators. -/
theorem Native.program_clear {w : Nat × Nat} (f : Native) (args : List Value)
    (call : Closure → List Value → Action Value) :
    Action.Clear programs held w ((f.program Host.none args).perform call) := by
  have hexp : ' ' ∉ "exp".toList := by decide
  have hfact : ' ' ∉ "fact".toList := by decide
  unfold Native.program
  split
  · refine Action.Clear.bind (.write _) (Action.write_shows _) fun w' _ reason _ => ?_
    cases reason with
    | none => exact .of_ok fun _ => ⟨_, rfl⟩
    | some reason =>
      refine .conclude fun f hf => ?_
      cases hf
      rintro ⟨e, he, -⟩
      cases he
  · refine HostProgram.ofNumber_clear (fun _ => ?_) call
    refine numberArgument_bind_fault hexp fun base _ => ?_
    refine numberArgument_bind_fault hexp fun exponent _ h => ?_
    cases h
  · refine HostProgram.ofNumber_clear (fun _ => ?_) call
    refine numberArgument_bind_fault hfact fun bound _ h => ?_
    cases h
  · exact .of_ok fun _ => ⟨_, rfl⟩

/-- What stands in front of the message about what is no function. -/
theorem Expr.Ordinary.calleeName {e : Expr} (h : e.Ordinary) : ' ' ∉ e.calleeName.toList := by
  cases e with
  | ident span name => exact h
  | _ => exact (by decide : ' ' ∉ "<anonymous>".toList)

variable (hprograms : AllOrdinary programs)
include hprograms

/-- Calls blame no operator, if the evaluation of bodies does not. -/
theorem clearing_calls {eval : Expr → ScopeId → Action Value} {eval' : Expr → ScopeId → Watched Value}
    (heval : (clearing held hprograms).Evaluates eval eval') :
    (clearing held hprograms).Calls (callValue Host.none eval) (callWatched Host.none eval') := by
  intro w callee v args hcallee hv hargs
  have hwatched : (watching programs held).Evaluates eval eval' :=
    fun w' e σ he hσ => (heval w' e σ he hσ).1
  refine ⟨callWatched_shows hwatched (Host.none_honest held) w callee v args hcallee hv hargs, ?_⟩
  have hname : ' ' ∉ callee.calleeName.toList := (hcallee.ordinary hprograms).calleeName
  cases v with
  | closure f => exact (Conformance.callClosure heval hv hargs).2.calling _
  | native f => exact (f.program_clear args _).calling _
  | undefined => exact .raise hname
  | number n => exact .raise hname
  | string text => exact .raise hname
  | bool b => exact .raise hname

/-- Evaluating with any number of levels left blames no operator. -/
theorem evalIn_roundIn_clear (levels : Nat) :
    (clearing held hprograms).Evaluates (evalIn Host.none levels) (evalWatched Host.none levels) ∧
      (clearing held hprograms).Repeats (roundIn Host.none levels) (roundWatched Host.none levels) := by
  have hshows (levels : Nat) :
      (watching programs held).Evaluates (evalIn Host.none levels) (evalWatched Host.none levels) ∧
        (watching programs held).Repeats (roundIn Host.none levels) (roundWatched Host.none levels) :=
    evalWatched_shows (Host.none_honest held) levels
  refine Conformance.of_levels (fun _ => clearing_calls hprograms) ?_ ?_ ?_ ?_ levels
  · intro w e σ he hσ
    refine ⟨(hshows 0).1 w e σ he hσ, ?_⟩
    rw [evalIn_zero]
    exact .exhausted
  · intro w first test update body isFirst σ hfirst htest hupdate hbody hσ
    refine ⟨(hshows 0).2 w first test update body isFirst σ hfirst htest hupdate hbody hσ, ?_⟩
    rw [roundIn_zero]
    exact .exhausted
  · intro levels w e σ he hσ hstep
    refine ⟨(hshows (levels + 1)).1 w e σ he hσ, ?_⟩
    rw [evalIn, ← evalStepCalling_callValue]
    exact hstep.2.deeper
  · intro levels w first test update body isFirst σ hfirst htest hupdate hbody hσ hstep
    refine ⟨(hshows (levels + 1)).2 w first test update body isFirst σ hfirst htest hupdate hbody hσ, ?_⟩
    rw [roundIn]
    exact hstep.2.deeper

omit hprograms in
/-- Running an ordinary program does not fail for an operator, where functions come from ordinary ones. -/
theorem Session.Founded.run_clear {s : Session} {program : Expr} (hs : s.Founded programs held)
    (hroot : Session.root < s.scopes.size) (hordinary : AllOrdinary (program :: programs)) {f : Failure}
    (hf : (s.run Host.none program).1 = .error f) : ¬ f.BlamesOperator := by
  have hstart : Session.Founded (program :: programs) held { s with depth := 0, calls := [] } :=
    (hs.mono (List.subset_cons_self ..)).congr rfl rfl rfl
  rw [Session.run, Session.eval_eq] at hf
  exact ((evalIn_roundIn_clear hordinary s.limit).1 s.bounds program Session.root
    (Expr.partOf_self List.mem_cons_self) hroot).2 _ hstart le_rfl f hf

end Evaluation

section Sequences

/-- A host can run some programs one after another. -/
theorem Session.Reachable.after_runs {s : Session} {held : List Value} {programs : List Expr}
    (h : s.Reachable held programs) (more : List Expr) :
    ∃ held' programs', (s.after (more.map (.run Host.none))).Reachable held' programs' ∧
      ∀ p ∈ programs', p ∈ programs ∨ p ∈ more := by
  induction more generalizing s held programs with
  | nil => exact ⟨held, programs, h, fun p hp => .inl hp⟩
  | cons program more ih =>
    have hrun : (Operation.run Host.none program).Allowed s held := .run (Host.none_honest held) program
    obtain ⟨held', programs', hreachable, hprograms'⟩ := ih (h.perform hrun)
    refine ⟨held', programs', hreachable, fun p hp => ?_⟩
    rcases hprograms' p hp with hbefore | hlater
    · rcases List.mem_append.mp hbefore with hnew | hold
      · exact .inr (List.mem_cons.mpr (.inl (List.mem_singleton.mp hnew)))
      · exact .inl hold
    · exact .inr (List.mem_cons_of_mem _ hlater)

/-- **No operator is ever unknown.** Let a session with the functions that every program starts with run any
programs that were parsed, one after another, however each of them ends. Then all operations in functions
that are stored anywhere have one of the thirteen operators, as have those in every further program; running
that does not fail with an error about an operator. Evaluation has rules of its own for `&&` and `||`, and
applying any of the other operators fails only for operands that are no numbers and for divisions by
zero. -/
theorem operator_errors_unreachable (requested : Int) {programs : List Expr}
    (hparsed : ∀ p ∈ programs, ∃ source, parse source = .ok p) :
    let s := (Session.new requested).register.after (programs.map (.run Host.none))
    (∀ f, s.scopes.Stores (.closure f) → f.body.OperatorsKnown) ∧
    (∀ source program, parse source = .ok program → program.OperatorsKnown ∧
      ∀ f, (s.run Host.none program).1 = .error f → ¬ f.BlamesOperator) ∧
    ∀ op ∈ operations, op = "&&" ∨ op = "||" ∨
      ∀ left right fault, applyOperator op left right = .error fault →
        (∃ v, fault = .wantNumber v) ∨ fault = .divisionByZero := by
  intro s
  obtain ⟨held, run, hreachable, hrun⟩ := (Session.Reachable.new requested).register.after_runs programs
  obtain ⟨hs, hroot⟩ := hreachable.founded
  have hordinary : AllOrdinary run := by
    intro p hp
    obtain ⟨source, hsource⟩ := hparsed p ((hrun p hp).resolve_left (List.not_mem_nil))
    exact ordinary_of_parse hsource
  refine ⟨fun f hf => ?_, fun source program hprogram => ?_, fun op hop => ?_⟩
  · exact (hs.scopes.values _ hf).body.operatorsKnown hordinary
  · have hnext := ordinary_of_parse hprogram
    refine ⟨fun span left op right hop => hnext _ hop, fun f hf => ?_⟩
    exact hs.run_clear hroot (List.forall_mem_cons.mpr ⟨hnext, hordinary⟩) hf
  · by_cases hand : op = "&&"
    · exact .inl hand
    · by_cases hor : op = "||"
      · exact .inr (.inl hor)
      · exact .inr (.inr fun left right fault => applyOperator_fault hop hand hor)

/-- A function that one program makes and the next one calls. It asks for a number that is none. -/
theorem operator_errors_unreachable_remainder :
    let name : Expr := .ident ⟨1, 1⟩ "f"
    let body : Expr := .binary ⟨1, 8⟩ (.ident ⟨1, 8⟩ "f") "%" (.ident ⟨1, 10⟩ "f")
    let made : Expr := .block ⟨1, 1⟩ [.assign ⟨1, 1⟩ name (.function ⟨1, 3⟩ [] body)]
    let called : Expr := .block ⟨1, 1⟩ [.call ⟨1, 1⟩ name []]
    let s := (Session.new 10).register.after [.run Host.none made]
    parse "f=fun[]f%f" = .ok made ∧ parse "f()" = .ok called ∧
    s.scopes.Stores (.closure ⟨3, [], body, Session.root⟩) ∧ body.OperatorsKnown ∧
    ∃ f, (s.run Host.none called).1 = .error f ∧ f.hasKind .type ∧ ¬ f.BlamesOperator := by
  have hend : (Stream.ofString "f=fun[]f%f").error? = none := by decide +kernel
  have hwords : (Stream.ofString "f=fun[]f%f").words =
      [⟨.identifier, "f", ⟨1, 1⟩⟩, ⟨.operator, "=", ⟨1, 2⟩⟩, ⟨.keyword, "fun", ⟨1, 3⟩⟩,
        ⟨.punctuation, "[", ⟨1, 6⟩⟩, ⟨.punctuation, "]", ⟨1, 7⟩⟩, ⟨.identifier, "f", ⟨1, 8⟩⟩,
        ⟨.operator, "%", ⟨1, 9⟩⟩, ⟨.identifier, "f", ⟨1, 10⟩⟩] := by decide +kernel
  have hend' : (Stream.ofString "f()").error? = none := by decide +kernel
  have hwords' : (Stream.ofString "f()").words =
      [⟨.identifier, "f", ⟨1, 1⟩⟩, ⟨.punctuation, "(", ⟨1, 2⟩⟩, ⟨.punctuation, ")", ⟨1, 3⟩⟩] := by
    decide +kernel
  intro name body made called s
  have hname {t : Token} {rest : List Token} (ht : t.kind = .identifier)
      (hrest : Stops (·.isPunctuation "(") rest) :
      Reads GroupsByPower (.part (.ident t.position t.lexeme)) (t :: rest) rest :=
    .part (.ident _ ht) (.callsEnd _ hrest)
  have hbody : Reads GroupsByPower (.expr body)
      [⟨.identifier, "f", ⟨1, 8⟩⟩, ⟨.operator, "%", ⟨1, 9⟩⟩, ⟨.identifier, "f", ⟨1, 10⟩⟩] [] := by
    have hclimbs : Climbs 0 (.ident ⟨1, 8⟩ "f")
        ((⟨.operator, "%", ⟨1, 9⟩⟩, .ident ⟨1, 10⟩ "f") :: ([] ++ [])) body :=
      .step rfl (by decide) (.stop _ _) (.nil _) (.stop 0 _)
    exact .expr (hname rfl (.cons rfl _)) (.operator rfl (hname rfl (.nil _)) (.chainEnd _)) (.nil _)
      ⟨hclimbs.groups, hclimbs⟩
  have hmade : parse "f=fun[]f%f" = .ok made := by
    refine parse_iff.mpr ⟨_, rfl, parseProgram_iff.mpr ⟨hend, ?_⟩⟩
    rw [hwords]
    have hfunction : Reads GroupsByPower (.part (.function ⟨1, 3⟩ [] body))
        [⟨.keyword, "fun", ⟨1, 3⟩⟩, ⟨.punctuation, "[", ⟨1, 6⟩⟩, ⟨.punctuation, "]", ⟨1, 7⟩⟩,
          ⟨.identifier, "f", ⟨1, 8⟩⟩, ⟨.operator, "%", ⟨1, 9⟩⟩, ⟨.identifier, "f", ⟨1, 10⟩⟩] [] :=
      .part (.function rfl rfl (.none _) rfl hbody) (.callsEnd _ (.nil _))
    have hclimbs : Climbs 0 name
        ((⟨.operator, "=", ⟨1, 2⟩⟩, .function ⟨1, 3⟩ [] body) :: ([] ++ []))
        (.assign ⟨1, 1⟩ name (.function ⟨1, 3⟩ [] body)) :=
      .step rfl (by decide) (.stop _ _) (.nil _) (.stop 0 _)
    exact .next (.expr (hname rfl (.cons rfl _)) (.operator rfl hfunction (.chainEnd _)) (.nil _)
      ⟨hclimbs.groups, hclimbs⟩) .programEnd
  have hcalled : parse "f()" = .ok called := by
    refine parse_iff.mpr ⟨_, rfl, parseProgram_iff.mpr ⟨hend', ?_⟩⟩
    rw [hwords']
    apply Reads.next (.expr ?_ (.chainEnd _) (.nil _) ⟨.part _, .stop 0 _⟩) .programEnd
    exact .part (.ident _ rfl) (.call rfl (.noItems _) rfl (.callsEnd _ (.nil _)))
  have hparsed : ∀ p ∈ [made], ∃ source, parse source = .ok p :=
    List.forall_mem_singleton.mpr ⟨_, hmade⟩
  obtain ⟨hstored, hruns, -⟩ := operator_errors_unreachable 10 hparsed
  have hlookup : s.scopes.lookup Session.root "f" =
      some { value := .closure ⟨3, [], body, Session.root⟩ } := by with_unfolding_all rfl
  have hstores := Scopes.stores_of_lookup hlookup (.inl rfl)
  have hfails : (s.run Host.none called).1.toFailure?.any (·.hasKind .type) = true := by decide +kernel
  obtain ⟨f, hfailure, hkind⟩ := (Option.any_eq_true _ _).mp hfails
  have herror := Outcome.eq_error_of_toFailure? hfailure
  exact ⟨hmade, hcalled, hstores, hstored _ hstores, f, herror, hkind, (hruns _ _ hcalled).2 f herror⟩

end Sequences

end StuffScript
