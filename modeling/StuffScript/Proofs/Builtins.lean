import StuffScript.Proofs.Correspondence

/-!
# Operators and functions that every program starts with

Printing, powers and factorials have nothing called: they write text, and return plain data or fail.
So what they do does not depend on how calls are carried out. Operators give plain data or fail as well.
Of a value all of them learn its text and, if it is a number, which one; only comparisons tell more.
-/

namespace StuffScript

/-- A host function that has nothing called and returns plain data. -/
inductive HostProgram.Plain : HostProgram → Prop
  | done {result : Outcome Value} (h : ∀ v, result = .ok v → v.isFunction = false) :
    Plain (.done result)
  | write (text : String) {next : Option String → HostProgram} (h : ∀ reason, Plain (next reason)) :
    Plain (.write text next)

/-- A host function that computes a number calls nothing. -/
theorem HostProgram.ofNumber_plain (result : Except Fault Float) : (ofNumber result).Plain := by
  cases result with
  | ok n =>
    refine .done fun v hv => ?_
    cases hv
    rfl
  | error f =>
    refine .done fun v hv => ?_
    cases hv

/-- Without routines of the host's own, every host function is plain. -/
theorem Native.program_plain (f : Native) (args : List Value) : (f.program Host.none args).Plain := by
  unfold Native.program
  split
  · refine .write _ fun reason => ?_
    cases reason with
    | none =>
      refine .done fun v hv => ?_
      cases hv
      rfl
    | some reason =>
      refine .done fun v hv => ?_
      cases hv
  · exact HostProgram.ofNumber_plain _
  · exact HostProgram.ofNumber_plain _
  · refine .done fun v hv => ?_
    cases hv
    rfl

/-- Operators give plain data. -/
theorem applyOperator_plain {op : String} {l r v : Value} (h : applyOperator op l r = .ok v) :
    v.isFunction = false := by
  unfold applyOperator at h
  split at h
  · cases h
    rfl
  · split at h
    · cases h
      rfl
    · cases hl : l.number? with
      | error f => simp [hl, Bind.bind, Except.bind] at h
      | ok a =>
        cases hr : r.number? with
        | error f => simp [hl, hr, Bind.bind, Except.bind] at h
        | ok b =>
          simp only [hl, hr, Bind.bind, Except.bind] at h
          repeat' split at h
          all_goals cases h <;> rfl

/-- Translating the faults of a computation goes through its steps. -/
theorem mapError_bind {α β : Type} (x : Except Fault α) (f : α → Except Fault β) :
    (x >>= f).mapError Fault.error =
      x.mapError Fault.error >>= fun a => (f a).mapError Fault.error := by
  cases x <;> rfl

/-- The same number, or the same text of what is no number. -/
inductive Value.SameReading : Value → Value → Prop
  | same (v : Value) : SameReading v v
  | functions {v u : Value} (hv : v.isFunction) (hu : u.isFunction) (h : v.text = u.text) :
    SameReading v u

namespace Value.SameReading

variable {v u : Value}

/-- Values that read the same have the same text. -/
theorem text_eq (h : v.SameReading u) : v.text = u.text := by
  cases h with
  | same => rfl
  | functions _ _ h => exact h

/-- Being asked for a number, functions with the same text give the same error. -/
theorem number?_eq (h : v.SameReading u) :
    v.number?.mapError Fault.error = u.number?.mapError Fault.error := by
  have herror (h : v.text = u.text) : (Fault.wantNumber v).error = (Fault.wantNumber u).error :=
    congrArg (fun text => RuntimeError.mk .type ("Number was expected. Instead got: " ++ text) []) h
  cases h with
  | same => rfl
  | functions hv hu h =>
    cases v <;> cases hv <;> cases u <;> cases hu <;> exact congrArg Except.error (herror h)

end Value.SameReading

/-- Operators give the same data, or the same error, for operands that read and compare alike. -/
theorem applyOperator_congr (op : String) {l l' r r' : Value} (hequals : l.equals r = l'.equals r')
    (hl : l.SameReading l') (hr : r.SameReading r') :
    (applyOperator op l r).mapError Fault.error = (applyOperator op l' r').mapError Fault.error := by
  unfold applyOperator
  rw [hequals]
  split
  · rfl
  · split
    · rfl
    · simp only [mapError_bind, hl.number?_eq, hr.number?_eq]

/-- Faults with the same error end a host function in the same way. -/
theorem HostProgram.ofNumber_congr {r q : Except Fault Float}
    (h : r.mapError Fault.error = q.mapError Fault.error) : ofNumber r = ofNumber q := by
  cases r with
  | ok a =>
    cases q with
    | ok b => rw [Except.ok.inj h]
    | error _ => cases h
  | error f =>
    cases q with
    | ok _ => cases h
    | error g => simp only [ofNumber, Except.error.inj h]

section Arguments

variable {vs us : List Value} (h : List.Forall₂ Value.SameReading vs us)
include h

/-- Arguments at the same index read the same, or both are missing. -/
theorem getElem?_sameReading (index : Nat) : Option.Rel Value.SameReading vs[index]? us[index]? := by
  induction h generalizing index with
  | nil => exact .none
  | cons hvu _ ih =>
    cases index with
    | zero => exact .some hvu
    | succ index => exact ih index

/-- A number is taken from arguments that read the same with the same success. -/
theorem numberArgument_congr (function : String) (index : Nat) :
    (numberArgument function vs index).mapError Fault.error =
      (numberArgument function us index).mapError Fault.error := by
  have hargument := getElem?_sameReading h index
  unfold numberArgument
  generalize vs[index]? = v? at hargument
  generalize us[index]? = u? at hargument
  cases hargument with
  | none => rfl
  | @some v u hvu =>
    have herror : (Fault.badArgument function index v).error =
        (Fault.badArgument function index u).error :=
      congrArg (fun text => RuntimeError.mk .type (function ++ "() expects a number as argument " ++
        Nat.repr (index + 1) ++ ", got " ++ text) []) hvu.text_eq
    cases hvu with
    | same => rfl
    | functions hv hu =>
      cases v <;> cases hv <;> cases u <;> cases hu <;> exact congrArg Except.error herror

/-- Printing depends on how its arguments read. -/
theorem printProgram_congr : printProgram vs = printProgram us := by
  have htext : (vs.head?.getD .undefined).text = (us.head?.getD .undefined).text := by
    cases h with
    | nil => rfl
    | cons hvu _ => exact hvu.text_eq
  simp only [printProgram, htext]

/-- The exponential depends on how its arguments read. -/
theorem expProgram_congr : expProgram vs = expProgram us := by
  refine HostProgram.ofNumber_congr ?_
  simp only [mapError_bind, numberArgument_congr h]

/-- The factorial depends on how its arguments read. -/
theorem factProgram_congr : factProgram vs = factProgram us := by
  refine HostProgram.ofNumber_congr ?_
  simp only [mapError_bind, numberArgument_congr h]

end Arguments

end StuffScript
