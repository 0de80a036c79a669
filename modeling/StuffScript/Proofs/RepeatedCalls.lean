import StuffScript.Proofs.Frame
import StuffScript.Proofs.HeapSoundness
import StuffScript.Proofs.Renumbering

/-!
# Calling a closure again

A closure has no state of its own. Its body is evaluated in a scope made for the call; what the call
leaves behind are scopes and identities that nothing from before refers to. So a second call with the
same arguments goes the same way, among higher numbers, and a host cannot tell its outcome from that of
the first: it prints the same, fails in the same way, or returns the same data. Where a function is
returned, each call makes its own one, with the same text.

The main statement is `call_repeats`, about every session that a host can reach and every closure and
arguments that it has come by.
-/

namespace StuffScript

/-- The shift that makes room for what one session has more than another. -/
def Session.shiftTo (s t : Session) : Shift :=
  ⟨s.bounds, (t.scopes.size - s.scopes.size, t.nextId - s.nextId)⟩

/-- A session in which an evaluation changed no scope from before mirrors the one before it. -/
theorem Session.Founded.mirrors {programs : List Expr} {held : List Value} {s t : Session}
    (h : s.Founded programs held) (hsettled : s.Settled t)
    (hconfined : s.scopes.Confined (fun id => s.scopes.size ≤ id) t.scopes) :
    s.Mirrors (s.shiftTo t) (s.console.written, t.console.written) t := by
  have hsize : s.scopes.size + (t.scopes.size - s.scopes.size) = t.scopes.size :=
    Nat.add_sub_cancel' hsettled.scopes
  refine ⟨hsettled.limit, hsettled.depth, hsettled.calls, hsettled.fault, ⟨"", ?_, ?_⟩,
    ⟨le_rfl, hsize.symm, fun id => ?_⟩, le_rfl, (Nat.add_sub_cancel' hsettled.nextId).symm⟩
  · exact String.append_empty.symm
  · exact String.append_empty.symm
  · by_cases hid : id < s.scopes.size
    · -- A scope from before is unchanged and keeps its number, and so does all that it refers to.
      rw [(s.shiftTo t).scope_of_lt hid, hconfined.unchanged id hid (Nat.not_le.mpr hid)]
      cases hsc : s.scopes.get? id with
      | none => rfl
      | some sc =>
        rw [Option.map_some, Shift.contents_of_founded]
        · exact fun p hp => (h.scopes.older id sc hsc p hp).trans hid
        · exact fun entry hentry v hv => h.scopes.values v ⟨id, sc, hsc, entry, hentry, hv⟩
    · have hle : s.scopes.size ≤ id := Nat.not_lt.mp hid
      have hbeyond : t.scopes.size ≤ id + (s.shiftTo t).distance.1 :=
        hsize.ge.trans (Nat.add_le_add_right hle _)
      rw [(s.shiftTo t).scope_of_le hle, Scopes.get?_eq_none hle, Scopes.get?_eq_none hbeyond]
      rfl

/-- Outcomes that a host cannot tell apart: the same failure, or results of the same kind with the same
text, which are equal unless they are functions. -/
inductive Outcome.Indistinct : Outcome Value → Outcome Value → Prop
  | ok {v u : Value} (kind : v.kindName = u.kindName) (text : v.text = u.text)
    (plain : v.isFunction = false → v = u) : Indistinct (.ok v) (.ok u)
  | error (f : Failure) : Indistinct (.error f) (.error f)

/-- Renumbering a result makes no difference to a host. -/
theorem Outcome.Matches.indistinct {ρ : Shift} {r q : Outcome Value}
    (h : Outcome.Matches (fun v u => u = ρ.value v) r q) : r.Indistinct q := by
  cases h with
  | @ok v u huv =>
    subst huv
    exact .ok (ρ.value_alike v).kindName_eq (ρ.value_text v).symm fun hv => (ρ.value_of_plain hv).symm
  | error f => exact .error f

/-- Calling a closure twice in a row prints the same twice and has indistinct outcomes. -/
theorem call_repeats {s : Session} {held : List Value} {programs : List Expr}
    (h : s.Reachable held programs) {f : Closure} {args : List Value} (hf : .closure f ∈ held)
    (hargs : ∀ v ∈ args, v.Given (· ∈ held)) :
    let first := s.callClosure Host.none f args
    let second := first.2.callClosure Host.none f args
    first.1.Indistinct second.1 ∧ ∃ printed,
      first.2.console.written = s.console.written ++ printed ∧
      second.2.console.written = first.2.console.written ++ printed := by
  intro first second
  obtain ⟨hs, _⟩ := h.founded
  have hevolves := s.callClosure_evolves Host.none (fun _ hid => hid) f args
  have hsettled : s.Settled first.2 := hevolves.settled
  -- Neither the closure nor the arguments refer to anything that the first call made.
  have hkeep {v : Value} (hv : v.Given (· ∈ held)) : (s.shiftTo first.2).value v = v :=
    Shift.value_of_founded (hs.given hv)
  have hclosure : (s.shiftTo first.2).closure f = f := Value.closure.inj (hkeep (.known hf))
  have hvalues : args.map (s.shiftTo first.2).value = args := by
    conv_rhs => rw [← List.map_id args]
    exact List.map_congr_left fun v hv => hkeep (hargs v hv)
  have hlevels : first.2.levels = s.levels := by
    rw [Session.levels, Session.levels, hsettled.limit, hsettled.depth]
  have hmirrored := callClosure_mirrored (s.shiftTo first.2)
    (s.console.written, first.2.console.written) s.levels f args s first.2
    (hs.mirrors hsettled hevolves.confined)
  rw [hclosure, hvalues, ← Session.callClosure_eq, ← hlevels, ← Session.callClosure_eq] at hmirrored
  obtain ⟨hmatch, hafter⟩ := hmirrored
  exact ⟨hmatch.indistinct, hafter.written⟩

/-- The function `fun [x] [print(x), fun [] x]`, made in the root scope. -/
def printingClosure : Closure :=
  ⟨3, ["x"], .block ⟨1, 9⟩ [.call ⟨1, 10⟩ (.ident ⟨1, 10⟩ "print") [.ident ⟨1, 16⟩ "x"],
    .function ⟨1, 20⟩ [] (.ident ⟨1, 27⟩ "x")], 0⟩

/-- The session in which a program has made that function. -/
def printingSession : Session :=
  ((Session.new 0).register.run Host.none
    (.function ⟨1, 1⟩ printingClosure.params printingClosure.body)).2

/-- A host that ran the program has come by the function. -/
theorem printingSession_reachable :
    ∃ held programs, printingSession.Reachable held programs ∧ .closure printingClosure ∈ held := by
  let made : Operation :=
    .run Host.none (.function ⟨1, 1⟩ printingClosure.params printingClosure.body)
  have hmade : made.shown (Session.new 0).register = [.closure printingClosure] := by with_unfolding_all rfl
  have hallowed : made.Allowed (Session.new 0).register [] := .run (Host.none_honest []) _
  refine ⟨_, _, (Session.Reachable.new 0).register.perform hallowed, ?_⟩
  rw [hmade]
  exact List.mem_cons_self

/-- The function can be called with a text, and each call prints the text and makes a function of its
own; a host that does not look at identities cannot tell the calls apart. -/
theorem call_repeats_printing :
    (∃ held programs, printingSession.Reachable held programs ∧ .closure printingClosure ∈ held) ∧
    let first := printingSession.callClosure Host.none printingClosure [.string "a"]
    let second := first.2.callClosure Host.none printingClosure [.string "a"]
    first.1.Indistinct second.1 ∧ second.2.console.written = "a\na\n" := by
  have hfirst : (printingSession.callClosure Host.none printingClosure
      [.string "a"]).2.console.written = "a\n" := by decide +kernel
  have hbefore : printingSession.console.written = "" := by decide +kernel
  refine ⟨printingSession_reachable, ?_⟩
  obtain ⟨held, programs, hreachable, hclosure⟩ := printingSession_reachable
  intro first second
  obtain ⟨hsame, printed, hprinted, hagain⟩ := call_repeats hreachable hclosure
    (List.forall_mem_singleton.mpr (.plain (v := .string "a") rfl))
  refine ⟨hsame, ?_⟩
  rw [hfirst, hbefore, String.empty_append] at hprinted
  rw [hagain, hfirst, ← hprinted]
  rfl

end StuffScript
