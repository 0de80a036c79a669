import StuffScript.Proofs.Buffering
import Mathlib.Data.List.Basic
import Mathlib.Tactic.SplitIfs

/-!
# Interactive use as a sequence of chunk runs

Lines come in three modes: as code, while lines are gathered, and while lines are pasted. What a line
means depends on the mode, and commands and interrupts may come between. An account is kept of the lines
beside all this. It writes down what became of each line, in the order in which the lines were given, and
holds the lines that still wait. It knows nothing of sessions.

The main statement is `chunks_run_in_order`. The account holds each line once; and running the chunks that
it lists as submitted, one after another in one new session, is all that interactive use does to its
session.
-/

namespace StuffScript

/-- The characters of a text that is written as bytes are those of the text. -/
theorem Text.decodeLenient_toUTF8 (s : String) : Text.decodeLenient s.toUTF8 = s := by
  have hread : String.fromUTF8? s.toUTF8 = some s := by
    rw [String.fromUTF8?, String.toUTF8, dif_pos s.isValidUTF8]
    rfl
  rw [Text.decodeLenient, hread]

/-- The session after a text is parsed and run in it; a text that is no program changes nothing. What was
printed is taken out of it. -/
def Session.afterText (s : Session) (text : String) : Session :=
  match parse text with
  | .error _ => s
  | .ok program => (s.run Host.none program).2.takeWritten.2

/-- Running a source leads to the session after its text, traced or not. -/
theorem Session.runSource_session (trace : Bool) (name text : String) (s : Session) :
    (s.runSource trace ⟨name, text.toUTF8⟩).2.2 = s.afterText text := by
  have htext : Source.text ⟨name, text.toUTF8⟩ = text := Text.decodeLenient_toUTF8 text
  unfold Session.runSource Source.parse Session.afterText
  rw [htext]
  cases parse text with
  | error d => rfl
  | ok program =>
    simp only
    cases (s.run Host.none program).1 <;> rfl

namespace Repl

/-- What is given to interactive use: a line, with what reading files gives at that time, or an
interrupt. -/
inductive Input where
  | line (read : String → FileResult) (text : String)
  | interrupt

/-- The line that is given. -/
def Input.line? : Input → Option String
  | line _ text => some text
  | interrupt => none

/-- What an input leads to. -/
def step (r : Repl) : Input → Transcript × Repl
  | .line read text => r.feed (m := Id) read text
  | .interrupt => r.interrupt

/-- The state after some inputs, one after another. -/
def after (r : Repl) (inputs : List Input) : Repl := inputs.foldl (fun r input => (r.step input).2) r

section Accounts

/-- Why lines that were gathered or pasted are not run. -/
inductive Reason where
  | interrupted
  | cancelled
  | blank

/-- What becomes of lines: a line is a command, or it ends the pasting of others; or several lines are
one chunk, which is submitted or discarded. -/
inductive Fate where
  | command (line : String)
  | closing (line : String)
  | submitted (lines : List String)
  | discarded (why : Reason) (lines : List String)

/-- The lines that have a fate. -/
def Fate.lines : Fate → List String
  | command line | closing line => [line]
  | submitted lines | discarded _ lines => lines

/-- What tells that lines have the fate that they have: a chunk is discarded as blank and not submitted
just when it is blank. -/
def Fate.Deserved : Fate → Prop
  | command line => (Text.trimBlanks line).startsWith ":"
  | closing line => Text.trimBlanks line ∈ [".", ":endpaste", ":cancel"]
  | submitted lines => ¬ Text.allBlank (textOf lines)
  | discarded .blank lines => Text.allBlank (textOf lines)
  | discarded _ _ => True

/-- The lines of a chunk that is submitted. -/
def Fate.submitted? : Fate → Option (List String)
  | submitted lines => some lines
  | _ => none

/-- What became of the lines so far, and the lines that wait: pasted ones, or gathered ones. -/
structure Account where
  fates : List Fate := []
  pending : List String := []
  pasting : Bool := false

namespace Account

/-- All lines that were given. -/
def lines (a : Account) : List String := a.fates.flatMap Fate.lines ++ a.pending

/-- The chunks that were submitted. -/
def submitted (a : Account) : List (List String) := a.fates.filterMap Fate.submitted?

/-- How many brackets some lines leave open. -/
def leftOpen (lines : List String) : Int := lines.foldl openAfter 0

/-- The fate of a chunk that is complete. -/
def complete (lines : List String) : Fate :=
  if Text.allBlank (textOf lines) then .discarded .blank lines else .submitted lines

/-- Whether a line is a command: it starts with a colon, and no lines wait. -/
def isCommand (a : Account) (line : String) : Bool :=
  !a.pasting && a.pending.isEmpty && (Text.trimBlanks line).startsWith ":"

/-- Account for a line in paste mode. -/
def pasteLine (a : Account) (line : String) : Account :=
  if Text.trimBlanks line = "." || Text.trimBlanks line = ":endpaste" then
    { fates := a.fates ++ [complete a.pending, .closing line] }
  else if Text.trimBlanks line = ":cancel" then
    { fates := a.fates ++ [.discarded .cancelled a.pending, .closing line] }
  else { a with pending := a.pending ++ [line] }

/-- Account for a command, which may begin the pasting of lines. -/
def commandLine (a : Account) (line : String) : Account :=
  { fates := a.fates ++ [.command line], pasting := Text.trimBlanks line = ":paste" }

/-- Account for a line of code. -/
def codeLine (a : Account) (line : String) : Account :=
  if 0 < leftOpen (a.pending ++ [line]) then { a with pending := a.pending ++ [line] }
  else { fates := a.fates ++ [complete (a.pending ++ [line])] }

/-- Account for a line. -/
def line (a : Account) (line : String) : Account :=
  if a.pasting then a.pasteLine line
  else if a.isCommand line then a.commandLine line
  else a.codeLine line

/-- Account for an input. An interrupt discards the lines that wait. -/
def input (a : Account) : Input → Account
  | .line _ text => a.line text
  | .interrupt => { fates := a.fates ++ [.discarded .interrupted a.pending] }

/-- The account of some inputs. -/
def ofInputs (inputs : List Input) : Account := inputs.foldl input {}

/-- A complete chunk has its lines, submitted or not. -/
@[simp] theorem complete_lines (lines : List String) : (complete lines).lines = lines := by
  unfold complete
  split <;> rfl

/-- A line that ends the pasting has itself. -/
@[simp] theorem lines_closing (line : String) : (Fate.closing line).lines = [line] := rfl

/-- A line is a command only while no lines wait. -/
theorem pending_of_isCommand {a : Account} {line : String} (h : a.isCommand line) : a.pending = [] := by
  simp only [isCommand, Bool.and_eq_true] at h
  exact List.isEmpty_iff.mp h.1.2

/-- Each line is accounted for once, after those before it. -/
theorem lines_line (a : Account) (line : String) : (a.line line).lines = a.lines ++ [line] := by
  unfold Account.line pasteLine commandLine codeLine
  split_ifs with hpasting hdone hcancel hcommand hopen
  · simp [lines]
  · simp [lines, Fate.lines]
  · simp [lines]
  · simp [lines, Fate.lines, pending_of_isCommand hcommand]
  · simp [lines]
  · simp [lines]

/-- The account holds each line that is given, once and behind those before. -/
theorem lines_input (a : Account) (input : Input) :
    (a.input input).lines = a.lines ++ input.line?.toList := by
  cases input with
  | line read text => exact a.lines_line text
  | interrupt => simp [Account.input, lines, Fate.lines, Input.line?]

/-- The account holds all lines that were given, in their order. -/
theorem lines_ofInputs (inputs : List Input) : (ofInputs inputs).lines = inputs.filterMap Input.line? := by
  have hfrom (a : Account) : (inputs.foldl input a).lines = a.lines ++ inputs.filterMap Input.line? := by
    induction inputs generalizing a with
    | nil => simp
    | cons input inputs ih =>
      rw [List.foldl_cons, ih, lines_input, List.append_assoc]
      cases input <;> rfl
  exact hfrom {}

/-- The chunks submitted are those whose fate it is. -/
theorem mem_submitted_iff {a : Account} {lines : List String} :
    lines ∈ a.submitted ↔ .submitted lines ∈ a.fates := by
  rw [submitted, List.mem_filterMap]
  constructor
  · rintro ⟨fate, hfate, hlines⟩
    cases fate with
    | submitted => exact Option.some.inj hlines ▸ hfate
    | _ => cases hlines
  · exact fun h => ⟨_, h, rfl⟩

/-- A complete chunk is discarded as blank just when it is. -/
theorem complete_deserved (lines : List String) : (complete lines).Deserved := by
  unfold complete
  split_ifs with hblank
  · exact hblank
  · exact hblank

/-- An account gives lines only fates that they deserve. -/
theorem deserved_input {a : Account} (h : ∀ fate ∈ a.fates, fate.Deserved) (input : Input) :
    ∀ fate ∈ (a.input input).fates, fate.Deserved := by
  have hone {fate : Fate} (hfate : fate.Deserved) : ∀ f ∈ a.fates ++ [fate], f.Deserved :=
    List.forall_mem_append.mpr ⟨h, by simp [hfate]⟩
  have htwo {fate fate' : Fate} (hfate : fate.Deserved) (hfate' : fate'.Deserved) :
      ∀ f ∈ a.fates ++ [fate, fate'], f.Deserved :=
    List.forall_mem_append.mpr ⟨h, by simp [hfate, hfate']⟩
  cases input with
  | interrupt => exact hone trivial
  | line read text =>
    rw [input, line]
    unfold pasteLine codeLine
    split_ifs with hpasting hdone hcancel hcommand hopen
    · have hclosing : (Fate.closing text).Deserved := by
        simp only [Bool.or_eq_true, decide_eq_true_eq] at hdone
        obtain hdone | hdone := hdone <;> simp [Fate.Deserved, hdone]
      exact htwo (complete_deserved a.pending) hclosing
    · have hclosing : (Fate.closing text).Deserved := by simp [Fate.Deserved, hcancel]
      exact htwo trivial hclosing
    · exact h
    · simp only [isCommand, Bool.and_eq_true] at hcommand
      exact hone hcommand.2
    · exact h
    · exact hone (complete_deserved _)

/-- Whatever was given, all lines have the fates that they deserve. -/
theorem deserved_ofInputs (inputs : List Input) : ∀ fate ∈ (ofInputs inputs).fates, fate.Deserved := by
  have hfrom (a : Account) (h : ∀ fate ∈ a.fates, fate.Deserved) :
      ∀ fate ∈ (inputs.foldl input a).fates, fate.Deserved := by
    induction inputs generalizing a with
    | nil => exact h
    | cons input inputs ih => exact ih (a.input input) (deserved_input h input)
  exact hfrom {} (by simp)

end Account

end Accounts

section Bookkeeping

/-- The state of interactive use that an account tells, for some settings. Whether it is to end is no
matter of lines. -/
def Account.state (settings : Settings) (quit : Bool) (a : Account) : Repl where
  settings := settings
  session := a.submitted.foldl (fun s lines => s.afterText (textOf lines)) settings.session
  buffer := if a.pasting then "" else textOf a.pending
  depth := if a.pasting then 0 else Account.leftOpen a.pending
  chunk := a.submitted.length
  pasting := a.pasting
  pasted := if a.pasting then textOf a.pending else ""
  quit := quit

variable (settings : Settings) (quit : Bool)

/-- Lines make a text that is not empty. -/
theorem textOf_isEmpty (lines : List String) : (textOf lines).isEmpty = lines.isEmpty := by
  obtain rfl | ⟨before, line, rfl⟩ := lines.eq_nil_or_concat'
  · rfl
  · have hline : textOf (before ++ [line]) ≠ "" := by
      rw [textOf_append, ne_eq, String.append_eq_empty_iff]
      simp
    rw [String.isEmpty_eq_false_iff.mpr hline]
    simp

/-- What is no submitted chunk leaves no trace in the state. -/
theorem state_append {fate : Fate} (h : fate.submitted? = none) (fates : List Fate)
    (pending : List String) (pasting : Bool) :
    Account.state settings quit ⟨fates ++ [fate], pending, pasting⟩ =
      Account.state settings quit ⟨fates, pending, pasting⟩ := by
  simp [Account.state, Account.submitted, h]

/-- Running a chunk counts it and leads to the session after its text. -/
theorem runChunk_eq (r : Repl) (text : String) :
    (r.runChunk text).2 = { r with chunk := r.chunk + 1, session := r.session.afterText text } := by
  rw [← Session.runSource_session r.settings.trace (chunkName (r.chunk + 1)) text r.session]
  rfl

/-- A chunk that is complete is run unless it is blank. -/
theorem state_complete (said : Transcript) (fates : List Fate) (lines : List String) :
    (if Text.allBlank (textOf lines) then (said, Account.state settings quit { fates := fates })
      else (Account.state settings quit { fates := fates }).runChunk (textOf lines)).2 =
    Account.state settings quit { fates := fates ++ [Account.complete lines] } := by
  by_cases hblank : Text.allBlank (textOf lines)
  · rw [if_pos hblank, Account.complete, if_pos hblank, state_append settings quit rfl]
  · rw [if_neg hblank, Account.complete, if_neg hblank, runChunk_eq]
    simp [Account.state, Account.submitted, Fate.submitted?]

/-- Carry out a command, where files are read. -/
def execute (read : String → FileResult) (r : Repl) : Command → Transcript × Repl
  | .load path =>
    if path.isEmpty then r.perform (.load path) else (loadFile r.settings path (read path), r)
  | c => r.perform c

/-- A line with a command executes it. -/
theorem feed_command (read : String → FileResult) {r : Repl} {line : String} {c : Command}
    (h : r.commandOf? line = some c) : r.feed (m := Id) read line = r.execute read c := by
  cases c with
  | load path =>
    simp only [feed, h, execute]
    split <;> rfl
  | _ =>
    simp only [feed, h, execute]
    rfl

/-- A line without a command is pasted or is code, by the mode. -/
theorem feed_other (read : String → FileResult) {r : Repl} {line : String}
    (h : r.commandOf? line = none) :
    r.feed (m := Id) read line = if r.pasting then r.feedPaste line else r.feedCode line := by
  simp only [feed, h]
  rfl

/-- A line is a command for interactive use just when it is one for the account. -/
theorem commandOf?_state (a : Account) (line : String) :
    (a.state settings quit).commandOf? line =
      if a.isCommand line then some (Command.ofText (Text.trimBlanks line)) else none := by
  obtain ⟨fates, pending, pasting⟩ := a
  cases pasting with
  | true => rfl
  | false =>
    cases hpending : pending.isEmpty with
    | true =>
      obtain rfl := List.isEmpty_iff.mp hpending
      simp [commandOf?, Account.state, Account.isCommand, Account.leftOpen, textOf]
    | false =>
      simp [commandOf?, Account.state, Account.isCommand, textOf_isEmpty, hpending]

/-- There is one text of the command that begins the pasting. -/
theorem ofText_eq_paste_iff (text : String) : Command.ofText text = .paste ↔ text = ":paste" := by
  constructor
  · intro h
    unfold Command.ofText at h
    split_ifs at h with _ _ _ _ _ hpaste
    exact hpaste
  · rintro rfl
    decide +kernel

/-- After a command all is as before it, unless it begins the pasting of lines. -/
theorem execute_state (read : String → FileResult) {a : Account} {line : String} (h : a.isCommand line) :
    ∃ quit', ((a.state settings quit).execute read (Command.ofText (Text.trimBlanks line))).2 =
      (a.commandLine line).state settings quit' := by
  obtain ⟨fates, pending, pasting⟩ := a
  obtain rfl : pending = [] := Account.pending_of_isCommand h
  obtain rfl : pasting = false := by
    simp only [Account.isCommand, Bool.and_eq_true, Bool.not_eq_true'] at h
    exact h.1.1
  by_cases hpaste : Text.trimBlanks line = ":paste"
  · refine ⟨quit, ?_⟩
    rw [(ofText_eq_paste_iff _).mpr hpaste, Account.commandLine, state_append settings quit rfl,
      decide_eq_true hpaste]
    rfl
  · simp only [Account.commandLine, state_append settings _ (rfl : (Fate.command line).submitted? = none),
      decide_eq_false hpaste]
    have hother := mt (ofText_eq_paste_iff _).mp hpaste
    cases hcommand : Command.ofText (Text.trimBlanks line) with
    | paste => exact absurd hcommand hother
    | quit => exact ⟨true, rfl⟩
    | load path =>
      refine ⟨quit, ?_⟩
      rw [execute]
      split <;> rfl
    | _ => exact ⟨quit, rfl⟩

/-- A line in paste mode is pasted, or it ends the pasting. -/
theorem feedPaste_state {a : Account} (h : a.pasting) (line : String) :
    ((a.state settings quit).feedPaste line).2 = (a.pasteLine line).state settings quit := by
  obtain ⟨fates, pending, pasting⟩ := a
  obtain rfl : pasting = true := h
  have hclosing (fate : Fate) : Account.state settings quit { fates := fates ++ [fate, .closing line] } =
      Account.state settings quit { fates := fates ++ [fate] } := by
    rw [List.append_cons, state_append settings quit rfl]
  by_cases hdone : Text.trimBlanks line = "." || Text.trimBlanks line = ":endpaste"
  · simp only [feedPaste, Account.pasteLine, if_pos hdone]
    rw [hclosing]
    exact state_complete settings quit (Transcript.sayLine "(paste buffer empty)") fates pending
  · by_cases hcancel : Text.trimBlanks line = ":cancel"
    · simp only [feedPaste, Account.pasteLine, if_neg hdone, if_pos hcancel]
      rw [hclosing, state_append settings quit rfl]
      rfl
    · simp only [feedPaste, Account.pasteLine, if_neg hdone, if_neg hcancel, Account.state, textOf_append]
      rfl

/-- A line of code is gathered, or the lines gathered are run with it. -/
theorem feedCode_state {a : Account} (h : a.pasting = false) (line : String) :
    ((a.state settings quit).feedCode line).2 = (a.codeLine line).state settings quit := by
  obtain ⟨fates, pending, pasting⟩ := a
  obtain rfl : pasting = false := h
  have hdepth : openAfter (Account.leftOpen pending) line = Account.leftOpen (pending ++ [line]) := by
    simp [Account.leftOpen]
  have htext : textOf pending ++ line ++ "\n" = textOf (pending ++ [line]) := (textOf_append _ _).symm
  by_cases hopen : 0 < Account.leftOpen (pending ++ [line])
  · simp only [feedCode, Account.codeLine, Account.state, hdepth, htext, if_pos hopen,
      Bool.false_eq_true, if_false]
    rfl
  · have hzero : Account.leftOpen (pending ++ [line]) = 0 := by
      have hle : 0 ≤ openAfter (Account.leftOpen pending) line := Int.le_max_right _ _
      omega
    have hfed : (Account.state settings quit ⟨fates, pending, false⟩).feedCode line =
        if Text.allBlank (textOf (pending ++ [line])) then
          ([], Account.state settings quit { fates := fates })
        else (Account.state settings quit { fates := fates }).runChunk (textOf (pending ++ [line])) := by
      simp only [feedCode, Account.state, hdepth, htext, hzero, Bool.false_eq_true, if_false, Int.lt_irrefl]
      rfl
    rw [hfed, Account.codeLine, if_neg hopen]
    exact state_complete settings quit [] fates (pending ++ [line])

/-- An interrupt gives up the lines that wait. -/
theorem interrupt_state (a : Account) :
    (a.state settings quit).interrupt.2 = (a.input .interrupt).state settings quit := by
  obtain ⟨fates, pending, pasting⟩ := a
  rw [Account.input, state_append settings quit rfl]
  cases pasting with
  | true => rfl
  | false =>
    cases pending with
    | nil => rfl
    | cons line lines =>
      have hbuffer : (Account.state settings quit ⟨fates, line :: lines, false⟩).buffer.isEmpty = false :=
        textOf_isEmpty (line :: lines)
      simp only [interrupt, hbuffer]
      rfl

/-- The account of an input tells the state after it. -/
theorem step_state (a : Account) (input : Input) :
    ∃ quit', ((a.state settings quit).step input).2 = (a.input input).state settings quit' := by
  cases input with
  | interrupt => exact ⟨quit, interrupt_state settings quit a⟩
  | line read text =>
    have hmode : (a.state settings quit).pasting = a.pasting := rfl
    have hcommandOf := commandOf?_state settings quit a text
    rw [Account.input, Account.line]
    by_cases hpasting : a.pasting
    · have hcommand : ¬ a.isCommand text := by simp [Account.isCommand, hpasting]
      rw [if_neg hcommand] at hcommandOf
      rw [step, feed_other read hcommandOf, hmode, if_pos hpasting, if_pos hpasting]
      exact ⟨quit, feedPaste_state settings quit hpasting text⟩
    · rw [if_neg hpasting]
      by_cases hcommand : a.isCommand text
      · rw [if_pos hcommand] at hcommandOf
        rw [if_pos hcommand, step, feed_command read hcommandOf]
        exact execute_state settings quit read hcommand
      · rw [if_neg hcommand] at hcommandOf
        rw [if_neg hcommand, step, feed_other read hcommandOf, hmode, if_neg hpasting]
        exact ⟨quit, feedCode_state settings quit (Bool.eq_false_iff.mpr hpasting) text⟩

/-- Whatever was given, the state is the one that the account describes. -/
theorem after_eq (inputs : List Input) :
    ∃ quit, (Repl.new settings).after inputs = (Account.ofInputs inputs).state settings quit := by
  have hfrom (a : Account) (quit : Bool) :
      ∃ quit', (a.state settings quit).after inputs = (inputs.foldl Account.input a).state settings quit' := by
    induction inputs generalizing a quit with
    | nil => exact ⟨quit, rfl⟩
    | cons input inputs ih =>
      obtain ⟨quit', hstep⟩ := step_state settings quit a input
      rw [after, List.foldl_cons, hstep]
      exact ih (a.input input) quit'
  exact hfrom {} false

end Bookkeeping

/-- **Interactive use runs chunks in order.** Whatever is given, each line has one fate or waits, in the
order of the lines. The chunks that are submitted are counted, and running them one after another, each
parsed and then run in one new session, gives the session. The lines that wait are what is gathered or
pasted. A line that is a command is carried out at once. Neither commands, whatever files they read, nor
interrupts change the session. -/
theorem chunks_run_in_order (settings : Settings) (inputs : List Input) :
    let r := (Repl.new settings).after inputs
    let a := Account.ofInputs inputs
    a.lines = inputs.filterMap Input.line? ∧ (∀ fate ∈ a.fates, fate.Deserved) ∧
    r.chunk = a.submitted.length ∧
    r.session = a.submitted.foldl (fun s lines => s.afterText (textOf lines)) settings.session ∧
    r.pasting = a.pasting ∧
    (r.buffer = if a.pasting then "" else textOf a.pending) ∧
    (r.pasted = if a.pasting then textOf a.pending else "") ∧
    (r.step .interrupt).2.session = r.session ∧
    ∀ read line, a.isCommand line →
      r.step (.line read line) = r.execute read (Command.ofText (Text.trimBlanks line)) ∧
      (r.step (.line read line)).2.session = r.session := by
  intro r a
  obtain ⟨quit, hr⟩ := after_eq settings inputs
  have hr : r = a.state settings quit := hr
  refine ⟨Account.lines_ofInputs inputs, Account.deserved_ofInputs inputs, ?_⟩
  rw [hr]
  refine ⟨rfl, rfl, rfl, rfl, rfl, ?_, fun read line hcommand => ?_⟩
  · rw [step, interrupt_state, Account.input, state_append settings quit rfl]
    rfl
  · have hcommandOf := commandOf?_state settings quit a line
    rw [if_pos hcommand] at hcommandOf
    have hstep : (a.state settings quit).step (.line read line) =
        (a.state settings quit).execute read (Command.ofText (Text.trimBlanks line)) :=
      feed_command read hcommandOf
    obtain ⟨quit', hexecute⟩ := execute_state settings quit read hcommand
    refine ⟨hstep, ?_⟩
    rw [hstep, hexecute, Account.commandLine, state_append settings quit' rfl]
    rfl

/-- A list over two lines and a pasted line make two chunks. The commands between them make none, and the
next line is a command again. -/
theorem chunks_run_in_order_paste :
    let read : String → FileResult := fun _ => .ok ByteArray.empty
    let inputs : List Input := [":load a", "x = [1", "]", ":paste", "y = x", "."].map (.line read)
    let a := Account.ofInputs inputs
    let r := (Repl.new {}).after inputs
    .submitted ["x = [1", "]"] ∈ a.fates ∧ a.isCommand ":vars" ∧ r.chunk = 2 ∧
    ¬ Text.allBlank (textOf ["x = [1", "]"]) ∧ r.step (.line read ":vars") = r.execute read .vars := by
  intro read inputs a r
  obtain ⟨_, hdeserved, hchunk, _, _, _, _, _, hcommand⟩ := chunks_run_in_order {} inputs
  have hsubmitted : a.submitted = [["x = [1", "]"], ["y = x"]] := by decide +kernel
  have hmem : Fate.submitted ["x = [1", "]"] ∈ a.fates :=
    Account.mem_submitted_iff.mp (by rw [hsubmitted]; exact List.mem_cons_self)
  have hvars : a.isCommand ":vars" = true := by decide +kernel
  have htext : Command.ofText (Text.trimBlanks ":vars") = .vars := by decide +kernel
  have hstep := (hcommand read ":vars" hvars).1
  rw [htext] at hstep
  have hchunk : r.chunk = a.submitted.length := hchunk
  rw [hsubmitted] at hchunk
  exact ⟨hmem, hvars, hchunk, hdeserved _ hmem, hstep⟩

end Repl

end StuffScript
