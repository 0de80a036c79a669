import StuffScript.Proofs.ChunkRuns

/-!
# The modes of interactive use

Interactive use is idle, or it gathers the lines of a chunk, or lines are pasted. The state has no field
for this: whether brackets are open, the lines gathered, the lines pasted and the flag for pasting are set
one by one, by lines, by commands and by interrupts. `Coherent` says which values of them go together. It
holds at the start, and every input keeps it.

The main statement is `inputs_keep_modes`. A line can be a command only where it finds nothing gathered and
nothing pasted, so no command loses anything.
-/

namespace StuffScript.Repl

/-- The fields that tell the mode go together. A bracket is open just while lines are gathered, no lines are
gathered in paste mode, and none are kept as pasted outside of it. -/
structure Coherent (r : Repl) : Prop where
  depth_nonneg : 0 ≤ r.depth
  open_iff : 0 < r.depth ↔ r.buffer ≠ ""
  paste_mode : r.pasting = true → r.depth = 0 ∧ r.buffer = ""
  code_mode : r.pasting = false → r.pasted = ""

/-- Nothing is gathered or pasted, and lines are not pasted. -/
structure Idle (r : Repl) : Prop where
  pasting : r.pasting = false
  depth : r.depth = 0
  buffer : r.buffer = ""
  pasted : r.pasted = ""

section Steps

variable {r : Repl}

/-- The idle state with all of that taken away is itself. -/
theorem Idle.eq_cleared (h : r.Idle) :
    r = { r with buffer := "", depth := 0, pasting := false, pasted := "" } := by
  obtain ⟨settings, session, buffer, depth, chunk, pasting, pasted, quit⟩ := r
  obtain ⟨rfl, rfl, rfl, rfl⟩ := h
  rfl

/-- Where no lines wait, the modes are coherent. -/
theorem Idle.coherent (h : r.Idle) : r.Coherent where
  depth_nonneg := Int.le_of_eq h.depth.symm
  open_iff := by simp [h.depth, h.buffer]
  paste_mode _ := ⟨h.depth, h.buffer⟩
  code_mode _ := h.pasted

/-- At first no lines wait. -/
theorem new_idle (settings : Settings) : (Repl.new settings).Idle := ⟨rfl, rfl, rfl, rfl⟩

/-- Running a chunk does not touch the mode. -/
theorem Idle.runChunk (h : r.Idle) (text : String) : (r.runChunk text).2.Idle := by
  rw [runChunk_eq]
  exact ⟨h.pasting, h.depth, h.buffer, h.pasted⟩

/-- A line that ends the pasting leads to the idle state, and any other one is pasted. -/
theorem Coherent.feedPaste (h : r.Coherent) (hpasting : r.pasting = true) (line : String) :
    (r.feedPaste line).2.Coherent := by
  obtain ⟨hdepth, hbuffer⟩ := h.paste_mode hpasting
  have hended : ({ r with pasting := false, pasted := "" } : Repl).Idle := ⟨rfl, hdepth, hbuffer, rfl⟩
  unfold Repl.feedPaste
  dsimp only
  split_ifs with hdone hblank hcancel
  · exact hended.coherent
  · exact (hended.runChunk r.pasted).coherent
  · exact hended.coherent
  · exact ⟨h.depth_nonneg, h.open_iff, h.paste_mode, fun hcode => by simp [hpasting] at hcode⟩

/-- A line of code is gathered where it leaves a bracket open, and otherwise leads to the idle state. -/
theorem Coherent.feedCode (h : r.Coherent) (hcode : r.pasting = false) (line : String) :
    (r.feedCode line).2.Coherent := by
  have hnonneg : 0 ≤ openAfter r.depth line := Int.le_max_right _ _
  unfold Repl.feedCode
  dsimp only
  split_ifs with hopen hblank
  · have htext : r.buffer ++ line ++ "\n" ≠ "" := by
      rw [ne_eq, String.append_eq_empty_iff]
      simp
    exact ⟨hnonneg, iff_of_true hopen htext, fun hpasting => by simp [hcode] at hpasting, h.code_mode⟩
  all_goals
    have hzero : openAfter r.depth line = 0 := Int.le_antisymm (Int.not_lt.mp hopen) hnonneg
    have hdone : ({ r with buffer := "", depth := openAfter r.depth line } : Repl).Idle :=
      ⟨hcode, hzero, rfl, h.code_mode hcode⟩
  · exact hdone.coherent
  · exact (hdone.runChunk _).coherent

/-- Where a line is a command, nothing is gathered or pasted. -/
theorem Coherent.idle_of_command (h : r.Coherent) {line : String} {c : Command}
    (hc : r.commandOf? line = some c) : r.Idle := by
  unfold commandOf? at hc
  dsimp only at hc
  split_ifs at hc with hguard
  simp only [Bool.and_eq_true, Bool.not_eq_true', decide_eq_true_eq] at hguard
  obtain ⟨⟨⟨hcode, hdepth⟩, hbuffer⟩, -⟩ := hguard
  exact ⟨hcode, hdepth, String.isEmpty_iff.mp hbuffer, h.code_mode hcode⟩

/-- In the idle state no command loses anything: one asks for the end, one begins the pasting of lines, and
after any other all is as before. -/
theorem Idle.execute_eq (h : r.Idle) (read : String → FileResult) (c : Command) :
    (r.execute read c).2 = { r with quit := r.quit || c = .quit, pasting := c = .paste } := by
  obtain ⟨settings, session, buffer, depth, chunk, pasting, pasted, quit⟩ := r
  obtain ⟨rfl, rfl, rfl, rfl⟩ := h
  cases c with
  | load path =>
    rw [execute]
    split <;> simp [perform]
  | _ => simp [execute, perform]

/-- A command that comes while no lines wait leaves the modes coherent. -/
theorem Idle.coherent_execute (h : r.Idle) (read : String → FileResult) (c : Command) :
    (r.execute read c).2.Coherent := by
  rw [h.execute_eq read c]
  exact ⟨Int.le_of_eq h.depth.symm, by simp [h.depth, h.buffer], fun _ => ⟨h.depth, h.buffer⟩, fun _ => h.pasted⟩

/-- An interrupt leads to the idle state and changes nothing else. -/
theorem Coherent.interrupt_eq (h : r.Coherent) :
    r.interrupt.2 = { r with buffer := "", depth := 0, pasting := false, pasted := "" } := by
  unfold Repl.interrupt
  split_ifs with hpasting hgathered
  · obtain ⟨hdepth, hbuffer⟩ := h.paste_mode hpasting
    simp only [hdepth, hbuffer]
  · simp only [h.code_mode (Bool.eq_false_iff.mpr hpasting), Bool.eq_false_iff.mpr hpasting]
  · simp only [Bool.or_eq_true, Bool.not_eq_true', decide_eq_true_eq, not_or, Bool.not_eq_false,
      String.isEmpty_iff] at hgathered
    have hcode : r.pasting = false := Bool.eq_false_iff.mpr hpasting
    have hdepth : r.depth = 0 := Int.le_antisymm (Int.not_lt.mp hgathered.2) h.depth_nonneg
    exact Idle.eq_cleared ⟨hcode, hdepth, hgathered.1, h.code_mode hcode⟩

/-- Every input keeps the fields that tell the mode together. -/
theorem Coherent.step (h : r.Coherent) (input : Input) : (r.step input).2.Coherent := by
  cases input with
  | interrupt =>
    rw [Repl.step, h.interrupt_eq]
    exact Idle.coherent ⟨rfl, rfl, rfl, rfl⟩
  | line read text =>
    rw [Repl.step]
    cases hcommand : r.commandOf? text with
    | some c =>
      rw [feed_command read hcommand]
      exact (h.idle_of_command hcommand).coherent_execute read c
    | none =>
      rw [feed_other read hcommand]
      split_ifs with hpasting
      · exact h.feedPaste hpasting text
      · exact h.feedCode (Bool.eq_false_iff.mpr hpasting) text

end Steps

/-- The modes stay coherent whatever is given. -/
theorem Coherent.after {r : Repl} (h : r.Coherent) (inputs : List Input) : (r.after inputs).Coherent := by
  induction inputs generalizing r with
  | nil => exact h
  | cons input inputs ih => exact ih (h.step input)

/-- **Modes are kept.** After whatever was given to a new interactive use: the count of open brackets is not
negative, and it is positive just when lines are gathered; in paste mode nothing is gathered, and outside of
it nothing is kept as pasted. So a command is carried out only where nothing is gathered or pasted, and
changes at most the mode and whether to end; any other line is pasted or is code. An interrupt leads to the
idle state. -/
theorem inputs_keep_modes (settings : Settings) (inputs : List Input) :
    let r := (Repl.new settings).after inputs
    0 ≤ r.depth ∧ (0 < r.depth ↔ r.buffer ≠ "") ∧
    (r.pasting = true → r.depth = 0 ∧ r.buffer = "") ∧ (r.pasting = false → r.pasted = "") ∧
    (∀ read line c, r.commandOf? line = some c → r.Idle ∧
      r.step (.line read line) = r.execute read c ∧
      (r.execute read c).2 = { r with quit := r.quit || c = .quit, pasting := c = .paste }) ∧
    (∀ read line, r.commandOf? line = none →
      r.step (.line read line) = if r.pasting then r.feedPaste line else r.feedCode line) ∧
    (r.step .interrupt).2.Idle ∧
    (r.step .interrupt).2 = { r with buffer := "", depth := 0, pasting := false, pasted := "" } := by
  intro r
  have hr : r.Coherent := (new_idle settings).coherent.after inputs
  have hinterrupt : (r.step .interrupt).2 =
      { r with buffer := "", depth := 0, pasting := false, pasted := "" } := hr.interrupt_eq
  refine ⟨hr.depth_nonneg, hr.open_iff, hr.paste_mode, hr.code_mode, fun read line c hc => ?_,
    fun read line hc => feed_other read hc, ?_, hinterrupt⟩
  · have hidle := hr.idle_of_command hc
    exact ⟨hidle, feed_command read hc, hidle.execute_eq read c⟩
  · rw [hinterrupt]
    exact ⟨rfl, rfl, rfl, rfl⟩

/-- A paste is given up, then a list is gathered over two lines and run. After that a line may be a command
again, and to clear the buffer changes nothing. -/
theorem inputs_keep_modes_reset :
    let read : String → FileResult := fun _ => .ok ByteArray.empty
    let inputs : List Input :=
      [.line read ":paste", .line read "x = [", .interrupt, .line read "[1,", .line read "2]"]
    let r := (Repl.new {}).after inputs
    ((Repl.new {}).after (inputs.take 2)).pasting = true ∧ 0 < ((Repl.new {}).after (inputs.take 4)).depth ∧
    ((Repl.new {}).after (inputs.take 2)).buffer = "" ∧ r.pasted = "" ∧
    r.commandOf? ":reset" = some .reset ∧ (r.step (.line read ":reset")).2 = r := by
  intro read inputs r
  obtain ⟨_, _, hpaste, _⟩ := inputs_keep_modes {} (inputs.take 2)
  obtain ⟨_, _, _, hcode, hcommand, _⟩ := inputs_keep_modes {} inputs
  have hpasting : ((Repl.new {}).after (inputs.take 2)).pasting = true := by decide +kernel
  have hopen : 0 < ((Repl.new {}).after (inputs.take 4)).depth := by decide +kernel
  have hreset : r.commandOf? ":reset" = some .reset := by decide +kernel
  obtain ⟨hidle, hstep, hexecute⟩ := hcommand read ":reset" .reset hreset
  refine ⟨hpasting, hopen, (hpaste hpasting).2, hcode hidle.pasting, hreset, ?_⟩
  rw [hstep, hexecute, hidle.depth, hidle.buffer, hidle.pasted, decide_eq_false (by decide),
    decide_eq_false (by decide), Bool.or_false]
  exact hidle.eq_cleared.symm

end StuffScript.Repl
