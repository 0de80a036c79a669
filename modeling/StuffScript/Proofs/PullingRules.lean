import StuffScript.Proofs.Readings
import Mathlib.Data.List.Infix

/-!
# Rules for computations that pull tokens

A lexer in any state has a stream to give, and taking a token leaves the rest of that stream. So a computation
that pulls tokens can be judged by streams: that it is not given up, that all it notes shows progress, and
what holds of its error or of its result. `Pull.Ends` is that judgement, and here is a rule for each thing that
such a computation does.

The main rule is `Pull.Ends.loop`: a loop ends if each round that leads to another one leaves fewer tokens, and
then that round is noted to have taken one.
-/

namespace StuffScript

section Streams

/-- The second stream is what is left of the first when some of its tokens are taken. -/
def Stream.LeadsTo (s rest : Stream) : Prop := rest.words <:+ s.words

/-- The second stream is what is left of the first when one token or more are taken. -/
def Stream.Consumes (s rest : Stream) : Prop := ∃ t ts, s.words = t :: (ts ++ rest.words)

/-- There are as many words as the stream is long. -/
theorem Stream.length_words (s : Stream) : s.words.length = s.size := by
  induction s with
  | token t s ih => rw [words, List.length_cons, ih, size]
  | finish last => rfl
  | broken d => rfl

/-- Behind a token the stream is shorter. -/
theorem Stream.size_lt_of_token {s rest : Stream} {t : Token} (h : s = .token t rest) : rest.size < s.size :=
  h ▸ Nat.lt_succ_self _

/-- Taking no token leaves the stream. -/
theorem Stream.LeadsTo.refl (s : Stream) : s.LeadsTo s := List.suffix_refl _

/-- Taking tokens twice is taking tokens. -/
theorem Stream.LeadsTo.trans {s s₁ s₂ : Stream} (h : s.LeadsTo s₁) (h₁ : s₁.LeadsTo s₂) : s.LeadsTo s₂ :=
  List.IsSuffix.trans h₁ h

/-- What is left is not longer. -/
theorem Stream.LeadsTo.size_le {s rest : Stream} (h : s.LeadsTo rest) : rest.size ≤ s.size := by
  rw [← rest.length_words, ← s.length_words]
  exact List.IsSuffix.length_le h

/-- Taking the first token leaves what is behind it. -/
theorem Stream.leadsTo_token (t : Token) (s : Stream) : (Stream.token t s).LeadsTo s :=
  List.suffix_cons t s.words

/-- What is shorter is left when a token is taken. -/
theorem Stream.LeadsTo.consumes {s rest : Stream} (h : s.LeadsTo rest) (hlt : rest.size < s.size) :
    s.Consumes rest := by
  obtain ⟨taken, htaken⟩ := h
  cases taken with
  | nil =>
    rw [List.nil_append] at htaken
    rw [← rest.length_words, ← s.length_words, htaken] at hlt
    exact absurd hlt (Nat.lt_irrefl _)
  | cons t ts => exact ⟨t, ts, htaken.symm⟩

end Streams

section Lexers

variable {l : Lexer} {t : Token} {s : Stream} {d : Diagnostic}

/-- The stream with this in front, or of this alone where nothing can be behind it. -/
def Stream.startingWith : Except Diagnostic Token → Stream → Stream
  | .error d, _ => .broken d
  | .ok t, s => if t.kind = .endOfInput then .finish t else .token t s

/-- The stream of a cursor begins with the next token, and goes on from where that token ends. -/
theorem Stream.ofCursor_eq (c : Cursor) :
    Stream.ofCursor c = .startingWith c.readToken.1 (.ofCursor c.readToken.2) := by
  rw [Stream.ofCursor]
  rcases c.readToken with ⟨_ | t, c'⟩ <;> rfl

namespace Lexer

/-- What a lexer has to give: what comes next, and what is behind that. -/
theorem stream_eq (l : Lexer) : l.stream = .startingWith l.next.1 l.next.2.stream := by
  obtain ⟨c, ahead⟩ := l
  cases ahead with
  | some t => rfl
  | none => exact Stream.ofCursor_eq c

/-- At the point where scanning fails the lexer gives its complaint. -/
theorem next_of_broken (h : l.stream = .broken d) : l.next.1 = .error d := by
  rw [stream_eq] at h
  cases hnext : l.next.1 with
  | error d' =>
    rw [hnext] at h
    cases h
    rfl
  | ok t =>
    rw [hnext, Stream.startingWith] at h
    split at h <;> cases h

/-- At the end of the stream the lexer gives the token that stands for the end. -/
theorem next_of_finish (h : l.stream = .finish t) : l.next.1 = .ok t ∧ t.kind = .endOfInput := by
  rw [stream_eq] at h
  cases hnext : l.next.1 with
  | error d =>
    rw [hnext] at h
    cases h
  | ok u =>
    rw [hnext, Stream.startingWith] at h
    split at h
    · next hkind =>
      cases h
      exact ⟨rfl, hkind⟩
    · cases h

/-- Otherwise it gives the first token, and what is behind it is left. -/
theorem next_of_token (h : l.stream = .token t s) :
    l.next.1 = .ok t ∧ t.kind ≠ .endOfInput ∧ l.next.2.stream = s := by
  rw [stream_eq] at h
  cases hnext : l.next.1 with
  | error d =>
    rw [hnext] at h
    cases h
  | ok u =>
    rw [hnext, Stream.startingWith] at h
    split at h
    · cases h
    · next hkind =>
      cases h
      exact ⟨rfl, hkind, rfl⟩

/-- Looking does not change what a lexer has to give. -/
theorem stream_peek (l : Lexer) : l.peek.2.stream = l.stream := by
  rw [stream_eq, stream_eq l, next_after_peek]

/-- Looking ahead takes nothing. -/
theorem leadsTo_peek (l : Lexer) : l.stream.LeadsTo l.peek.2.stream := l.stream_peek ▸ .refl _

/-- Asking for the next token takes one. -/
theorem leadsTo_next (h : l.stream = .token t s) : l.stream.LeadsTo l.next.2.stream := by
  rw [(next_of_token h).2.2, h]
  exact Stream.leadsTo_token t s

/-- A token that was looked at is in the slot. -/
theorem ahead_peek (h : l.next.1 = .ok t) : l.peek.2.ahead = some t := by
  rw [← peek_eq_next] at h
  revert h
  obtain ⟨c, ahead⟩ := l
  cases ahead with
  | some u =>
    intro h
    cases h
    rfl
  | none =>
    simp only [peek]
    rcases c.readToken with ⟨_ | u, c'⟩
    · intro h
      cases h
    · intro h
      cases h
      rfl

end Lexer

end Lexers

section Ends

/-- What is noted shows progress: a token was passed over only after it was looked at, so that the slot held
it; a round that leads to another one took a token; and so did a procedure that returned, but for operations. -/
def Pull.Note.Holds : Pull.Note → Prop
  | .passed l => l.ahead.isSome
  | .round before after => before.stream.Consumes after.stream
  | .returned p before after => p.Consuming → before.stream.Consumes after.stream

/-- A computation is not given up, and all that it notes shows progress. It ends in an error with one
property, or in a result with another, and then it has taken some of the tokens and left the others. -/
inductive Pull.Ends {α : Type} (x : Pull α) (l : Lexer) (E : Diagnostic → Prop) (Q : α → Lexer → Prop) : Prop
  | refused {d : Diagnostic} {l' : Lexer} {notes : List Pull.Note} (hx : x l = some ⟨.error d, l', notes⟩)
      (hnotes : ∀ note ∈ notes, note.Holds) (hd : E d)
  | found {a : α} {l' : Lexer} {notes : List Pull.Note} (hx : x l = some ⟨.ok a, l', notes⟩)
      (hnotes : ∀ note ∈ notes, note.Holds) (hleads : l.stream.LeadsTo l'.stream) (ha : Q a l')

/-- How a round of a loop is to end: with a property of the result, or else with fewer tokens to come and an
invariant kept. -/
def Turn.Advances {σ α : Type} (I : σ → Lexer → Prop) (P : α → Lexer → Prop) (l : Lexer) :
    Turn σ α → Lexer → Prop
  | .done a, l' => P a l'
  | .again state, l' => I state l' ∧ l'.stream.size < l.stream.size

/-- A round that advances from a lexer does so from every one with at least as much to give. -/
theorem Turn.Advances.of_le {σ α : Type} {I : σ → Lexer → Prop} {P : α → Lexer → Prop} {turn : Turn σ α}
    {l l₀ l' : Lexer} (h : Turn.Advances I P l turn l') (hle : l.stream.size ≤ l₀.stream.size) :
    Turn.Advances I P l₀ turn l' := by
  cases turn with
  | done a => exact h
  | again state => exact ⟨h.1, h.2.trans_le hle⟩

namespace Pull

variable {α β σ : Type} {l l' : Lexer} {t : Token} {s : Stream} {d : Diagnostic} {notes : List Note}
  {x : Pull α} {f : α → Pull β} {E : Diagnostic → Prop} {P : α → Lexer → Prop} {Q : β → Lexer → Prop}

/-- What follows a success goes on with its value, its lexer and its notes. -/
theorem bind_ok {a : α} (hx : x l = some ⟨.ok a, l', notes⟩) :
    (x >>= f) l = (f a l').map fun r => { r with notes := notes ++ r.notes } := by
  change Pull.bind x f l = _
  rw [Pull.bind, hx]

/-- Nothing follows a failure. -/
theorem bind_error (hx : x l = some ⟨.error d, l', notes⟩) :
    (x >>= f) l = some ⟨.error d, l', notes⟩ := by
  change Pull.bind x f l = _
  rw [Pull.bind, hx]

namespace Ends

/-- A computation that takes nothing ends with its value, where that is as wanted. -/
theorem pure {a : α} (h : P a l) : (Pure.pure a : Pull α).Ends l E P :=
  .found rfl (List.forall_mem_nil _) (.refl _) h

/-- A computation that fails at once ends with an error, where that is as wanted. -/
theorem fail (h : E d) : (Pull.fail d).Ends l E P := .refused rfl (List.forall_mem_nil _) h

/-- A computation that ends with something stronger ends with the weaker. -/
theorem mono {E' : Diagnostic → Prop} {P' : α → Lexer → Prop} (h : x.Ends l E P) (hE : ∀ d, E d → E' d)
    (hP : ∀ a l', P a l' → P' a l') : x.Ends l E' P' := by
  cases h with
  | refused hx hnotes hd => exact .refused hx hnotes (hE _ hd)
  | found hx hnotes hleads ha => exact .found hx hnotes hleads (hP _ _ ha)

/-- A computation whose beginning is known to succeed ends as what follows does. -/
theorem bind_of_ok {a : α} (hx : x l = some ⟨.ok a, l', notes⟩) (hnotes : ∀ note ∈ notes, note.Holds)
    (hleads : l.stream.LeadsTo l'.stream) (hf : (f a).Ends l' E Q) : (x >>= f).Ends l E Q := by
  cases hf with
  | refused hfa hnotes' hd =>
    have hbind := (bind_ok (f := f) hx).trans (congrArg (Option.map _) hfa)
    exact .refused hbind (List.forall_mem_append.mpr ⟨hnotes, hnotes'⟩) hd
  | found hfa hnotes' hleads' ha =>
    have hbind := (bind_ok (f := f) hx).trans (congrArg (Option.map _) hfa)
    exact .found hbind (List.forall_mem_append.mpr ⟨hnotes, hnotes'⟩) (hleads.trans hleads') ha

/-- One after another. -/
theorem bind (h : x.Ends l E P)
    (hf : ∀ a l', l.stream.LeadsTo l'.stream → P a l' → (f a).Ends l' E Q) : (x >>= f).Ends l E Q := by
  cases h with
  | refused hx hnotes hd => exact .refused (bind_error hx) hnotes hd
  | found hx hnotes hleads ha => exact .bind_of_ok hx hnotes hleads (hf _ _ hleads ha)

/-- Looking at a token ends with the complaint where scanning has failed. -/
theorem look_broken {f : Token → Pull β} (h : l.stream = .broken d) (hd : E d) :
    (look >>= f).Ends l E Q := by
  have hlook : look l = some ⟨.error d, l.peek.2, []⟩ := by
    rw [look, l.peek_eq_next, Lexer.next_of_broken h]
  exact .refused (bind_error hlook) (List.forall_mem_nil _) hd

/-- What was looked at is in the slot from then on. -/
theorem look {f : Token → Pull β} (h : l.next.1 = .ok t)
    (hf : ∀ l', l'.ahead = some t → l'.stream = l.stream → (f t).Ends l' E Q) :
    (look >>= f).Ends l E Q := by
  have hlook : Pull.look l = some ⟨.ok t, l.peek.2, []⟩ := by
    rw [Pull.look, l.peek_eq_next, h]
  exact .bind_of_ok hlook (List.forall_mem_nil _) l.leadsTo_peek (hf _ (Lexer.ahead_peek h) l.stream_peek)

/-- Asking for the end ends with the complaint where scanning has failed. -/
theorem atEnd_broken {f : Bool → Pull β} (h : l.stream = .broken d) (hd : E d) :
    (atEnd >>= f).Ends l E Q := by
  have hend : atEnd l = some ⟨.error d, l.peek.2, []⟩ := by
    simp only [atEnd, Lexer.atEnd, l.peek_eq_next, Lexer.next_of_broken h]
    rfl
  exact .refused (bind_error hend) (List.forall_mem_nil _) hd

/-- Asking for the end goes on with whether the next token stands for it, and takes nothing. -/
theorem atEnd {f : Bool → Pull β} (h : l.next.1 = .ok t)
    (hf : ∀ l', l'.stream = l.stream → (f (t.kind = .endOfInput)).Ends l' E Q) :
    (Pull.atEnd >>= f).Ends l E Q := by
  have hend : Pull.atEnd l = some ⟨.ok (t.kind = .endOfInput), l.peek.2, []⟩ := by
    simp only [Pull.atEnd, Lexer.atEnd, l.peek_eq_next, h]
    rfl
  exact .bind_of_ok hend (List.forall_mem_nil _) l.leadsTo_peek (hf _ l.stream_peek)

/-- A glance shows the token that the stream starts with. -/
theorem glance {f : Token → Pull β} (hf : ∀ t l', l'.stream = l.stream →
    (∀ u s, l.stream = .token u s → u = t) → (f t).Ends l' E Q) : (Pull.glance >>= f).Ends l E Q := by
  refine .bind_of_ok rfl (List.forall_mem_nil _) l.leadsTo_peek (hf _ _ l.stream_peek fun u s hs => ?_)
  rw [l.peek_eq_next, (Lexer.next_of_token hs).1]
  rfl

/-- Passing over a token that is in the slot. -/
theorem pass (hahead : l.ahead = some t) (hs : l.stream = .token t s) :
    Pull.pass.Ends l E fun _ l' => l'.stream = s := by
  refine .found rfl (List.forall_mem_singleton.mpr ?_) (Lexer.leadsTo_next hs) (Lexer.next_of_token hs).2.2
  simp only [Note.Holds, hahead, Option.isSome_some]

/-- Passing over what is in the slot, whatever it is, before an error. It may be an end of the source with more
behind the cursor, so nothing is said of what is left. -/
theorem pass_fail (hahead : l.ahead = some t) (hd : E d) :
    (Pull.pass >>= fun _ => Pull.fail d).Ends l E Q := by
  refine .refused rfl (List.forall_mem_singleton.mpr ?_) hd
  simp only [Note.Holds, hahead, Option.isSome_some]

/-- Taking a token ends with the complaint where scanning has failed. -/
theorem take_broken {f : Token → Pull β} (h : l.stream = .broken d) (hd : E d) :
    (take >>= f).Ends l E Q := by
  have htake : take l = some ⟨.error d, l.next.2, []⟩ := by
    rw [take, Lexer.next_of_broken h]
  exact .refused (bind_error htake) (List.forall_mem_nil _) hd

/-- Taking a token goes on with it, behind it. -/
theorem take_token {f : Token → Pull β} (hs : l.stream = .token t s)
    (hf : ∀ l', l'.stream = s → (f t).Ends l' E Q) : (take >>= f).Ends l E Q := by
  obtain ⟨hnext, _, hrest⟩ := Lexer.next_of_token hs
  have htake : take l = some ⟨.ok t, l.next.2, []⟩ := by
    rw [take, hnext]
  exact .bind_of_ok htake (List.forall_mem_nil _) (Lexer.leadsTo_next hs) (hf _ hrest)

/-- Taking what comes next, whatever it is, before an error. -/
theorem take_fail {f : Token → Pull β} (hnext : l.next.1 = .ok t) (hf : f t = Pull.fail d) (hd : E d) :
    (take >>= f).Ends l E Q := by
  have htake : take l = some ⟨.ok t, l.next.2, []⟩ := by
    rw [take, hnext]
  have hbind : (take >>= f) l = some ⟨.error d, l.next.2, []⟩ := by
    rw [bind_ok htake, hf]
    rfl
  exact .refused hbind (List.forall_mem_nil _) hd

/-- A loop ends if every round keeps an invariant and leads to another one only with fewer tokens. -/
theorem loop {round : σ → Pull (Turn σ α)} {I : σ → Lexer → Prop} {rounds : Nat} {state : σ}
    (hround : ∀ state l', l'.stream.size ≤ l.stream.size → I state l' →
      (round state).Ends l' E (Turn.Advances I P l'))
    (hrounds : l.stream.size < rounds) (hstate : I state l) :
    (Pull.loop round rounds state).Ends l E P := by
  induction rounds generalizing l state with
  | zero => exact absurd hrounds (Nat.not_lt_zero _)
  | succ rounds ih =>
    refine .bind_of_ok rfl (List.forall_mem_nil _) (.refl _) ?_
    refine .bind (hround state l le_rfl hstate) fun turn l' hleads hturn => ?_
    cases turn with
    | done a => exact .pure hturn
    | again state' =>
      obtain ⟨hinv, hlt⟩ := hturn
      refine .bind_of_ok rfl (List.forall_mem_singleton.mpr (hleads.consumes hlt)) (.refl _) ?_
      refine ih (fun state l'' hle => hround state l'' (hle.trans hlt.le)) ?_ hinv
      exact Nat.lt_of_lt_of_le hlt (Nat.le_of_lt_succ hrounds)

end Ends

end Pull

end Ends

end StuffScript
