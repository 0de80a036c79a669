import StuffScript.Proofs.Layout

/-!
# Looking ahead

A lexer can be asked for the next token, or be asked to show it, or be asked whether it is the end, in any
order. Looking fills a slot and moves the cursor, and where no token can be read it moves the cursor past a
gap and fills nothing. None of this can be told from what `next` gives: two lexers that agree on `next`
agree on everything that is ever asked of them.

The main statement is `lookahead_invisible`. It also says that a lexical error comes again and again, and so
does the token for the end of the source.
-/

namespace StuffScript

section Rereading

/-- A result of reading behind which there is nothing to read: a diagnostic, or the end of the source. -/
def Final : Except Diagnostic Token → Prop
  | .ok t => t.kind = .endOfInput
  | .error _ => True

/-- A final result leaves the cursor behind the gap. -/
theorem Cursor.readToken_final {c : Cursor} (h : Final c.readToken.1) : c.readToken.2 = c.skipGap := by
  simp only [Cursor.readToken] at h ⊢
  split at h
  · rfl
  · split at h
    · next hfirst => exact absurd h (firstPiece?_spelled hfirst).kind_ne_endOfInput
    · rfl

/-- What is final is read again from where it leaves the cursor. -/
theorem Cursor.readToken_again {c : Cursor} (h : Final c.readToken.1) :
    c.readToken.2.readToken = c.readToken := by
  rw [Cursor.readToken_final h, Cursor.readToken_skipGap]

end Rereading

namespace Lexer

/-- What can be asked of a lexer. -/
inductive Request where
  | next
  | peek
  | atEnd
deriving DecidableEq, Repr

/-- What a lexer replies: a token, or whether it is at the end. -/
inductive Reply where
  | token (t : Token)
  | ended (b : Bool)
deriving DecidableEq, Repr

/-- The answer to a request. -/
def answer (l : Lexer) : Request → Except Diagnostic Reply
  | .next => l.next.1.map .token
  | .peek => l.peek.1.map .token
  | .atEnd => l.atEnd.1.map .ended

/-- The lexer after a request. -/
def asked (l : Lexer) : Request → Lexer
  | .next => l.next.2
  | .peek => l.peek.2
  | .atEnd => l.atEnd.2

/-- The lexer after some requests, one after another. -/
def after (l : Lexer) (requests : List Request) : Lexer := requests.foldl asked l

/-- What the requests for the next token give, among some requests. -/
def taken (l : Lexer) : List Request → List (Except Diagnostic Token)
  | [] => []
  | .next :: requests => l.next.1 :: l.next.2.taken requests
  | .peek :: requests => l.peek.2.taken requests
  | .atEnd :: requests => l.atEnd.2.taken requests

/-- Requests after others are made of the lexer that those leave. -/
theorem after_append (l : Lexer) (requests more : List Request) :
    l.after (requests ++ more) = (l.after requests).after more := List.foldl_append

section Peeking

/-- What is shown is what comes next. -/
theorem peek_eq_next (l : Lexer) : l.peek.1 = l.next.1 := by
  obtain ⟨c, ahead⟩ := l
  cases ahead with
  | some t => rfl
  | none =>
    simp only [peek, next]
    rcases c.readToken with ⟨_ | _, c'⟩ <;> rfl

/-- Looking does not change what comes next, nor what comes after that. -/
theorem next_after_peek (l : Lexer) : l.peek.2.next = l.next := by
  obtain ⟨c, ahead⟩ := l
  cases ahead with
  | some t => rfl
  | none =>
    have hagain := c.readToken_again
    simp only [peek, next]
    revert hagain
    rcases c.readToken with ⟨d | t, c'⟩
    · -- Nothing was put into the slot, so the token is read once more.
      intro hagain
      simp only [hagain trivial]
    · exact fun _ => rfl

end Peeking

/-- How a request puts what comes next. -/
def Request.reply : Request → Token → Reply
  | .next, t => .token t
  | .peek, t => .token t
  | .atEnd, t => .ended (t.kind = .endOfInput)

/-- Every answer tells of what comes next. -/
theorem answer_eq (l : Lexer) (r : Request) : l.answer r = l.next.1.map r.reply := by
  cases r with
  | next => rfl
  | peek => exact congrArg (Except.map _) l.peek_eq_next
  | atEnd =>
    show (l.peek.1.map _).map _ = _
    rw [l.peek_eq_next]
    cases l.next.1 <;> rfl

/-- Only a request for the next token changes what comes next. -/
theorem next_asked (l : Lexer) {r : Request} (h : r ≠ .next) : (l.asked r).next = l.next := by
  cases r with
  | next => exact absurd rfl h
  | peek => exact l.next_after_peek
  | atEnd => exact l.next_after_peek

/-- Requests that only look ahead do not change what comes next. -/
theorem next_after (l : Lexer) {requests : List Request} (h : .next ∉ requests) :
    (l.after requests).next = l.next := by
  induction requests generalizing l with
  | nil => rfl
  | cons r requests ih =>
    simp only [List.mem_cons, not_or] at h
    calc ((l.asked r).after requests).next
      _ = (l.asked r).next := ih (l.asked r) h.2
      _ = l.next := l.next_asked (Ne.symm h.1)

/-- Lexers that agree on what comes next give the same tokens, also if other requests are left out. -/
theorem taken_eq {l l' : Lexer} (h : l.next = l'.next) (requests : List Request) :
    l.taken requests = l'.taken (requests.filter (· = .next)) := by
  induction requests generalizing l l' with
  | nil => rfl
  | cons r requests ih =>
    cases r with
    | next =>
      show l.next.1 :: l.next.2.taken requests = l'.next.1 :: l'.next.2.taken _
      rw [h, ih rfl]
    | peek => exact ih (l.next_after_peek.trans h)
    | atEnd => exact ih (l.next_after_peek.trans h)

/-- What comes next is what is read from a place in the source, and the slot is empty after it. -/
def ReadsFrom (l : Lexer) (c : Cursor) : Prop := l.next = Lexer.next ⟨c, none⟩

/-- After a request the lexer still reads from some place in the source. -/
theorem ReadsFrom.asked {l : Lexer} {c : Cursor} (h : l.ReadsFrom c) (r : Request) :
    ∃ c', (l.asked r).ReadsFrom c' := by
  by_cases hr : r = .next
  · subst hr
    refine ⟨c.readToken.2, ?_⟩
    show l.next.2.next = _
    rw [h]
    rfl
  · exact ⟨c, (l.next_asked hr).trans h⟩

/-- After any requests the lexer still reads from some place in the source. -/
theorem ReadsFrom.after {l : Lexer} {c : Cursor} (h : l.ReadsFrom c) (requests : List Request) :
    ∃ c', (l.after requests).ReadsFrom c' := by
  induction requests generalizing l c with
  | nil => exact ⟨c, h⟩
  | cons r requests ih =>
    obtain ⟨c', h'⟩ := h.asked r
    exact ih h'

/-- From now on the same comes next again and again. -/
def Settled (l : Lexer) : Prop := l.next.2.next = l.next

/-- A lexer is settled where what comes next is final. -/
theorem ReadsFrom.settled {l : Lexer} {c : Cursor} (h : l.ReadsFrom c) (hfinal : Final l.next.1) :
    l.Settled := by
  unfold Settled
  rw [h] at hfinal ⊢
  have hagain := Cursor.readToken_again hfinal
  simp only [next, hagain]

/-- A settled lexer has the same to give after any request. -/
theorem Settled.next_asked {l : Lexer} (h : l.Settled) (r : Request) : (l.asked r).next = l.next := by
  by_cases hr : r = .next
  · subst hr
    exact h
  · exact l.next_asked hr

/-- Nothing that is asked of a settled lexer changes what comes next. -/
theorem Settled.next_after {l : Lexer} (h : l.Settled) (requests : List Request) :
    (l.after requests).next = l.next := by
  induction requests generalizing l with
  | nil => rfl
  | cons r requests ih =>
    have hnext := h.next_asked r
    have hsettled : (l.asked r).Settled := by
      unfold Settled
      rw [hnext]
      exact h
    exact (ih hsettled).trans hnext

/-- Where a final result is met, every later answer tells of it. -/
theorem ReadsFrom.answer_later {l : Lexer} {c : Cursor} (h : l.ReadsFrom c) (hfinal : Final l.next.1)
    (requests : List Request) (r : Request) :
    (l.after requests).answer r = l.next.1.map r.reply := by
  rw [answer_eq, (h.settled hfinal).next_after]

/-- A complaint in reply to any request is what comes next. -/
theorem next_of_answer_error {l : Lexer} {r : Request} {d : Diagnostic} (h : l.answer r = .error d) :
    l.next.1 = .error d := by
  rw [answer_eq] at h
  cases hnext : l.next.1 with
  | ok t =>
    rw [hnext] at h
    cases h
  | error d' =>
    rw [hnext] at h
    cases h
    rfl

/-- A token in reply to any request is what comes next. -/
theorem next_of_answer_token {l : Lexer} {r : Request} {t : Token} (h : l.answer r = .ok (.token t)) :
    l.next.1 = .ok t := by
  rw [answer_eq] at h
  cases hnext : l.next.1 with
  | error d =>
    rw [hnext] at h
    cases h
  | ok u =>
    rw [hnext] at h
    cases r <;> cases h <;> rfl

/-- What a lexer complains about is lexical. -/
theorem ReadsFrom.error_kind {l : Lexer} {c : Cursor} (h : l.ReadsFrom c) {d : Diagnostic}
    (hd : l.next.1 = .error d) : d.kind = .lexical := by
  have hread : c.readToken.1 = .error d := by
    rw [h] at hd
    exact hd
  exact Cursor.readToken_error_kind (Prod.ext hread rfl : c.readToken = (.error d, c.readToken.2))

end Lexer

/-- **Looking ahead is invisible, and errors are sticky.** Whatever is asked of a lexer in whatever order, the
requests for the next token give what they give when nothing else is asked. What is shown is what the next
request for a token gives, and a lexer is at the end just when that is the token for the end. Once an answer
is an error, which is a lexical one, every later answer is that error. Once an answer is the token for the
end, every later answer that is a token is that token. -/
theorem lookahead_invisible (source : String) (before : List Lexer.Request) :
    let l := Lexer.ofString source
    l.taken before = l.taken (before.filter (· = .next)) ∧
    (∀ between, .next ∉ between →
      (l.after before).peek.1 = (l.after (before ++ .peek :: between)).next.1 ∧
      (l.after before).atEnd.1 = (l.after (before ++ .atEnd :: between)).next.1.map
        fun t => decide (t.kind = .endOfInput)) ∧
    (∀ r d, (l.after before).answer r = .error d → d.kind = .lexical ∧
      ∀ later r', (l.after (before ++ r :: later)).answer r' = .error d) ∧
    ∀ r t, (l.after before).answer r = .ok (.token t) → t.kind = .endOfInput →
      ∀ later r', r' ≠ .atEnd → (l.after (before ++ r :: later)).answer r' = .ok (.token t) := by
  intro l
  obtain ⟨c, hc⟩ : ∃ c, (l.after before).ReadsFrom c :=
    Lexer.ReadsFrom.after (c := .ofString source) rfl before
  refine ⟨Lexer.taken_eq rfl before, fun between hbetween => ?_, fun r d hd => ?_,
    fun r t ht hlast => ?_⟩
  · have hnext (r : Lexer.Request) (hr : r ≠ .next) :
        (l.after (before ++ r :: between)).next = (l.after before).next := by
      rw [Lexer.after_append]
      exact Lexer.next_after _ (by simp [hbetween, hr.symm])
    rw [hnext .peek (by decide), hnext .atEnd (by decide)]
    refine ⟨Lexer.peek_eq_next _, ?_⟩
    rw [← Lexer.peek_eq_next]
    rfl
  · have hnext := Lexer.next_of_answer_error hd
    have hfinal : Final (l.after before).next.1 := by
      rw [hnext]
      trivial
    refine ⟨hc.error_kind hnext, fun later r' => ?_⟩
    rw [Lexer.after_append, hc.answer_later hfinal, hnext]
    rfl
  · have hnext := Lexer.next_of_answer_token ht
    have hfinal : Final (l.after before).next.1 := by
      rw [hnext]
      exact hlast
    intro later r' hr'
    rw [Lexer.after_append, hc.answer_later hfinal, hnext]
    cases r' with
    | atEnd => exact absurd rfl hr'
    | _ => rfl

/-- Behind a name a bad character is met by looking for the end, and is the answer from then on. Behind a
name with a comment the end is shown, and is the next token as often as it is asked for. -/
theorem lookahead_invisible_stuck :
    (let l := Lexer.ofString "a ?"
     let d := (Complaint.badCharacter '?').located ⟨1, 2⟩
     (l.after [.peek, .next]).answer .atEnd = .error d ∧
     ∀ later r, (l.after ([.peek, .next] ++ .atEnd :: later)).answer r = .error d) ∧
    (let l := Lexer.ofString "a ~ b"
     let t : Token := ⟨.endOfInput, "", ⟨1, 6⟩⟩
     .next ∉ [Lexer.Request.peek, .atEnd] ∧ (l.after [.next]).peek.1 = .ok t ∧
     (l.after [.next, .peek, .peek, .atEnd]).next.1 = .ok t ∧
     (l.after [.next]).answer .peek = .ok (.token t) ∧
     ∀ later, (l.after ([.next] ++ .peek :: later)).answer .next = .ok (.token t)) := by
  have hbad : ((Lexer.ofString "a ?").after [.peek, .next]).answer .atEnd =
      .error ((Complaint.badCharacter '?').located ⟨1, 2⟩) := by rfl
  have hshown : ((Lexer.ofString "a ~ b").after [.next]).peek.1 = .ok ⟨.endOfInput, "", ⟨1, 6⟩⟩ := by rfl
  have hend : ((Lexer.ofString "a ~ b").after [.next]).answer .peek =
      .ok (.token ⟨.endOfInput, "", ⟨1, 6⟩⟩) := by rfl
  have hbetween : Lexer.Request.next ∉ [Lexer.Request.peek, .atEnd] := by decide
  obtain ⟨-, -, hsticky, -⟩ := lookahead_invisible "a ?" [.peek, .next]
  obtain ⟨-, hpeek, -, hended⟩ := lookahead_invisible "a ~ b" [.next]
  refine ⟨⟨hbad, (hsticky _ _ hbad).2⟩, hbetween, hshown, ?_, hend, fun later => ?_⟩
  · rw [← hshown]
    exact (hpeek [.peek, .atEnd] hbetween).1.symm
  · exact hended _ _ hend rfl later .next (by decide)

end StuffScript
