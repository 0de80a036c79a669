import StuffScript.Proofs.Lookahead
import StuffScript.Proofs.Places
import Mathlib.Data.List.Induction

/-!
# Positions counted from offsets

Positions are kept up to date character by character, through gaps, comments and string literals that run
over several lines. What they come to can be counted in the source at once: the line is told by the line
ends before an offset, and the column by the characters behind the last of them. A token has the position
of its first character. The diagnostic for a bad character has the position of the reader, who has not come
to that character yet, so its column is one less.

Where tokens start is told by `Marked`, which knows gaps and spellings but no positions. The main statement
is `positions_exact`, about everything that a lexer ever gives.
-/

namespace StuffScript

section Counting

/-- The line at an offset: one more than there are line ends before it. -/
def lineAt (cs : List Char) (k : Nat) : Nat := 1 + (cs.take k).count '\n'

/-- The column at an offset: one more than there are characters before it on its line. -/
def columnAt (cs : List Char) (k : Nat) : Nat :=
  1 + ((cs.take k).reverse.takeWhile (· ≠ '\n')).length

/-- The position at an offset. -/
def placeAt (cs : List Char) (k : Nat) : Position := ⟨lineAt cs k, columnAt cs k⟩

/-- The position that a reader has come to before an offset. -/
def reachedAt (cs : List Char) (k : Nat) : Position := ⟨lineAt cs k, columnAt cs k - 1⟩

/-- Reading on from the start counts lines, and columns from the last line end. -/
theorem Position.afterAll_start (passed : List Char) :
    Position.start.afterAll passed =
      ⟨1 + passed.count '\n', (passed.reverse.takeWhile (· ≠ '\n')).length⟩ := by
  induction passed using List.reverseRecOn with
  | nil => rfl
  | append_singleton passed c ih =>
    rw [Position.afterAll_append, ih, Position.afterAll_cons, Position.afterAll_nil, Position.after]
    by_cases hc : c = '\n'
    · subst hc
      simp [List.count_append, Int.add_assoc]
    · simp [List.count_append, hc]

/-- The reader has come to the end of what was passed. -/
theorem reachedAt_append (passed cs : List Char) :
    reachedAt (passed ++ cs) passed.length = Position.start.afterAll passed := by
  rw [Position.afterAll_start, reachedAt, lineAt, columnAt, List.take_left]
  congr 1
  omega

/-- What follows has the position behind what was passed. -/
theorem placeAt_append (passed cs : List Char) :
    placeAt (passed ++ cs) passed.length = (Position.start.afterAll passed).next := by
  rw [Position.afterAll_start, placeAt, lineAt, columnAt, List.take_left, Position.next]
  simp [Int.add_comm]

/-- Positions come one behind the other as offsets do. -/
theorem placeAt_before {cs : List Char} {k k' : Nat} (hlt : k < k') (hle : k' ≤ cs.length) :
    (placeAt cs k).Before (placeAt cs k') := by
  obtain ⟨passed, rest, rfl, rfl⟩ : ∃ passed rest, passed ++ rest = cs ∧ passed.length = k' :=
    ⟨cs.take k', cs.drop k', List.take_append_drop k' cs, by simp [hle]⟩
  obtain ⟨first, more, rfl, rfl⟩ : ∃ first more, first ++ more = passed ∧ first.length = k :=
    ⟨passed.take k, passed.drop k, List.take_append_drop k passed, by simp [Nat.le_of_lt hlt]⟩
  have hmore : more ≠ [] := by
    rintro rfl
    simp at hlt
  rw [placeAt_append, List.append_assoc, placeAt_append, Position.afterAll_append]
  exact (Position.before_afterAll _ hmore).next

end Counting

section Marks

/-- Marks lie one behind the other between the start of the text and what is left unread. -/
theorem Marked.increasing {k stop : Nat} {cs unread : List Char} {marks : List (Nat × TokenKind × String)}
    (h : Marked k cs marks stop unread) :
    k ≤ stop ∧ stop + unread.length = k + cs.length ∧ (∀ m ∈ marks, k ≤ m.1 ∧ m.1 < stop) ∧
      marks.Pairwise fun m m' => m.1 < m'.1 := by
  induction h with
  | stop k _ _ _ => simp [Nat.add_assoc]
  | @token k stop gap raw rest unread kind lexeme marks _ hraw _ ih =>
    obtain ⟨hle, hstop, hbetween, hordered⟩ := ih
    have hpos : 0 < raw.length := List.length_pos_iff.mpr (firstPiece?_raw_ne_nil hraw.firstPiece?_eq)
    refine ⟨by omega, ?_, ?_, List.pairwise_cons.mpr ⟨?_, hordered⟩⟩
    · simp only [List.length_append]
      omega
    · intro m hm
      rcases List.mem_cons.mp hm with rfl | hm
      · exact ⟨Nat.le_add_right _ _, by omega⟩
      · have hm := hbetween m hm
        omega
    · intro m hm
      have hm := hbetween m hm
      omega

/-- At each mark stands a text that spells its token, and behind them what is left unread. -/
theorem Marked.spelled (passed : List Char) {cs unread : List Char} {stop : Nat}
    {marks : List (Nat × TokenKind × String)}
    (h : Marked passed.length cs marks stop unread) :
    (∀ m ∈ marks, ∃ raw rest, (passed ++ cs).drop m.1 = raw ++ rest ∧ Spelled m.2.1 m.2.2 raw rest) ∧
      (passed ++ cs).drop stop = unread := by
  generalize hk : passed.length = k at h
  induction h generalizing passed with
  | @stop k gap unread _ _ _ =>
    constructor
    · exact List.forall_mem_nil _
    · rw [← List.append_assoc, List.drop_left']
      simp [hk]
  | @token k stop gap raw rest unread kind lexeme marks _ hraw _ ih =>
    have hlength : (passed ++ (gap ++ raw)).length = k + gap.length + raw.length := by
      simp [hk, Nat.add_assoc]
    have hmore := ih _ hlength
    simp only [List.append_assoc] at hmore
    refine ⟨List.forall_mem_cons.mpr ⟨⟨raw, rest, ?_, hraw⟩, hmore.1⟩, hmore.2⟩
    rw [← List.append_assoc, List.drop_left']
    simp [hk]

end Marks

section Reading

/-- What is read behind all tokens of a source: the end, or a diagnostic for the character there. -/
def readingBehind (cs : List Char) (stop : Nat) : List Char → Except Diagnostic Token
  | [] => .ok ⟨.endOfInput, "", placeAt cs stop⟩
  | c :: _ => .error ((Complaint.badCharacter c).located (reachedAt cs stop))

/-- What is read after so many tokens, told from the marks of a source. -/
def readingAt (cs : List Char) (marks : List (Nat × TokenKind × String)) (stop : Nat) (unread : List Char)
    (i : Nat) : Except Diagnostic Token :=
  match marks[i]? with
  | some (k, kind, lexeme) => .ok ⟨kind, lexeme, placeAt cs k⟩
  | none => readingBehind cs stop unread

/-- The first token marked is read first. -/
theorem readingAt_zero (cs : List Char) (k : Nat) (kind : TokenKind) (lexeme : String)
    (marks : List (Nat × TokenKind × String)) (stop : Nat) (unread : List Char) :
    readingAt cs ((k, kind, lexeme) :: marks) stop unread 0 = .ok ⟨kind, lexeme, placeAt cs k⟩ := rfl

/-- Each token read leaves the marks behind it. -/
theorem readingAt_succ (cs : List Char) (m : Nat × TokenKind × String)
    (marks : List (Nat × TokenKind × String)) (stop : Nat) (unread : List Char) (i : Nat) :
    readingAt cs (m :: marks) stop unread (i + 1) = readingAt cs marks stop unread i := rfl

/-- What is read from a place in a source after so many tokens. -/
def Cursor.nth (c : Cursor) : Nat → Except Diagnostic Token
  | 0 => c.readToken.1
  | i + 1 => c.readToken.2.nth i

/-- What is final is read again and again. -/
theorem Cursor.nth_final {c : Cursor} (h : Final c.readToken.1) (i : Nat) : c.nth i = c.readToken.1 := by
  induction i generalizing c with
  | zero => rfl
  | succ i ih =>
    have hagain := Cursor.readToken_again h
    rw [Cursor.nth, ih (by rwa [hagain]), hagain]

/-- From a place in a source, the marked tokens are read one after another. -/
theorem Marked.nth_eq (passed : List Char) {cs unread : List Char} {stop : Nat}
    {marks : List (Nat × TokenKind × String)} (h : Marked passed.length cs marks stop unread) (i : Nat) :
    Cursor.nth ⟨cs, Position.start.afterAll passed⟩ i = readingAt (passed ++ cs) marks stop unread i := by
  generalize hk : passed.length = k at h
  induction h generalizing passed i with
  | @stop k gap unread hgap hpast hstarts =>
    have hstop : k + gap.length = (passed ++ gap).length := by simp [hk]
    simp only [readingAt, List.getElem?_nil]
    rw [hstop, ← List.append_assoc]
    cases unread with
    | nil =>
      have hread := readToken_end hgap (Position.start.afterAll passed)
      rw [List.append_nil, Cursor.nth_final (by rw [hread]; rfl), hread, readingBehind, placeAt_append,
        Position.afterAll_append]
    | cons c rest =>
      have hread := readToken_bad hgap hpast (hstarts c rfl) (Position.start.afterAll passed)
      rw [Cursor.nth_final (by rw [hread]; trivial), hread, readingBehind, reachedAt_append,
        Position.afterAll_append]
  | @token k stop gap raw rest unread kind lexeme marks hgap hraw _ ih =>
    have hread := readToken_spelled hgap hraw (Position.start.afterAll passed)
    cases i with
    | zero =>
      have hstart : k + gap.length = (passed ++ gap).length := by simp [hk]
      have hplace := placeAt_append (passed ++ gap) (raw ++ rest)
      rw [List.append_assoc, ← hstart, Position.afterAll_append] at hplace
      rw [Cursor.nth, hread, readingAt_zero, hplace]
    | succ i =>
      have hlength : (passed ++ (gap ++ raw)).length = k + gap.length + raw.length := by
        simp [hk, Nat.add_assoc]
      have hnext := ih _ i hlength
      rw [Position.afterAll_append, List.append_assoc, List.append_assoc] at hnext
      rw [Cursor.nth, hread, hnext, readingAt_succ]

end Reading

section Answers

/-- After a token is taken, a lexer reads from behind it. -/
theorem Lexer.ReadsFrom.taken {l : Lexer} {c : Cursor} (h : l.ReadsFrom c) :
    l.next.2.ReadsFrom c.readToken.2 := by
  unfold Lexer.ReadsFrom at *
  rw [h]
  rfl

/-- Whatever else is asked, the next token is the one behind those that were taken. -/
theorem Lexer.ReadsFrom.next_eq {l : Lexer} {c : Cursor} (h : l.ReadsFrom c)
    (requests : List Lexer.Request) :
    (l.after requests).next.1 = c.nth (requests.count .next) := by
  induction requests generalizing l c with
  | nil => exact congrArg Prod.fst h
  | cons r requests ih =>
    by_cases hr : r = .next
    · subst hr
      rw [List.count_cons_self]
      exact ih h.taken
    · rw [List.count_cons_of_ne hr]
      exact ih ((l.next_asked hr).trans h)

/-- The next token of a source is told from its marks. -/
theorem Marked.next_eq {source : String} {stop : Nat} {unread : List Char}
    {marks : List (Nat × TokenKind × String)} (h : Marked 0 source.toList marks stop unread)
    (requests : List Lexer.Request) :
    ((Lexer.ofString source).after requests).next.1 =
      readingAt source.toList marks stop unread (requests.count .next) := by
  have hreads : (Lexer.ofString source).ReadsFrom (.ofString source) := rfl
  rw [hreads.next_eq requests]
  exact Marked.nth_eq [] h _

/-- A reading that is a token is a marked one, or the end behind all of them. -/
theorem readingAt_ok {cs unread : List Char} {marks : List (Nat × TokenKind × String)} {stop i : Nat}
    {t : Token} (h : readingAt cs marks stop unread i = .ok t) :
    (∃ k, marks[i]? = some (k, t.kind, t.lexeme) ∧ t.position = placeAt cs k) ∨
      (marks.length ≤ i ∧ unread = [] ∧ t = ⟨.endOfInput, "", placeAt cs stop⟩) := by
  unfold readingAt at h
  split at h
  · next k kind lexeme hmark =>
    cases h
    exact .inl ⟨k, hmark, rfl⟩
  · next hmark =>
    cases unread with
    | nil =>
      cases h
      exact .inr ⟨List.getElem?_eq_none_iff.mp hmark, rfl, rfl⟩
    | cons c rest => cases h

/-- A reading that is an error is about the character behind all marked tokens. -/
theorem readingAt_error {cs unread : List Char} {marks : List (Nat × TokenKind × String)} {stop i : Nat}
    {d : Diagnostic} (h : readingAt cs marks stop unread i = .error d) :
    marks.length ≤ i ∧ ∃ c ∈ unread.head?, d = (Complaint.badCharacter c).located (reachedAt cs stop) := by
  unfold readingAt at h
  split at h
  · cases h
  · next hmark =>
    cases unread with
    | nil => cases h
    | cons c rest =>
      cases h
      exact ⟨List.getElem?_eq_none_iff.mp hmark, c, rfl, rfl⟩

/-- A reading that is a token, but not the end, stands before every later one. -/
theorem Marked.readingAt_before {cs unread : List Char} {marks : List (Nat × TokenKind × String)}
    {stop i j : Nat} {t t' : Token} (h : Marked 0 cs marks stop unread)
    (ht : readingAt cs marks stop unread i = .ok t) (hkind : t.kind ≠ .endOfInput) (hij : i < j)
    (ht' : readingAt cs marks stop unread j = .ok t') : t.position.Before t'.position := by
  obtain ⟨-, hstop, hbetween, hordered⟩ := h.increasing
  obtain ⟨k, hk, hplace⟩ | ⟨-, -, rfl⟩ := readingAt_ok ht
  · have hlt : k < stop := (hbetween _ (List.mem_of_getElem? hk)).2
    obtain ⟨k', hk', hplace'⟩ | ⟨-, -, rfl⟩ := readingAt_ok ht'
    · have hlt' : k' < stop := (hbetween _ (List.mem_of_getElem? hk')).2
      obtain ⟨hi, hki⟩ := List.getElem?_eq_some_iff.mp hk
      obtain ⟨hj, hkj⟩ := List.getElem?_eq_some_iff.mp hk'
      have hless := List.pairwise_iff_getElem.mp hordered i j hi hj hij
      rw [hki, hkj] at hless
      rw [hplace, hplace']
      exact placeAt_before hless (by omega)
    · rw [hplace]
      exact placeAt_before hlt (by omega)
  · exact absurd rfl hkind

end Answers

/-- **Positions are exact.** The tokens of a source can be marked in one way. Whatever is asked of a lexer, a
token that it gives is the one behind those taken before, and its position is that of its first character:
its line is one more than there are line ends before it, and its column one more than there are characters
before it on its line. The token for the end has the position at the end of the source. A token that is not
the end stands before every token that comes later. The diagnostic for a character that starts no token has
its line, and the column before it. -/
theorem positions_exact (source : String) : ∃ marks stop unread,
    (∀ marks' stop' unread', Marked 0 source.toList marks' stop' unread' ↔
      marks' = marks ∧ stop' = stop ∧ unread' = unread) ∧
    ∀ requests r, let l := (Lexer.ofString source).after requests
      (∀ t, l.answer r = .ok (.token t) →
        (∃ k raw rest, marks[requests.count .next]? = some (k, t.kind, t.lexeme) ∧
          source.toList.drop k = raw ++ rest ∧ Spelled t.kind t.lexeme raw rest ∧
          t.position = ⟨lineAt source.toList k, columnAt source.toList k⟩) ∨
        (marks.length ≤ requests.count .next ∧ t.kind = .endOfInput ∧
          let k := source.toList.length
          t.position = ⟨lineAt source.toList k, columnAt source.toList k⟩)) ∧
      (∀ t, l.answer r = .ok (.token t) → t.kind ≠ .endOfInput → ∀ later r' t',
        requests.count .next < later.count .next →
        ((Lexer.ofString source).after later).answer r' = .ok (.token t') →
        t.position.Before t'.position) ∧
      (∀ d, l.answer r = .error d → marks.length ≤ requests.count .next ∧
        ∃ c, source.toList[stop]? = some c ∧ ¬ StartsToken c ∧ d = (Complaint.badCharacter c).located
          ⟨lineAt source.toList stop, columnAt source.toList stop - 1⟩) := by
  obtain ⟨tokens, unread, hlayout⟩ := exists_layout source.toList
  obtain ⟨marks, stop, hmarked, -⟩ := hlayout.marked 0
  have hread (requests : List Lexer.Request) (r : Lexer.Request) (t : Token)
      (h : ((Lexer.ofString source).after requests).answer r = .ok (.token t)) :
      readingAt source.toList marks stop unread (requests.count .next) = .ok t :=
    (hmarked.next_eq requests).symm.trans (Lexer.next_of_answer_token h)
  obtain ⟨hspelled, hunread⟩ := Marked.spelled [] hmarked
  have hlength : stop + unread.length = source.toList.length := by
    simpa using hmarked.increasing.2.1
  refine ⟨marks, stop, unread, fun marks' stop' unread' => ⟨hmarked.unique, ?_⟩,
    fun requests r => ⟨fun t ht => ?_, fun t ht hkind later r' t' hlater ht' => ?_, fun d hd => ?_⟩⟩
  · rintro ⟨rfl, rfl, rfl⟩
    exact hmarked
  · obtain ⟨k, hk, hplace⟩ | ⟨hle, rfl, rfl⟩ := readingAt_ok (hread requests r t ht)
    · obtain ⟨raw, rest, hdrop, hraw⟩ := hspelled _ (List.mem_of_getElem? hk)
      exact .inl ⟨k, raw, rest, hk, hdrop, hraw, hplace⟩
    · refine .inr ⟨hle, rfl, ?_⟩
      rw [← hlength]
      rfl
  · exact hmarked.readingAt_before (hread requests r t ht) hkind hlater (hread later r' t' ht')
  · have hnext := (hmarked.next_eq requests).symm.trans (Lexer.next_of_answer_error hd)
    obtain ⟨hle, c, hc, rfl⟩ := readingAt_error hnext
    refine ⟨hle, c, ?_, hlayout.unread_starts c hc, rfl⟩
    rw [← hunread, List.nil_append, List.head?_drop] at hc
    exact hc

/-- A string literal runs over a line end, a name follows it, and then a character that starts no token.
The literal stands at its quote, the name is on the next line, and the diagnostic is a column short. -/
theorem positions_exact_multiline :
    let source := "\"a\n\"c ?"
    let text : Token := ⟨.string, "a\n", ⟨1, 1⟩⟩
    let name : Token := ⟨.identifier, "c", ⟨2, 2⟩⟩
    let d := (Complaint.badCharacter '?').located ⟨2, 3⟩
    (Lexer.ofString source).answer .next = .ok (.token text) ∧
    ((Lexer.ofString source).after [.next]).answer .peek = .ok (.token name) ∧
    ((Lexer.ofString source).after [.next, .next]).answer .atEnd = .error d ∧
    text.position.Before name.position ∧
    ∃ marks stop unread, Marked 0 source.toList marks stop unread ∧
      (∃ k, marks[0]? = some (k, .string, "a\n") ∧ text.position = placeAt source.toList k) ∧
      (∃ k, marks[1]? = some (k, .identifier, "c") ∧ name.position = placeAt source.toList k) ∧
      ∃ c, source.toList[stop]? = some c ∧
        d = (Complaint.badCharacter c).located (reachedAt source.toList stop) := by
  have htext : (Lexer.ofString "\"a\n\"c ?").answer .next =
      .ok (.token ⟨.string, "a\n", ⟨1, 1⟩⟩) := by rfl
  have hname : ((Lexer.ofString "\"a\n\"c ?").after [.next]).answer .peek =
      .ok (.token ⟨.identifier, "c", ⟨2, 2⟩⟩) := by rfl
  have hbad : ((Lexer.ofString "\"a\n\"c ?").after [.next, .next]).answer .atEnd =
      .error ((Complaint.badCharacter '?').located ⟨2, 3⟩) := by rfl
  intro source text name d
  obtain ⟨marks, stop, unread, hmarked, hexact⟩ := positions_exact source
  have hfirst := (hexact [] .next).1 text htext
  have hsecond := (hexact [.next] .peek).1 name hname
  obtain ⟨-, c, hc, -, hd⟩ := (hexact [.next, .next] .atEnd).2.2 d hbad
  have hbefore := (hexact [] .next).2.1 text htext (by decide) [.next] .peek name (by decide) hname
  refine ⟨htext, hname, hbad, hbefore, marks, stop, unread, (hmarked _ _ _).mpr ⟨rfl, rfl, rfl⟩,
    ?_, ?_, c, hc, hd⟩
  · obtain ⟨k, raw, rest, hk, -, -, hplace⟩ | ⟨-, hkind, -⟩ := hfirst
    · exact ⟨k, hk, hplace⟩
    · cases hkind
  · obtain ⟨k, raw, rest, hk, -, -, hplace⟩ | ⟨-, hkind, -⟩ := hsecond
    · exact ⟨k, hk, hplace⟩
    · cases hkind

end StuffScript
