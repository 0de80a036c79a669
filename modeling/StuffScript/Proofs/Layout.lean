import StuffScript.Proofs.Spelling

/-!
# How a source is laid out

A source is a run of tokens with gaps around them. `Layout` says so of a text, of the tokens in it
without their places, and of the text that is left where no token can start. `Marked` keeps the offsets at
which the tokens start as well.

The main statement is `lexing_lossless`: taking tokens from a lexer comes to an end, the tokens taken are
laid out in the source with nothing but gaps between them, and an error is met exactly where no token can
start. No text is laid out in two ways.
-/

namespace StuffScript

/-- A token without its place. -/
def Token.bare (t : Token) : TokenKind × String := (t.kind, t.lexeme)

/-- The tokens of a text without their places. -/
def tokensOf (text : String) : List (TokenKind × String) := (Stream.ofString text).words.map Token.bare

/-- A text, the tokens that stand in it between gaps, and what is left unread behind the last gap. -/
inductive Layout : List Char → List (TokenKind × String) → List Char → Prop
  | stop {gap unread : List Char} (hgap : Gap gap unread) (hpast : PastGap unread)
    (hstarts : ∀ c ∈ unread.head?, ¬ StartsToken c) : Layout (gap ++ unread) [] unread
  | token {gap raw rest unread : List Char} {kind : TokenKind} {lexeme : String}
    {more : List (TokenKind × String)} (hgap : Gap gap (raw ++ rest))
    (hraw : Spelled kind lexeme raw rest) (hmore : Layout rest more unread) :
    Layout (gap ++ (raw ++ rest)) ((kind, lexeme) :: more) unread

/-- The tokens of a text, each with the offset of its first character, and what is left unread, with its
offset. The text itself starts at an offset. -/
inductive Marked : Nat → List Char → List (Nat × TokenKind × String) → Nat → List Char → Prop
  | stop (k : Nat) {gap unread : List Char} (hgap : Gap gap unread) (hpast : PastGap unread)
    (hstarts : ∀ c ∈ unread.head?, ¬ StartsToken c) : Marked k (gap ++ unread) [] (k + gap.length) unread
  | token {k stop : Nat} {gap raw rest unread : List Char} {kind : TokenKind} {lexeme : String}
    {marks : List (Nat × TokenKind × String)} (hgap : Gap gap (raw ++ rest))
    (hraw : Spelled kind lexeme raw rest)
    (hmore : Marked (k + gap.length + raw.length) rest marks stop unread) :
    Marked k (gap ++ (raw ++ rest)) ((k + gap.length, kind, lexeme) :: marks) stop unread

/-- A token starts no gap. -/
theorem Spelled.pastGap {kind : TokenKind} {lexeme : String} {raw rest : List Char}
    (h : Spelled kind lexeme raw rest) : PastGap (raw ++ rest) := by
  intro c hc
  obtain ⟨cs, hcs⟩ := List.head?_eq_some_iff.mp hc
  have hfirst := h.firstPiece?_eq
  rw [hcs] at hfirst
  constructor
  · apply Bool.eq_false_iff.mpr
    intro hspace
    simp only [isSpace, Bool.or_eq_true, decide_eq_true_eq] at hspace
    obtain ((rfl | rfl) | rfl) | rfl := hspace <;> cases hfirst
  · intro hcomment
    subst hcomment
    cases hfirst

section Reading

variable {gap raw rest : List Char} {kind : TokenKind} {lexeme : String}

/-- Nothing but a gap is ahead. -/
theorem readToken_end (hgap : Gap gap []) (p : Position) :
    Cursor.readToken ⟨gap, p⟩ =
      (.ok ⟨.endOfInput, "", (p.afterAll gap).next⟩, ⟨[], p.afterAll gap⟩) := by
  have hsplit := splitGap_eq hgap (by simp [PastGap])
  rw [List.append_nil] at hsplit
  simp only [Cursor.readToken, Cursor.skipGap, hsplit]

/-- A token is ahead, behind a gap. -/
theorem readToken_spelled (hgap : Gap gap (raw ++ rest)) (hraw : Spelled kind lexeme raw rest)
    (p : Position) : Cursor.readToken ⟨gap ++ (raw ++ rest), p⟩ =
      (.ok ⟨kind, lexeme, (p.afterAll gap).next⟩, ⟨rest, p.afterAll (gap ++ raw)⟩) := by
  have hsplit := splitGap_eq hgap hraw.pastGap
  have hfirst := hraw.firstPiece?_eq
  obtain ⟨c, cs, rfl⟩ : ∃ c cs, raw = c :: cs :=
    List.exists_cons_of_ne_nil (firstPiece?_raw_ne_nil hfirst)
  rw [List.cons_append] at hfirst hsplit ⊢
  simp only [Cursor.readToken, Cursor.skipGap, hsplit, hfirst, Position.afterAll_append]

/-- A character that starts no token is ahead, behind a gap. -/
theorem readToken_bad {c : Char} (hgap : Gap gap (c :: rest)) (hpast : PastGap (c :: rest))
    (hstarts : ¬ StartsToken c) (p : Position) : Cursor.readToken ⟨gap ++ c :: rest, p⟩ =
      (.error ((Complaint.badCharacter c).located (p.afterAll gap)), ⟨c :: rest, p.afterAll gap⟩) := by
  simp only [Cursor.readToken, Cursor.skipGap, splitGap_eq hgap hpast,
    firstPiece?_eq_none_iff.mpr hstarts]

/-- A gap that is skipped is not there any more. -/
theorem Cursor.skipGap_skipGap (c : Cursor) : c.skipGap.skipGap = c.skipGap := by
  obtain ⟨⟨-, hpast⟩, -⟩ := splitGap_gap c.rest
  have hagain : splitGap false (splitGap false c.rest).2 = ([], (splitGap false c.rest).2) :=
    splitGap_eq (.none _) hpast
  simp only [Cursor.skipGap, hagain, Position.afterAll_nil]

/-- Reading starts behind the gap. -/
theorem Cursor.readToken_skipGap (c : Cursor) : c.skipGap.readToken = c.readToken := by
  simp only [Cursor.readToken, c.skipGap_skipGap]

end Reading

/-- Every text is laid out in some way. -/
theorem exists_layout (cs : List Char) : ∃ tokens unread, Layout cs tokens unread := by
  induction hlen : cs.length using Nat.strongRecOn generalizing cs with
  | ind n ih =>
    obtain ⟨⟨hgap, hpast⟩, -⟩ := splitGap_gap cs
    have hcs := splitGap_append false cs
    generalize (splitGap false cs).1 = gap at *
    generalize (splitGap false cs).2 = rest at *
    subst hcs
    cases hfirst : firstPiece? rest with
    | none =>
      refine ⟨[], rest, .stop hgap hpast ?_⟩
      intro c hc
      obtain ⟨text, rfl⟩ := List.head?_eq_some_iff.mp hc
      exact firstPiece?_eq_none_iff.mp hfirst
    | some t =>
      have hshorter : t.rest.length < n := by
        have hlt := firstPiece?_length_lt hfirst
        simp only [List.length_append] at hlen
        omega
      obtain ⟨tokens, unread, hmore⟩ := ih _ hshorter t.rest rfl
      have hrest := firstPiece?_append hfirst
      subst hrest
      exact ⟨_, _, .token hgap (firstPiece?_spelled hfirst) hmore⟩

/-- Marking goes on in the one way that the text allows. -/
theorem Marked.steps {k stop : Nat} {cs unread : List Char} {marks : List (Nat × TokenKind × String)}
    (h : Marked k cs marks stop unread) :
    (firstPiece? (splitGap false cs).2 = none ∧ marks = [] ∧ stop = k + (splitGap false cs).1.length ∧
      unread = (splitGap false cs).2) ∨
    ∃ t more, firstPiece? (splitGap false cs).2 = some t ∧
      marks = (k + (splitGap false cs).1.length, t.kind, t.lexeme) :: more ∧
      Marked (k + (splitGap false cs).1.length + t.raw.length) t.rest more stop unread := by
  cases h with
  | stop _ hgap hpast hstarts =>
    rw [splitGap_eq hgap hpast]
    refine .inl ⟨?_, rfl, rfl, rfl⟩
    cases unread with
    | nil => rfl
    | cons c cs => exact firstPiece?_eq_none_iff.mpr (hstarts c rfl)
  | token hgap hraw hmore =>
    rw [splitGap_eq hgap hraw.pastGap]
    exact .inr ⟨_, _, hraw.firstPiece?_eq, rfl, hmore⟩

/-- No text is marked in two ways. -/
theorem Marked.unique {k stop stop' : Nat} {cs unread unread' : List Char}
    {marks marks' : List (Nat × TokenKind × String)} (h : Marked k cs marks stop unread)
    (h' : Marked k cs marks' stop' unread') : marks' = marks ∧ stop' = stop ∧ unread' = unread := by
  induction marks generalizing k cs marks' with
  | nil =>
    obtain ⟨hnone, -, rfl, rfl⟩ | ⟨t, more, -, hmarks, -⟩ := h.steps
    · obtain ⟨-, rfl, rfl, rfl⟩ | ⟨t, more, hsome, -, -⟩ := h'.steps
      · exact ⟨rfl, rfl, rfl⟩
      · simp [hnone] at hsome
    · simp at hmarks
  | cons first marks ih =>
    obtain ⟨-, hmarks, -, -⟩ | ⟨t, more, hsome, hmarks, hmore⟩ := h.steps
    · simp at hmarks
    · obtain ⟨hnone, -, -, -⟩ | ⟨t', more', hsome', rfl, hmore'⟩ := h'.steps
      · simp [hnone] at hsome
      · obtain rfl : t = t' := by simpa [hsome] using hsome'
        obtain ⟨rfl, rfl⟩ := List.cons.inj hmarks
        obtain ⟨rfl, rfl, rfl⟩ := ih hmore hmore'
        exact ⟨rfl, rfl, rfl⟩

/-- The tokens that are laid out in a text can be marked. -/
theorem Layout.marked {cs unread : List Char} {tokens : List (TokenKind × String)}
    (h : Layout cs tokens unread) (k : Nat) :
    ∃ marks stop, Marked k cs marks stop unread ∧ marks.map Prod.snd = tokens := by
  induction h generalizing k with
  | stop hgap hpast hstarts => exact ⟨[], _, .stop k hgap hpast hstarts, rfl⟩
  | token hgap hraw _ ih =>
    obtain ⟨marks, stop, hmore, rfl⟩ := ih _
    exact ⟨_, stop, .token hgap hraw hmore, rfl⟩

/-- No text is laid out in two ways, since the tokens are marked in one way. -/
theorem Layout.unique {cs unread unread' : List Char} {tokens tokens' : List (TokenKind × String)}
    (h : Layout cs tokens unread) (h' : Layout cs tokens' unread') :
    tokens = tokens' ∧ unread = unread' := by
  obtain ⟨marks, stop, hmarked, rfl⟩ := h.marked 0
  obtain ⟨marks', stop', hmarked', rfl⟩ := h'.marked 0
  obtain ⟨rfl, rfl, rfl⟩ := hmarked.unique hmarked'
  exact ⟨rfl, rfl⟩

/-- No token that is spelled out is the end of the input. -/
theorem Spelled.kind_ne_endOfInput {kind : TokenKind} {lexeme : String} {raw rest : List Char}
    (h : Spelled kind lexeme raw rest) : kind ≠ .endOfInput := by
  intro hkind
  cases h with
  | plain longest =>
    subst hkind
    exact longest.1
  | closed => cases hkind
  | unclosed => cases hkind
  | unclosedEscape => cases hkind

/-- A stream holds the tokens that are laid out, and breaks off before what is left unread. -/
theorem Layout.ofCursor {cs unread : List Char} {tokens : List (TokenKind × String)}
    (h : Layout cs tokens unread) (p : Position) :
    (Stream.ofCursor ⟨cs, p⟩).words.map Token.bare = tokens ∧
      ((Stream.ofCursor ⟨cs, p⟩).error? = none ↔ unread = []) := by
  induction h generalizing p with
  | @stop gap unread hgap hpast hstarts =>
    cases unread with
    | nil =>
      rw [List.append_nil, Stream.ofCursor, readToken_end hgap]
      simp [Stream.words, Stream.error?]
    | cons c cs =>
      rw [Stream.ofCursor, readToken_bad hgap hpast (hstarts c rfl)]
      simp [Stream.words, Stream.error?]
  | token hgap hraw hmore ih =>
    rw [Stream.ofCursor, readToken_spelled hgap hraw]
    simp only [hraw.kind_ne_endOfInput, dif_neg, not_false_eq_true, Stream.words, Stream.error?,
      List.map_cons, Token.bare]
    obtain ⟨hwords, hends⟩ := ih (p.afterAll (_ ++ _))
    exact ⟨congrArg _ hwords, hends⟩

/-- The tokens of a source are those that are laid out in it. -/
theorem Layout.ofString {source : String} {unread : List Char} {tokens : List (TokenKind × String)}
    (h : Layout source.toList tokens unread) :
    tokensOf source = tokens ∧ ((Stream.ofString source).error? = none ↔ unread = []) :=
  h.ofCursor .start

/-- A token that cannot be read is a matter of characters. -/
theorem Cursor.readToken_error_kind {c c' : Cursor} {d : Diagnostic}
    (h : c.readToken = (.error d, c')) : d.kind = .lexical := by
  simp only [Cursor.readToken] at h
  split at h
  · simp at h
  · split at h
    · simp at h
    · cases h
      rfl

/-- What breaks off a stream is a matter of characters. -/
theorem Stream.ofCursor_error_kind {c : Cursor} {d : Diagnostic}
    (h : (Stream.ofCursor c).error? = some d) : d.kind = .lexical := by
  fun_induction Stream.ofCursor c with
  | case1 c d' c' hread =>
    cases h
    exact Cursor.readToken_error_kind hread
  | case2 => simp [Stream.error?] at h
  | case3 c t c' hread ht ih => exact ih h

/-- Taking tokens one after another, up to the end of the source or to a diagnostic. -/
inductive Lexer.Yields : Lexer → List Token → Option Diagnostic → Prop
  | finish {l l' : Lexer} {last : Token} (h : l.next = (.ok last, l'))
    (hlast : last.kind = .endOfInput) : Yields l [] none
  | broken {l l' : Lexer} {d : Diagnostic} (h : l.next = (.error d, l')) : Yields l [] (some d)
  | token {l l' : Lexer} {t : Token} {tokens : List Token} {error? : Option Diagnostic}
    (h : l.next = (.ok t, l')) (ht : t.kind ≠ .endOfInput) (hmore : Yields l' tokens error?) :
    Yields l (t :: tokens) error?

/-- The tokens of a stream are those that are taken one after another. -/
theorem Lexer.yields_stream (c : Cursor) :
    Lexer.Yields ⟨c, none⟩ (Stream.ofCursor c).words (Stream.ofCursor c).error? := by
  fun_induction Stream.ofCursor c with
  | case1 c d c' h =>
    have hnext : Lexer.next ⟨c, none⟩ = (.error d, ⟨c', none⟩) := by simp only [Lexer.next, h]
    exact .broken hnext
  | case2 c t c' h hlast =>
    have hnext : Lexer.next ⟨c, none⟩ = (.ok t, ⟨c', none⟩) := by simp only [Lexer.next, h]
    exact .finish hnext hlast
  | case3 c t c' h ht ih =>
    have hnext : Lexer.next ⟨c, none⟩ = (.ok t, ⟨c', none⟩) := by simp only [Lexer.next, h]
    exact .token hnext ht ih

/-- What is left unread starts no token. -/
theorem Layout.unread_starts {cs unread : List Char} {tokens : List (TokenKind × String)}
    (h : Layout cs tokens unread) : ∀ c ∈ unread.head?, ¬ StartsToken c := by
  induction h with
  | stop _ _ hstarts => exact hstarts
  | token _ _ _ ih => exact ih

/-- Lexing loses and invents nothing. Taking tokens comes to an end. The tokens taken are laid out in the
source, which can be laid out in no other way. The end is met where all is read, and a lexical error
exactly where the character after the last gap starts no token. -/
theorem lexing_lossless (source : String) : ∃ tokens error? unread,
    (Lexer.ofString source).Yields tokens error? ∧
    Layout source.toList (tokens.map Token.bare) unread ∧
    (error? = none ↔ unread = []) ∧
    ((∃ d, error? = some d ∧ d.kind = .lexical) ↔ ∃ c ∈ unread.head?, ¬ StartsToken c) ∧
    ∀ tokens' unread', Layout source.toList tokens' unread' →
      tokens' = tokens.map Token.bare ∧ unread' = unread := by
  obtain ⟨tokens, unread, hlayout⟩ := exists_layout source.toList
  obtain ⟨rfl, hends⟩ := hlayout.ofString
  refine ⟨(Stream.ofString source).words, (Stream.ofString source).error?, unread,
    Lexer.yields_stream _, hlayout, hends, ?_, ?_⟩
  · constructor
    · intro ⟨d, hd, _⟩
      cases unread with
      | nil => simp [hends.mpr rfl] at hd
      | cons c cs => exact ⟨c, rfl, hlayout.unread_starts c rfl⟩
    · intro ⟨c, hc, _⟩
      cases herror : (Stream.ofString source).error? with
      | none => simp [hends.mp herror] at hc
      | some d => exact ⟨d, rfl, Stream.ofCursor_error_kind herror⟩
  · intro tokens' unread' h'
    exact h'.unique hlayout

end StuffScript
