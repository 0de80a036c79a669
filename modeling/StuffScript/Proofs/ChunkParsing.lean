import StuffScript.Proofs.Acceptance
import StuffScript.Proofs.EarliestError
import StuffScript.Proofs.Joining
import StuffScript.Proofs.ParserLikeness

/-!
# Parsing chunks one after another

Programs have no separator between their expressions. Still, a chunk that is a program and the chunk that
is a program after it are read as one after the other when they are put together, if the first chunk ends
its last line, if no string literal is open there, and if the second chunk does not start with an opening
parenthesis. The tokens are then those of both chunks. Nothing that the second one starts with can go on an
expression of the first: what starts a program is no infix operator and not `else`.

The main statement is `parse_append`. It also tells the places: the expressions of the second chunk are
found further down by the lines of the first.
-/

namespace StuffScript

section OpenText

/-- What a reader of a source is in: plain code, a comment, a string literal, or a string literal right
behind a backslash. -/
inductive TextState where
  | code
  | comment
  | string
  | escape
deriving DecidableEq, Repr

/-- What the reader is in after one more character. -/
def TextState.after : TextState → Char → TextState
  | .code, c => if c = '"' then .string else if c = '~' then .comment else .code
  | .comment, c => if c = '\n' then .code else .comment
  | .string, c => if c = '"' then .code else if c = '\\' then .escape else .string
  | .escape, _ => .string

/-- What the reader is in after some more text. -/
def TextState.afterAll (m : TextState) (cs : List Char) : TextState := cs.foldl TextState.after m

/-- Every string literal of a text is closed. -/
def StringsClosed (cs : List Char) : Prop :=
  TextState.code.afterAll cs = .code ∨ TextState.code.afterAll cs = .comment

instance (cs : List Char) : Decidable (StringsClosed cs) := inferInstanceAs (Decidable (_ ∨ _))

namespace TextState

/-- Text is read one character after another. -/
theorem afterAll_cons (m : TextState) (c : Char) (cs : List Char) :
    m.afterAll (c :: cs) = (m.after c).afterAll cs := rfl

/-- One text after another is read from where the first leaves the reader. -/
theorem afterAll_append (m : TextState) (cs ds : List Char) :
    m.afterAll (cs ++ ds) = (m.afterAll cs).afterAll ds := List.foldl_append

/-- Code goes on where neither a string literal nor a comment starts. -/
theorem code_afterAll {cs : List Char} (hquote : '"' ∉ cs) (htilde : '~' ∉ cs) :
    code.afterAll cs = .code := by
  induction cs with
  | nil => rfl
  | cons c cs ih =>
    simp only [List.mem_cons, not_or] at hquote htilde
    rw [afterAll_cons, after, if_neg (Ne.symm hquote.1), if_neg (Ne.symm htilde.1)]
    exact ih hquote.2 htilde.2

/-- A comment goes on up to the end of its line. -/
theorem comment_afterAll {text : List Char} (h : '\n' ∉ text) : comment.afterAll text = .comment := by
  induction text with
  | nil => rfl
  | cons c text ih =>
    simp only [List.mem_cons, not_or] at h
    rw [afterAll_cons, after, if_neg (Ne.symm h.1)]
    exact ih h.2

end TextState

/-- A string literal goes on over its content. -/
theorem Content.afterAll {raw body : List Char} (h : Content raw body) :
    TextState.string.afterAll raw = .string := by
  induction h with
  | nil => rfl
  | plain hquote hslash _ ih =>
    rw [TextState.afterAll_cons, TextState.after, if_neg hquote, if_neg hslash]
    exact ih
  | escaped c _ ih => exact ih

/-- A gap that something follows is back in code. -/
theorem Gap.afterAll {gap rest : List Char} (h : Gap gap rest) (hrest : rest ≠ []) :
    TextState.code.afterAll (gap ++ rest) = TextState.code.afterAll rest := by
  induction h with
  | none => rfl
  | @space c _ _ hc _ ih =>
    have hcode : TextState.code.after c = .code := by
      simp only [isSpace, Bool.or_eq_true, decide_eq_true_eq] at hc
      obtain ((rfl | rfl) | rfl) | rfl := hc <;> rfl
    rw [List.cons_append, TextState.afterAll_cons, hcode]
    exact ih hrest
  | @comment text gap rest htext hend _ ih =>
    -- The line end behind the comment leads back to code and stays there if read again as code.
    obtain ⟨c, cs, hcs⟩ := List.exists_cons_of_ne_nil (List.append_ne_nil_of_right_ne_nil gap hrest)
    obtain rfl : c = '\n' := hend c (by rw [hcs]; rfl)
    rw [← ih hrest, List.cons_append, List.append_assoc, TextState.afterAll_cons,
      show TextState.code.after '~' = .comment from rfl, TextState.afterAll_append,
      TextState.comment_afterAll htext, hcs]
    rfl

/-- A token does not end in a line end and is back in code behind it, unless it is a string literal that
the source leaves open. -/
theorem Spelled.afterAll {kind : TokenKind} {lexeme : String} {raw rest : List Char}
    (h : Spelled kind lexeme raw rest) :
    TextState.code.afterAll raw = .code ∧ ¬ EndsLine raw ∨ rest = [] ∧ ¬ StringsClosed raw := by
  have hraw := firstPiece?_raw_ne_nil h.firstPiece?_eq
  cases h with
  | plain longest =>
    have hquote := longest.1.not_mem kind.holds_quote
    have htilde := longest.1.not_mem kind.holds_tilde
    refine .inl ⟨TextState.code_afterAll hquote htilde, fun hline => ?_⟩
    exact longest.1.space_not_mem (by decide) (hline.newline_mem hraw)
  | closed rest hcontent =>
    refine .inl ⟨?_, fun hline => ?_⟩
    · rw [TextState.afterAll_cons, TextState.afterAll_append]
      exact congrArg (TextState.afterAll · ['"']) hcontent.afterAll
    · exact absurd (hline '"' (by simp [List.getLast?_cons])) (by decide)
  | @unclosed raw _ hcontent =>
    have hstate : TextState.code.afterAll ('"' :: raw) = .string := hcontent.afterAll
    refine .inr ⟨rfl, ?_⟩
    rw [StringsClosed, hstate]
    decide
  | @unclosedEscape raw _ hcontent =>
    have hstate : TextState.code.afterAll ('"' :: (raw ++ ['\\'])) = .escape := by
      rw [TextState.afterAll_cons, TextState.afterAll_append]
      exact congrArg (TextState.afterAll · ['\\']) hcontent.afterAll
    refine .inr ⟨rfl, ?_⟩
    rw [StringsClosed, hstate]
    decide

end OpenText

section Streams

/-- One stream and then another in place of its end. -/
def Stream.followedBy : Stream → Stream → Stream
  | .token t rest, s => .token t (rest.followedBy s)
  | .finish _, s => s
  | .broken d, _ => .broken d

/-- A stream behind another gives its tokens behind those of the other. -/
theorem Stream.words_followedBy {s : Stream} (h : s.error? = none) (s' : Stream) :
    (s.followedBy s').words = s.words ++ s'.words := by
  induction s with
  | token t rest ih => exact congrArg (t :: ·) (ih h)
  | finish last => rfl
  | broken d => cases h

/-- A stream behind one without complaint complains as it does alone. -/
theorem Stream.error?_followedBy {s : Stream} (h : s.error? = none) (s' : Stream) :
    (s.followedBy s').error? = s'.error? := by
  induction s with
  | token t rest ih => exact ih h
  | finish last => rfl
  | broken d => cases h

/-- A stream starts with what is read first. -/
theorem Stream.ofCursor_congr {c c' : Cursor} (h : c.readToken = c'.readToken) :
    Stream.ofCursor c = Stream.ofCursor c' := by
  rw [Stream.ofCursor, Stream.ofCursor, h]

/-- Tokens are read behind a gap as if the source started there. -/
theorem ofCursor_after_gap {gap : List Char} (hgap : Gap gap []) (hline : EndsLine gap)
    (more : List Char) (p : Position) :
    Stream.ofCursor ⟨gap ++ more, p⟩ = Stream.ofCursor ⟨more, p.afterAll gap⟩ := by
  apply Stream.ofCursor_congr
  obtain ⟨⟨hgap', hpast⟩, -⟩ := splitGap_gap more
  have hsplit := splitGap_eq (hgap.append hline hgap') hpast
  rw [List.append_assoc, splitGap_append] at hsplit
  have hskip : Cursor.skipGap ⟨gap ++ more, p⟩ = Cursor.skipGap ⟨more, p.afterAll gap⟩ := by
    simp only [Cursor.skipGap, hsplit, Position.afterAll_append]
  rw [← Cursor.readToken_skipGap, hskip, Cursor.readToken_skipGap]

/-- The tokens of a text that ends its last line, with no string literal open there, come before those of
the text behind it, and each stands where it stood. -/
theorem Layout.ofCursor_append {cs : List Char} {tokens : List (TokenKind × String)}
    (h : Layout cs tokens []) (hline : EndsLine cs) (hclosed : StringsClosed cs) (more : List Char)
    (p : Position) :
    Stream.ofCursor ⟨cs ++ more, p⟩ =
      (Stream.ofCursor ⟨cs, p⟩).followedBy (Stream.ofCursor ⟨more, p.afterAll cs⟩) := by
  generalize hlast : ([] : List Char) = last at h
  induction h generalizing p with
  | stop hgap =>
    subst hlast
    rw [List.append_nil] at hline ⊢
    rw [ofCursor_after_gap hgap hline, Stream.ofCursor.eq_def ⟨_, p⟩, readToken_end hgap]
    rfl
  | @token gap raw rest _ kind lexeme _ hgap hraw _ ih =>
    have hne := firstPiece?_raw_ne_nil hraw.firstPiece?_eq
    rw [StringsClosed, hgap.afterAll (List.append_ne_nil_of_left_ne_nil hne rest)] at hclosed
    obtain ⟨hcode, hends⟩ | ⟨rfl, hopen⟩ := hraw.afterAll
    · -- The line end of the text stands behind this token, so the token cannot become longer.
      have hrest : rest ≠ [] := by
        rintro rfl
        rw [List.append_nil] at hline
        exact hends (hline.of_append gap)
      rw [TextState.afterAll_append, hcode] at hclosed
      obtain ⟨hgap', hraw'⟩ := hraw.extend hgap hrest more
      rw [List.append_assoc, List.append_assoc, Stream.ofCursor, readToken_spelled hgap' hraw',
        Stream.ofCursor.eq_def ⟨gap ++ (raw ++ rest), p⟩, readToken_spelled hgap hraw]
      simp only [hraw.kind_ne_endOfInput, dif_neg, not_false_eq_true, Stream.followedBy]
      rw [ih ((hline.of_append gap).of_append raw) hclosed _ hlast, ← Position.afterAll_append,
        List.append_assoc]
    · rw [List.append_nil] at hclosed
      exact absurd hclosed hopen

end Streams

section Places

/-- The same column some lines further down. -/
def Below (lines : Nat) (p q : Position) : Prop := q = ⟨p.line + lines, p.col⟩

/-- One more character keeps a place so many lines below. -/
theorem Below.after {lines : Nat} {p q : Position} (h : Below lines p q) (c : Char) :
    Below lines (p.after c) (q.after c) := by
  subst h
  unfold Below Position.after
  split
  · exact congrArg (Position.mk · 0) (Int.add_right_comm p.line lines 1)
  · rfl

/-- More text keeps a place so many lines below. -/
theorem Below.afterAll {lines : Nat} {p q : Position} (h : Below lines p q) (cs : List Char) :
    Below lines (p.afterAll cs) (q.afterAll cs) := by
  induction cs generalizing p q with
  | nil => exact h
  | cons c cs ih => exact ih (h.after c)

/-- The next column keeps a place so many lines below. -/
theorem Below.next {lines : Nat} {p q : Position} (h : Below lines p q) : Below lines p.next q.next := by
  subst h
  rfl

/-- Every line end leads one line down. -/
theorem Position.afterAll_line (p : Position) (cs : List Char) :
    (p.afterAll cs).line = p.line + cs.count '\n' := by
  induction cs generalizing p with
  | nil => simp
  | cons c cs ih =>
    rw [afterAll_cons, ih, List.count_cons, after]
    split
    · next hc =>
      simp only [hc, beq_self_eq_true, if_true]
      omega
    · next hc => simp [hc]

/-- Behind a text without an open line reading goes on at the start of a line. -/
theorem EndsLine.below {cs : List Char} (h : EndsLine cs) :
    Below (cs.count '\n') .start (Position.start.afterAll cs) := by
  have hcol : (Position.start.afterAll cs).col = 0 := by
    obtain rfl | ⟨cs, c, rfl⟩ := cs.eq_nil_or_concat
    · rfl
    · obtain rfl : c = '\n' := h c (by simp)
      rw [List.concat_eq_append, Position.afterAll_append]
      rfl
  exact congrArg₂ Position.mk (Position.afterAll_line .start cs) hcol

/-- Read further down, a source has the same tokens further down. -/
theorem Layout.alike_below {cs : List Char} {tokens : List (TokenKind × String)}
    (h : Layout cs tokens []) {lines : Nat} {p q : Position} (hpq : Below lines p q) :
    (Stream.ofCursor ⟨cs, p⟩).Alike (Below lines) (Stream.ofCursor ⟨cs, q⟩) := by
  generalize hlast : ([] : List Char) = last at h
  induction h generalizing p q with
  | stop hgap =>
    subst hlast
    rw [List.append_nil, Stream.ofCursor, Stream.ofCursor, readToken_end hgap, readToken_end hgap]
    exact .finish _ _
  | @token gap raw _ _ kind lexeme _ hgap hraw _ ih =>
    rw [Stream.ofCursor, Stream.ofCursor, readToken_spelled hgap hraw, readToken_spelled hgap hraw]
    simp only [hraw.kind_ne_endOfInput, dif_neg, not_false_eq_true]
    exact .token kind lexeme (hpq.afterAll gap).next (ih (hpq.afterAll (gap ++ raw)) hlast)

end Places

section Tokens

variable {G : Grouping} {more : List Token}

/-- Tokens that go on no expression before them. -/
structure Fresh (tokens : List Token) : Prop where
  operator : Stops (·.infixPower?.isSome) tokens
  opening : Stops (·.isPunctuation "(") tokens
  alternative : Stops (·.isKeyword "else") tokens

/-- What stops before the end of the tokens stops there whatever follows; at the end, what follows decides. -/
theorem Stops.append {p : Token → Bool} {rest : List Token} (h : Stops p rest) (hmore : Stops p more) :
    Stops p (rest ++ more) := by
  cases rest with
  | nil => exact hmore
  | cons t rest => exact h

/-- Parameters are read alike with more tokens behind them. -/
theorem ReadsMoreNames.append {names : List String} {input rest : List Token}
    (h : ReadsMoreNames names input rest) (more : List Token) :
    ReadsMoreNames names (input ++ more) (rest ++ more) := by
  induction h with
  | none rest => exact .none _
  | comma rest ht => exact .comma _ ht
  | next ht hu _ ih => exact .next ht hu ih

/-- The parameters of a function are read alike with more tokens behind them. -/
theorem ReadsNames.append {names : List String} {input rest : List Token}
    (h : ReadsNames names input rest) (more : List Token) :
    ReadsNames names (input ++ more) (rest ++ more) := by
  cases h with
  | none => exact .none _
  | first ht hmore => exact .first ht (hmore.append more)

/-- The tokens form a phrase with more tokens behind them; a program is one with the program that those
form. -/
def Phrase.ReadBefore (G : Grouping) (more input rest : List Token) : Phrase → Prop
  | .program es => ∀ es', Reads G (.program es') more [] → Reads G (.program (es ++ es')) (input ++ more) []
  | φ => Reads G φ (input ++ more) (rest ++ more)

/-- What tokens form they also form before tokens that go on no expression. Three rules look at what is
behind a phrase: the ends of an expression, of its calls, and of a conditional without alternative. -/
theorem Reads.before (hmore : Fresh more) {φ : Phrase} {input rest : List Token}
    (h : Reads G φ input rest) : φ.ReadBefore G more input rest := by
  induction h with
  | expr _ _ hend hgroup ihfirst ihops =>
    exact Reads.expr ihfirst ihops (hend.append hmore.operator) hgroup
  | chainEnd rest => exact Reads.chainEnd _
  | operator hop _ _ ihpart ihops => exact Reads.operator hop ihpart ihops
  | part _ _ ihprimary ihcalls => exact Reads.part ihprimary ihcalls
  | callsEnd e hend => exact Reads.callsEnd e (hend.append hmore.opening)
  | call ht _ hu _ ihargs ihcalls => exact Reads.call ht ihargs hu ihcalls
  | parens ht _ hu ihe => exact Reads.parens ht ihe hu
  | block ht _ hu ihes => exact Reads.block ht ihes hu
  | ifThen ht _ _ hend ihc ihe => exact Reads.ifThen ht ihc ihe (hend.append hmore.alternative)
  | ifElse ht _ _ hu _ ihc ihe iho => exact Reads.ifElse ht ihc ihe hu iho
  | loop ht _ _ ihc ihe => exact Reads.loop ht ihc ihe
  | stuff ht _ _ ihb ihv => exact Reads.stuff ht ihb ihv
  | unstuff ht _ ihb => exact Reads.unstuff ht ihb
  | yes rest ht => exact Reads.yes _ ht
  | no rest ht => exact Reads.no _ ht
  | function ht hu hnames hv _ ihe => exact Reads.function ht hu (hnames.append more) hv ihe
  | number rest ht hn => exact Reads.number _ ht hn
  | string rest ht => exact Reads.string _ ht
  | ident rest ht => exact Reads.ident _ ht
  | noItems rest => exact Reads.noItems _
  | items _ _ ihe ihes => exact Reads.items ihe ihes
  | tailEnd rest => exact Reads.tailEnd _
  | lastComma rest ht => exact Reads.lastComma _ ht
  | comma ht _ _ ihe ihes => exact Reads.comma ht ihe ihes
  | programEnd => exact fun es' h' => h'
  | next _ _ ihe ihes => exact fun es' h' => Reads.next ihe (ihes es' h')

/-- A token that goes on no expression, an opening parenthesis aside. -/
def Token.Starts (t : Token) : Prop := t.infixPower?.isSome = false ∧ t.isKeyword "else" = false

/-- A token that is neither an operator nor a reserved word can start an expression. -/
theorem Token.starts_of_kind {t : Token} (hop : t.kind ≠ .operator) (hword : t.kind ≠ .keyword) :
    t.Starts := by
  constructor
  · simp [infixPower?, hop]
  · exact Bool.eq_false_iff.mpr (not_isKeyword hword "else")

/-- A sign does not go on an expression. -/
theorem Token.starts_of_isPunctuation {t : Token} {sign : String} (ht : t.isPunctuation sign)
    (hsign : sign ≠ "") : t.Starts := by
  have hkind := ((isPunctuation_iff hsign).mp ht).1
  apply starts_of_kind
  · simp [hkind]
  · simp [hkind]

/-- A reserved word other than `else` does not go on an expression. -/
theorem Token.starts_of_isKeyword {t : Token} {word : String} (ht : t.isKeyword word)
    (hword : word ≠ "") (helse : word ≠ "else") : t.Starts := by
  have hkind := ((isKeyword_iff hword).mp ht).1
  have hother := (tests_of_isKeyword ht hword).2 "else" (by decide)
  constructor
  · simp [infixPower?, hkind]
  · exact Bool.eq_false_iff.mpr (mt hother.mp helse)

/-- No primary expression starts with an infix operator or with `else`. -/
theorem Reads.primary_starts {e : Expr} {input rest : List Token} (h : Reads G (.primary e) input rest) :
    ∀ t ∈ input.head?, t.Starts := by
  intro t ht
  cases h with
  | parens hsign | block hsign =>
    cases ht
    exact Token.starts_of_isPunctuation hsign (by decide)
  | ifThen hword | ifElse hword | loop hword | stuff hword | unstuff hword | function hword =>
    cases ht
    exact Token.starts_of_isKeyword hword (by decide) (by decide)
  | yes _ hword | no _ hword =>
    cases ht
    exact Token.starts_of_isKeyword hword (by decide) (by decide)
  | number _ hkind | string _ hkind | ident _ hkind =>
    cases ht
    apply Token.starts_of_kind
    · simp [hkind]
    · simp [hkind]

/-- A program goes on no expression before it, unless it starts with an opening parenthesis. -/
theorem Reads.program_fresh {es : List Expr} (h : Reads G (.program es) more [])
    (hopening : Stops (·.isPunctuation "(") more) : Fresh more := by
  have hstarts : ∀ t ∈ more.head?, t.Starts := by
    cases h with
    | programEnd => simp
    | next he _ =>
      cases he with
      | expr hpart _ _ _ =>
        cases hpart with
        | part hprimary _ => exact hprimary.primary_starts
  exact ⟨fun t ht => (hstarts t ht).1, hopening, fun t ht => (hstarts t ht).2⟩

end Tokens

section Sources

variable {source source' : String}

/-- A source without complaints of the scanner is laid out as tokens. -/
theorem exists_layout_of_error?_eq_none (h : (Stream.ofString source).error? = none) :
    ∃ tokens, Layout source.toList tokens [] := by
  obtain ⟨tokens, unread, hlayout⟩ := exists_layout source.toList
  obtain rfl := hlayout.ofString.2.mp h
  exact ⟨tokens, hlayout⟩

/-- The tokens of two texts put together. -/
theorem Stream.ofString_append (h : (Stream.ofString source).error? = none)
    (hline : EndsLine source.toList) (hclosed : StringsClosed source.toList) (source' : String) :
    Stream.ofString (source ++ source') = (Stream.ofString source).followedBy
      (Stream.ofCursor ⟨source'.toList, Position.start.afterAll source.toList⟩) := by
  obtain ⟨tokens, hlayout⟩ := exists_layout_of_error?_eq_none h
  rw [Stream.ofString, Cursor.ofString, String.toList_append]
  exact hlayout.ofCursor_append hline hclosed source'.toList .start

/-- A program that is read further down has the same expressions further down. -/
theorem parseProgram_below {es : List Expr} (h : parseProgram [] (.ofString source) = .ok es)
    {lines : Nat} {p : Position} (hp : Below lines .start p) :
    ∃ moved, parseProgram [] (.ofCursor ⟨source.toList, p⟩) = .ok moved ∧
      List.Forall₂ (Expr.Alike (Below lines)) es moved := by
  obtain ⟨tokens, hlayout⟩ := exists_layout_of_error?_eq_none (parseProgram_iff.mp h).1
  have hparse := parseProgram_alike (hlayout.alike_below hp) .nil
  rw [← Cursor.ofString, ← Stream.ofString, h] at hparse
  generalize parseProgram [] (.ofCursor ⟨source.toList, p⟩) = result at hparse ⊢
  cases hparse with
  | ok hes => exact ⟨_, rfl, hes⟩

/-- Wherever a text stands, its first token is the same. -/
theorem stops_opening (h : (Stream.ofString source).error? = none)
    (hopening : ∀ t ∈ (tokensOf source).head?, t ≠ (.punctuation, "(")) (p : Position) :
    Stops (·.isPunctuation "(") (Stream.ofCursor ⟨source.toList, p⟩).words := by
  intro t ht
  obtain ⟨tokens, hlayout⟩ := exists_layout_of_error?_eq_none h
  have hbare := hlayout.ofString.1.trans (hlayout.ofCursor p).1.symm
  apply Bool.eq_false_iff.mpr
  intro hsign
  obtain ⟨hkind, hlexeme⟩ := (Token.isPunctuation_iff (by decide)).mp hsign
  refine hopening t.bare ?_ (Prod.ext hkind hlexeme)
  rw [hbare, List.head?_map, ht]
  rfl

end Sources

/-- **Parsing is compositional over chunks.** Let two source texts be programs. Let the first end its last
line and close all its string literals, and let the first token of the second, if there is one, not be an
opening parenthesis. Then both texts together are a program. Its expressions are those of the first text,
each at its place, and after them those of the second text, further down by the lines of the first and
otherwise the same. -/
theorem parse_append {source source' : String} {es es' : List Expr}
    (h : parse source = .ok (.block ⟨1, 1⟩ es)) (h' : parse source' = .ok (.block ⟨1, 1⟩ es'))
    (hline : EndsLine source.toList) (hclosed : StringsClosed source.toList)
    (hopening : ∀ t ∈ (tokensOf source').head?, t ≠ (.punctuation, "(")) :
    ∃ moved, parse (source ++ source') = .ok (.block ⟨1, 1⟩ (es ++ moved)) ∧
      List.Forall₂ (Expr.Alike (Below (source.toList.count '\n'))) es' moved := by
  obtain ⟨_, hes, hparse⟩ := parse_iff.mp h
  cases hes
  obtain ⟨_, hes', hparse'⟩ := parse_iff.mp h'
  cases hes'
  obtain ⟨hend, hreads⟩ := parseProgram_iff.mp hparse
  obtain ⟨moved, hmoved, hes⟩ := parseProgram_below hparse' hline.below
  obtain ⟨hend', hreads'⟩ := parseProgram_iff.mp hmoved
  have hfresh := hreads'.program_fresh (stops_opening (parseProgram_iff.mp hparse').1 hopening _)
  refine ⟨moved, parse_iff.mpr ⟨es ++ moved, rfl, parseProgram_iff.mpr ?_⟩, hes⟩
  rw [Stream.ofString_append hend hline hclosed, Stream.error?_followedBy hend,
    Stream.words_followedBy hend]
  exact ⟨hend', hreads.before hfresh moved hreads'⟩

/-- A function whose body is a conditional without alternative, over a line end in a string literal and up
to one behind a comment, before a block and a string literal that is left open. -/
theorem parse_append_conditional :
    let source := "f = fun [x] if x \"(\n\\\"~\" ~ \"else\n"
    let source' := "[f]\nstuff f f \""
    ∃ es es' moved, parse source = .ok (.block ⟨1, 1⟩ es) ∧ parse source' = .ok (.block ⟨1, 1⟩ es') ∧
      parse (source ++ source') = .ok (.block ⟨1, 1⟩ (es ++ moved)) ∧
      List.Forall₂ (Expr.Alike (Below 2)) es' moved := by
  intro source source'
  have hparse (text : String) (hend : (Stream.ofString text).error? = none)
      (hleft : (advance [] (tokensOf text)).any (·.all Goal.optional)) :
      ∃ es, parse text = .ok (.block ⟨1, 1⟩ es) := by
    obtain ⟨e, he⟩ := accepted_iff.mpr ⟨hend, (Option.any_eq_true _ _).mp hleft⟩
    obtain ⟨es, rfl, -⟩ := parse_iff.mp he
    exact ⟨es, he⟩
  obtain ⟨es, h⟩ := hparse source (by decide +kernel) (by decide +kernel)
  obtain ⟨es', h'⟩ := hparse source' (by decide +kernel) (by decide +kernel)
  have hline : EndsLine source.toList := by
    intro c hc
    have hlast : source.toList.getLast? = some '\n' := by decide +kernel
    rw [hlast] at hc
    cases hc
    rfl
  have hlines : source.toList.count '\n' = 2 := by decide +kernel
  obtain ⟨moved, hwhole, hes⟩ := parse_append h h' hline (by decide +kernel) (by decide +kernel)
  rw [hlines] at hes
  exact ⟨es, es', moved, h, h', hwhole, hes⟩

end StuffScript
