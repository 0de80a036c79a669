import StuffScript.Proofs.Joining
import StuffScript.Proofs.Places
import StuffScript.Proofs.Prediction

/-!
# Errors are reported at the earliest token

Whatever goals are left, there are tokens that meet them all, so what a parser has taken without an error
is always the start of some program. And a token that is refused can follow what was taken in no program.
Both are statements about source texts, since any tokens that a lexer could give can be written down with
spaces between them.

The main statement is `parse_error_earliest`.
-/

namespace StuffScript

section Advancing

/-- A token of no place. -/
def Token.ofBare (t : TokenKind × String) : Token := ⟨t.1, t.2, .start⟩

/-- The goals left after some tokens. -/
def advance (gs : List Goal) (tokens : List (TokenKind × String)) : Option (List Goal) :=
  tokens.foldlM (fun gs t => expect (.ofBare t) gs) gs

/-- Some tokens after others lead on from the goals that those leave. -/
theorem advance_append (gs : List Goal) (tokens more : List (TokenKind × String)) :
    advance gs (tokens ++ more) = (advance gs tokens).bind (advance · more) := List.foldlM_append

/-- The first token leads to the goals from which the others go on. -/
theorem advance_cons (gs : List Goal) (t : TokenKind × String) (tokens : List (TokenKind × String)) :
    advance gs (t :: tokens) = (expect (.ofBare t) gs).bind (advance · tokens) := rfl

/-- What a goal does about a token depends on no place. -/
theorem meets_ofBare (t : Token) (g : Goal) : g.meets (.ofBare t.bare) = g.meets t := by
  cases g <;> rfl

/-- What a stack expects does not depend on where the token stands. -/
theorem expect_ofBare (t : Token) (gs : List Goal) : expect (.ofBare t.bare) gs = expect t gs := by
  induction gs with
  | nil => rfl
  | cons g gs ih => simp only [expect, meets_ofBare, ih]

/-- All goals are met exactly if the tokens lead to goals that may be left open. -/
theorem follow_accepted_iff {gs : List Goal} {s : Stream} : follow gs s = .accepted ↔
    s.error? = none ∧ ∃ left, advance gs (s.words.map Token.bare) = some left ∧
      left.all Goal.optional := by
  induction s generalizing gs with
  | token t s ih =>
    rw [follow_token, Stream.words, Stream.error?, List.map_cons, advance_cons, expect_ofBare]
    cases expect t gs with
    | none => simp
    | some next => simpa using ih
  | finish last => simp [follow_finish, Stream.words, Stream.error?, advance]
  | broken d => simp [follow_broken, Stream.error?]

/-- Goals that a stream does not go on to meet. -/
def Refuses (gs : List Goal) : Stream → Prop
  | .token t _ => expect t gs = none
  | .finish _ => gs.all Goal.optional = false
  | .broken _ => True

/-- Tokens in front of a stream. -/
def Stream.behind (front : List Token) (s : Stream) : Stream := front.foldr .token s

/-- Tokens in front come first among the words. -/
@[simp] theorem Stream.words_behind (front : List Token) (s : Stream) :
    (s.behind front).words = front ++ s.words := by
  induction front with
  | nil => rfl
  | cons t front ih => exact congrArg (t :: ·) ih

/-- Tokens in front come first among the tokens. -/
@[simp] theorem Stream.tokens_behind (front : List Token) (s : Stream) :
    (s.behind front).tokens = front ++ s.tokens := by
  induction front with
  | nil => rfl
  | cons t front ih => exact congrArg (t :: ·) ih

/-- Tokens in front do not change what the scanner complains about. -/
@[simp] theorem Stream.error?_behind (front : List Token) (s : Stream) :
    (s.behind front).error? = s.error? := by
  induction front with
  | nil => rfl
  | cons t front ih => exact ih

/-- Following gets stuck behind tokens that were taken, at goals that go on no further. -/
theorem follow_stuck {gs : List Goal} {s s' : Stream} (h : follow gs s = .stuck s') :
    ∃ front left, s = s'.behind front ∧ advance gs (front.map Token.bare) = some left ∧
      Refuses left s' := by
  induction s generalizing gs with
  | token t s ih =>
    rw [follow_token] at h
    cases hexpect : expect t gs with
    | none =>
      rw [hexpect] at h
      cases h
      exact ⟨[], gs, rfl, rfl, hexpect⟩
    | some next =>
      rw [hexpect] at h
      obtain ⟨front, left, rfl, hadvance, hrefuses⟩ := ih h
      refine ⟨t :: front, left, rfl, ?_, hrefuses⟩
      rw [List.map_cons, advance_cons, expect_ofBare, hexpect]
      exact hadvance
  | finish last =>
    rw [follow_finish] at h
    split at h
    · cases h
    · next hopen =>
      cases h
      exact ⟨[], gs, rfl, rfl, Bool.eq_false_iff.mpr hopen⟩
  | broken d =>
    rw [follow_broken] at h
    cases h
    exact ⟨[], gs, rfl, rfl, trivial⟩

end Advancing

section Completing

/-- Tokens that meet a goal in the shortest way. -/
def Goal.completion : Goal → List (TokenKind × String)
  | primary => [(.identifier, "x")]
  | calls => []
  | chain => []
  | alternative => []
  | close => [(.punctuation, ")")]
  | items b => [(.punctuation, b.close)]
  | moreItems b => [(.punctuation, b.close)]
  | parameters => [(.punctuation, "["), (.punctuation, "]")]
  | names => [(.punctuation, "]")]
  | moreNames => [(.punctuation, "]")]

/-- The tokens that completions consist of. -/
def completionTokens : List (TokenKind × String) :=
  [(.identifier, "x"), (.punctuation, ")"), (.punctuation, "["), (.punctuation, "]")]

/-- Every completion consists of a few tokens. -/
theorem Goal.mem_completionTokens {g : Goal} : ∀ t ∈ g.completion, t ∈ completionTokens := by
  cases g with
  | items b => cases b <;> decide
  | moreItems b => cases b <;> decide
  | _ => decide

/-- A goal that needs nothing is done before any completion of another goal. -/
theorem Goal.meets_completion {g : Goal} (h : g.optional) :
    ∀ t ∈ completionTokens, g.meets (.ofBare t) = .skip := by
  cases g with
  | calls => decide
  | chain => decide
  | alternative => decide
  | _ => cases h

/-- A goal that can be done without needs no tokens. -/
theorem Goal.completion_eq_nil {g : Goal} (h : g.optional) : g.completion = [] := by
  cases g with
  | calls => rfl
  | chain => rfl
  | alternative => rfl
  | _ => cases h

/-- A goal that needs something is met by its completion. -/
theorem Goal.advance_completion {g : Goal} (h : g.optional = false) (gs : List Goal)
    (more : List (TokenKind × String)) :
    advance (g :: gs) (g.completion ++ more) = advance gs more := by
  cases g with
  | items b => cases b <;> rfl
  | moreItems b => cases b <;> rfl
  | calls => cases h
  | chain => cases h
  | alternative => cases h
  | _ => rfl

/-- All goals of a stack can be met, one after the other. -/
theorem advance_completions (gs : List Goal) :
    ∃ left, advance gs (gs.flatMap Goal.completion) = some left ∧ left.all Goal.optional := by
  induction gs with
  | nil => exact ⟨[], rfl, rfl⟩
  | cons g gs ih =>
    rw [List.flatMap_cons]
    by_cases h : g.optional
    · rw [Goal.completion_eq_nil h, List.nil_append]
      cases htokens : gs.flatMap Goal.completion with
      | nil =>
        rw [htokens] at ih
        obtain ⟨left, hleft, hoptional⟩ := ih
        cases hleft
        exact ⟨g :: gs, rfl, by rw [List.all_cons, h, hoptional]; rfl⟩
      | cons t tokens =>
        have hmem : t ∈ gs.flatMap Goal.completion := by simp [htokens]
        obtain ⟨g', _, ht⟩ := List.mem_flatMap.mp hmem
        have hskip := Goal.meets_completion h t (Goal.mem_completionTokens t ht)
        rw [htokens] at ih
        simpa only [advance_cons, expect, hskip] using ih
    · rw [Goal.advance_completion (Bool.eq_false_iff.mpr h)]
      exact ih

end Completing

section Writing

/-- A token can be written before a space. -/
theorem Spelled.before_space {kind : TokenKind} {lexeme : String} {raw rest : List Char}
    (h : Spelled kind lexeme raw rest) :
    ∃ raw', ∀ rest', Spelled kind lexeme raw' (' ' :: rest') := by
  have hplain {raw body : List Char} (hcontent : Content raw body) :
      ∃ raw', ∀ rest', Spelled .string (String.ofList body) raw' (' ' :: rest') :=
    ⟨_, fun rest' => .closed (' ' :: rest') hcontent⟩
  cases h with
  | plain longest reserved free =>
    refine ⟨raw, fun rest' => .plain ⟨longest.1, ?_⟩ reserved free⟩
    intro c hc hshape
    cases hc
    have hspace : ' ' ∉ raw ++ [' '] := hshape.space_not_mem (by decide)
    simp at hspace
  | closed rest hcontent => exact hplain hcontent
  | unclosed hcontent => exact hplain hcontent
  | unclosedEscape hcontent => exact hplain hcontent

/-- Tokens that can be written one by one can be written one after another. -/
theorem exists_source {tokens : List (TokenKind × String)}
    (h : ∀ t ∈ tokens, ∃ raw rest, Spelled t.1 t.2 raw rest) :
    ∃ source, (Stream.ofString source).error? = none ∧ tokensOf source = tokens := by
  suffices hlayout : ∃ cs, Layout (' ' :: cs) tokens [] by
    obtain ⟨cs, hcs⟩ := hlayout
    rw [← String.toList_ofList (l := ' ' :: cs)] at hcs
    exact ⟨_, hcs.ofString.2.mpr rfl, hcs.ofString.1⟩
  have hspace (rest : List Char) : Gap [' '] rest := .space (by decide) (.none rest)
  induction tokens with
  | nil =>
    have hstop : Layout ([' '] ++ []) [] [] := .stop (hspace []) (by simp [PastGap]) (by simp)
    exact ⟨[], hstop⟩
  | cons t tokens ih =>
    obtain ⟨cs, hcs⟩ := ih fun u hu => h u (List.mem_cons_of_mem _ hu)
    obtain ⟨raw, rest, hraw⟩ := h t List.mem_cons_self
    obtain ⟨raw', hraw'⟩ := hraw.before_space
    exact ⟨raw' ++ ' ' :: cs, .token (hspace _) (hraw' cs) hcs⟩

/-- The tokens of a source can be written. -/
theorem Layout.spelled {cs unread : List Char} {tokens : List (TokenKind × String)}
    (h : Layout cs tokens unread) : ∀ t ∈ tokens, ∃ raw rest, Spelled t.1 t.2 raw rest := by
  induction h with
  | stop => simp
  | token hgap hraw hmore ih =>
    intro t ht
    obtain rfl | ht := List.mem_cons.mp ht
    · exact ⟨_, _, hraw⟩
    · exact ih t ht

/-- Completions can be written. -/
theorem completionTokens_spelled : ∀ t ∈ completionTokens, ∃ raw rest, Spelled t.1 t.2 raw rest := by
  intro t ht
  have hfirst : ∃ piece, firstPiece? t.2.toList = some piece ∧ (piece.kind, piece.lexeme) = t := by
    revert t
    decide
  obtain ⟨piece, hpiece, rfl⟩ := hfirst
  exact ⟨_, _, firstPiece?_spelled hpiece⟩

end Writing

section Earliest

/-- A source that is a program. -/
def Accepted (source : String) : Prop := ∃ e, parse source = .ok e

/-- Parsing fails at a slot among the tokens: with a syntax error at the place of that token, which may
be the end, or with the lexical error behind all tokens. -/
def FailsAt (source : String) (slot : Nat) : Prop :=
  ∃ d, parse source = .error d ∧
    (d.kind = .syntactic ∧
      ((Stream.ofString source).tokens.map Token.position)[slot]? = some d.position ∨
    d.kind = .lexical ∧ (Stream.ofString source).error? = some d ∧ slot = (tokensOf source).length)

/-- A source is accepted if the scanner has no complaint and its tokens leave only goals that can be done
without. -/
theorem accepted_iff {source : String} : Accepted source ↔
    (Stream.ofString source).error? = none ∧
      ∃ left, advance [] (tokensOf source) = some left ∧ left.all Goal.optional := by
  rw [tokensOf, ← follow_accepted_iff]
  obtain ⟨hok, haccepted⟩ | ⟨d, s, herror, hstuck, -⟩ := parse_follows source
  · exact iff_of_true hok haccepted
  · have hnot : ¬ Accepted source := by
      intro ⟨e, he⟩
      rw [herror] at he
      cases he
    rw [hstuck]
    exact iff_of_false hnot (by simp)

/-- A place tells its token. -/
theorem position_at_iff {source : String} {front after : List Token} {t : Token}
    (h : (Stream.ofString source).tokens = front ++ t :: after) {slot : Nat} :
    ((Stream.ofString source).tokens.map Token.position)[slot]? = some t.position ↔
      slot = front.length := by
  have hat : ((Stream.ofString source).tokens.map Token.position)[front.length]? = some t.position := by
    simp [h]
  constructor
  · intro hslot
    have hlength : slot < ((Stream.ofString source).tokens.map Token.position).length :=
      (List.getElem?_eq_some_iff.mp hslot).1
    exact (List.getElem?_inj hlength (positions_nodup source)).mp (hslot.trans hat.symm)
  · intro hslot
    rw [hslot, hat]

/-- Where a diagnostic arises in a source: behind tokens that were taken, at goals that the rest of the
stream does not go on to meet. -/
structure StuckAt (source : String) (d : Diagnostic) (front : List Token) (left : List Goal)
    (s : Stream) : Prop where
  split : Stream.ofString source = s.behind front
  taken : advance [] (front.map Token.bare) = some left
  refuses : Refuses left s
  arises : d.ArisesAt s

/-- Parsing fails where it gets stuck. -/
theorem parse_error_stuckAt {source : String} {d : Diagnostic} (h : parse source = .error d) :
    ∃ front left s, StuckAt source d front left s := by
  obtain ⟨⟨e, he⟩, -⟩ | ⟨d', s, herror, hstuck, harises⟩ := parse_follows source
  · rw [h] at he
    cases he
  · rw [h] at herror
    cases herror
    obtain ⟨front, left, hs, hadvance, hrefuses⟩ := follow_stuck hstuck
    exact ⟨front, left, s, hs, hadvance, hrefuses, harises⟩

namespace StuckAt

variable {source : String} {d : Diagnostic} {front : List Token} {left : List Goal} {s : Stream}

/-- The tokens of the source are those taken and those left. -/
theorem tokensOf_eq (h : StuckAt source d front left s) :
    tokensOf source = front.map Token.bare ++ s.words.map Token.bare := by
  rw [tokensOf, h.split, Stream.words_behind, List.map_append]

/-- The tokens before the place where parsing gets stuck are those taken. -/
theorem take_tokensOf (h : StuckAt source d front left s) :
    (tokensOf source).take front.length = front.map Token.bare := by
  rw [h.tokensOf_eq, List.take_left' (List.length_map _)]

/-- An error is placed at the slot behind the tokens that were taken, and at no other. -/
theorem failsAt_iff (h : StuckAt source d front left s) (hd : parse source = .error d) {slot : Nat} :
    FailsAt source slot ↔ slot = front.length := by
  have hfails : FailsAt source slot ↔ (d.kind = .syntactic ∧
      ((Stream.ofString source).tokens.map Token.position)[slot]? = some d.position ∨
      d.kind = .lexical ∧ (Stream.ofString source).error? = some d ∧
        slot = (tokensOf source).length) := by
    simp [FailsAt, hd]
  have hsyntactic {t : Token} {after : List Token} (htokens : s.tokens = t :: after)
      (ht : d.kind = .syntactic ∧ d.position = t.position) : FailsAt source slot ↔ slot = front.length := by
    have hsplit : (Stream.ofString source).tokens = front ++ t :: after := by
      rw [h.split, Stream.tokens_behind, htokens]
    rw [hfails, ht.1, ht.2, position_at_iff hsplit]
    simp
  cases s with
  | token t s => exact hsyntactic rfl h.arises
  | finish last => exact hsyntactic rfl h.arises
  | broken d' =>
    obtain rfl : d = d' := h.arises
    have herror : (Stream.ofString source).error? = some d := by
      rw [h.split, Stream.error?_behind, Stream.error?]
    have hlength : (tokensOf source).length = front.length := by
      simp [h.tokensOf_eq, Stream.words]
    rw [hfails, Stream.ofCursor_error_kind herror, herror, hlength]
    simp

/-- What was taken is the start of a program. -/
theorem exists_accepted (h : StuckAt source d front left s) :
    ∃ source', Accepted source' ∧ front.map Token.bare <+: tokensOf source' := by
  obtain ⟨tokens, unread, hlayout⟩ := exists_layout source.toList
  have htokens := hlayout.ofString.1.symm.trans h.tokensOf_eq
  have hspelled : ∀ t ∈ front.map Token.bare ++ left.flatMap Goal.completion,
      ∃ raw rest, Spelled t.1 t.2 raw rest := by
    intro t ht
    obtain ht | ht := List.mem_append.mp ht
    · exact hlayout.spelled t (htokens ▸ List.mem_append_left _ ht)
    · obtain ⟨g, _, hg⟩ := List.mem_flatMap.mp ht
      exact completionTokens_spelled t (Goal.mem_completionTokens t hg)
  obtain ⟨source', herror, hsource'⟩ := exists_source hspelled
  obtain ⟨still, hstill, hoptional⟩ := advance_completions left
  refine ⟨source', accepted_iff.mpr ⟨herror, still, ?_, hoptional⟩, hsource' ▸ List.prefix_append _ _⟩
  rw [hsource', advance_append, h.taken]
  exact hstill

/-- A token that was not taken can follow in no program. -/
theorem not_accepted {t : Token} (h : StuckAt source d front left (.token t s)) {source' : String}
    (hstart : front.map Token.bare ++ [t.bare] <+: tokensOf source') : ¬ Accepted source' := by
  intro haccepted
  obtain ⟨-, still, hstill, -⟩ := accepted_iff.mp haccepted
  obtain ⟨more, hmore⟩ := hstart
  have hrefuses : expect t left = none := h.refuses
  rw [← hmore, List.append_assoc, advance_append, h.taken] at hstill
  simp [advance_cons, expect_ofBare, hrefuses] at hstill

/-- No program starts with the tokens up to and including the one that was refused. -/
theorem not_start (h : StuckAt source d front left s) (hlt : front.length < (tokensOf source).length)
    {source' : String} (haccepted : Accepted source') :
    ¬ (tokensOf source).take (front.length + 1) <+: tokensOf source' := by
  rw [h.tokensOf_eq] at hlt ⊢
  cases s with
  | token t s =>
    have htake : (front.map Token.bare ++ (Stream.token t s).words.map Token.bare).take
        (front.length + 1) = front.map Token.bare ++ [t.bare] := by
      rw [Stream.words, List.map_cons, List.append_cons]
      exact List.take_left' (by simp)
    rw [htake]
    exact fun hstart => h.not_accepted hstart haccepted
  | finish last => simp [Stream.words] at hlt
  | broken d' => simp [Stream.words] at hlt

/-- Where the end does not fit, the tokens are those of no program. -/
theorem tokensOf_ne (h : StuckAt source d front left s) (herror : (Stream.ofString source).error? = none)
    (hlength : front.length = (tokensOf source).length) {source' : String}
    (haccepted : Accepted source') : tokensOf source' ≠ tokensOf source := by
  intro hsame
  rw [h.tokensOf_eq] at hlength hsame
  cases s with
  | token t s => simp [Stream.words] at hlength
  | finish last =>
    obtain ⟨-, still, hstill, hoptional⟩ := accepted_iff.mp haccepted
    rw [hsame, Stream.words, List.map_nil, List.append_nil, h.taken] at hstill
    cases hstill
    have hrefuses : left.all Goal.optional = false := h.refuses
    rw [hoptional] at hrefuses
    cases hrefuses
  | broken d' =>
    rw [h.split, Stream.error?_behind] at herror
    cases herror

/-- Before a bad character, the error is about it exactly if the tokens before it start a program. -/
theorem lexical_iff (h : StuckAt source d front left s) (hbad : (Stream.ofString source).error? ≠ none) :
    d.kind = .lexical ↔ ∃ source', Accepted source' ∧ tokensOf source <+: tokensOf source' := by
  rw [h.tokensOf_eq]
  cases s with
  | token t s =>
    have hkind : d.kind = .syntactic := h.arises.1
    refine iff_of_false (by simp [hkind]) ?_
    intro ⟨source', haccepted, hstart⟩
    rw [Stream.words, List.map_cons, List.append_cons] at hstart
    exact h.not_accepted ((List.prefix_append _ _).trans hstart) haccepted
  | finish last =>
    rw [h.split, Stream.error?_behind] at hbad
    exact absurd rfl hbad
  | broken d' =>
    obtain rfl : d = d' := h.arises
    have herror : (Stream.ofString source).error? = some d := by
      rw [h.split, Stream.error?_behind, Stream.error?]
    rw [Stream.words, List.map_nil, List.append_nil]
    exact iff_of_true (Stream.ofCursor_error_kind herror) h.exists_accepted

end StuckAt

/-- Errors are reported at the earliest possible token. Every failure has a slot. The tokens before the
slot start a program. If a token is there, no program starts with the tokens up to it; if the end is
there, the tokens are those of no program. With a bad character in the source, the error is lexical
exactly if the tokens before it start a program. -/
theorem parse_error_earliest (source : String) :
    (∀ d, parse source = .error d → ∃ slot, FailsAt source slot) ∧
    (∀ slot, FailsAt source slot →
      (∃ source', Accepted source' ∧ (tokensOf source).take slot <+: tokensOf source') ∧
      (slot < (tokensOf source).length → ∀ source', Accepted source' →
        ¬ (tokensOf source).take (slot + 1) <+: tokensOf source') ∧
      ((Stream.ofString source).error? = none → slot = (tokensOf source).length →
        ∀ source', Accepted source' → tokensOf source' ≠ tokensOf source)) ∧
    ((Stream.ofString source).error? ≠ none →
      ((∃ d, parse source = .error d ∧ d.kind = .lexical) ↔
        ∃ source', Accepted source' ∧ tokensOf source <+: tokensOf source')) := by
  refine ⟨?_, ?_, ?_⟩
  · intro d hd
    obtain ⟨front, left, s, hstuck⟩ := parse_error_stuckAt hd
    exact ⟨front.length, (hstuck.failsAt_iff hd).mpr rfl⟩
  · intro slot hslot
    obtain ⟨d, hd, -⟩ := id hslot
    obtain ⟨front, left, s, hstuck⟩ := parse_error_stuckAt hd
    obtain rfl := (hstuck.failsAt_iff hd).mp hslot
    rw [hstuck.take_tokensOf]
    exact ⟨hstuck.exists_accepted, fun hlt _ => hstuck.not_start hlt,
      fun herror hlength _ => hstuck.tokensOf_ne herror hlength⟩
  · intro hbad
    cases hparse : parse source with
    | ok e => exact absurd (accepted_iff.mp ⟨e, hparse⟩).1 hbad
    | error d =>
      obtain ⟨front, left, s, hstuck⟩ := parse_error_stuckAt hparse
      rw [← hstuck.lexical_iff hbad]
      simp

end Earliest

end StuffScript
