import StuffScript.Proofs.ParserSoundness

/-!
# What follows the grammar is parsed

The other direction: where the grammar derives a phrase from the front of some tokens, the parsing
function for that kind of phrase takes exactly the tokens of the phrase and returns its tree. The
proof is by induction on the derivation. A list is parsed together with its closing bracket, and the
operators of a chain are taken one after another.

The main statement is `Reads.found`, about tokens that come to a proper end.
-/

namespace StuffScript

/-- The stream of some tokens, and after them the token for the end. -/
def Stream.ofWords (words : List Token) (last : Token) : Stream := words.foldr .token (.finish last)

/-- A stream that does not break off is given by its tokens and its end. -/
theorem Stream.eq_ofWords {s : Stream} (h : s.error? = none) : ∃ last, s = .ofWords s.words last := by
  induction s with
  | token t s ih =>
    obtain ⟨last, hs⟩ := ih h
    exact ⟨last, congrArg (Stream.token t) hs⟩
  | finish last => exact ⟨last, rfl⟩
  | broken d => cases h

/-- Tokens and the stream of them stop alike. -/
theorem Stops.ofWords {p : Token → Bool} {words : List Token} (h : Stops p words) (last : Token) :
    (Stream.ofWords words last).Stops p := by
  cases words with
  | nil => trivial
  | cons t words => exact h t rfl

/-- The brackets that lists and parenthesised expressions end with. -/
def IsClosing (close : String) : Prop := close = ")" ∨ close = "]"

/-- What is neither closing bracket is not the one at hand. -/
theorem IsClosing.ne {close other : String} (h : IsClosing close) (hparen : other ≠ ")")
    (hbracket : other ≠ "]") : other ≠ close := by
  rcases h with rfl | rfl
  · exact hparen
  · exact hbracket

/-- A comma closes nothing. -/
theorem IsClosing.not_comma {close : String} (h : IsClosing close) {t : Token}
    (ht : t.isPunctuation ",") : ¬ t.isPunctuation close := by
  rcases h with rfl | rfl <;>
    exact Token.not_isPunctuation_of_ne ht (by decide) (by decide) (by decide)

/-- A closing bracket is a sign. -/
theorem IsClosing.ne_empty {close : String} (h : IsClosing close) : close ≠ "" := by
  rcases h with rfl | rfl <;> decide

/-- No expression starts with a closing bracket. -/
theorem parseExpr_start {s : Stream} {e : Expr} {rest : Stream} (h : Gives (parseExpr s) e rest) :
    ∃ t s₁, s = .token t s₁ ∧ ∀ close, IsClosing close → ¬ t.isPunctuation close := by
  obtain ⟨_, _, hpart, _⟩ := gives_parseExpr.mp h
  obtain ⟨_, _, hprimary, _⟩ := gives_parsePart.mp hpart
  obtain ⟨t, s₁, rfl, hstart⟩ := parsePrimary_cases hprimary
  refine ⟨t, s₁, rfl, fun close hclose => ?_⟩
  have hsign {sign : String} (ht : t.isPunctuation sign) (hne : sign ≠ "") (hparen : sign ≠ ")")
      (hbracket : sign ≠ "]") : ¬ t.isPunctuation close :=
    Token.not_isPunctuation_of_ne ht hne hclose.ne_empty (hclose.ne hparen hbracket)
  have hword {word : String} (ht : t.isKeyword word) (hne : word ≠ "") : ¬ t.isPunctuation close :=
    (Token.tests_of_isKeyword ht hne).1 close
  rcases hstart with ht | ht | ht | ht | ht | ht | ht | ht | ht | ⟨hnot, _⟩
  · exact hsign ht (by decide) (by decide) (by decide)
  · exact hsign ht (by decide) (by decide) (by decide)
  iterate 7 exact hword ht (by decide)
  exact Token.not_isPunctuation hnot close

section Lists

variable {last u : Token} {rest : List Token}

/-- What follows a parameter name is parsed up to the closing bracket. -/
theorem ReadsMoreNames.found {more : List String} {input : List Token} (names : List String)
    (h : ReadsMoreNames more input (u :: rest)) (hu : u.isPunctuation "]") :
    Gives (parseMoreNames names (.ofWords input last)) (names.reverse ++ more) (.ofWords rest last) := by
  have hcomma {t : Token} (ht : t.isPunctuation ",") : ¬ t.isPunctuation "]" :=
    Token.not_isPunctuation_of_ne ht (by decide) (by decide) (by decide)
  generalize hend : u :: rest = tail at h
  induction h generalizing names with
  | none tail =>
    subst hend
    exact (gives_parseMoreNames_close hu).mpr ⟨List.append_nil _, rfl⟩
  | comma tail ht =>
    subst hend
    exact (gives_parseMoreNames_lastComma (hcomma ht) ht hu).mpr ⟨List.append_nil _, rfl⟩
  | @next t v more input tail ht hv _ ih =>
    refine (gives_parseMoreNames_comma (hcomma ht) ht hv).mpr ?_
    have hmore := ih (v.lexeme :: names) hend
    rwa [List.reverse_cons, List.append_assoc, List.singleton_append] at hmore

/-- Parameter names are parsed with the brackets around them. -/
theorem ReadsNames.found {t : Token} {ns : List String} {input : List Token}
    (h : ReadsNames ns input (u :: rest)) (ht : t.isPunctuation "[") (hu : u.isPunctuation "]") :
    Gives (parseNames (.ofWords (t :: input) last)) ns (.ofWords rest last) := by
  refine gives_parseNames.mpr ⟨t, .ofWords input last, rfl, ht, ?_⟩
  cases h with
  | none => exact ⟨u, .ofWords rest last, rfl, Or.inl ⟨hu, rfl, rfl⟩⟩
  | @first v _ _ _ hv hmore =>
    exact ⟨v, _, rfl, Or.inr ⟨hv, hmore.found [v.lexeme] hu⟩⟩

end Lists

/-- A program that goes on does so with an expression. -/
theorem parseProgram_token {t : Token} {s : Stream} {items es : List Expr} :
    parseProgram items (.token t s) = .ok es ↔
      ∃ e rest, Gives (parseExpr (.token t s)) e rest ∧ parseProgram (e :: items) rest = .ok es := by
  rw [parseProgram]
  cases hp : parseExpr (.token t s) with
  | error d =>
    constructor
    · intro h
      cases h
    · rintro ⟨_, _, h, _⟩
      exact absurd h Gives.not_error
  | ok p =>
    constructor
    · exact fun h => ⟨p.value, p.rest, Gives.ok_iff.mpr ⟨rfl, rfl⟩, h⟩
    · rintro ⟨_, _, h, hmore⟩
      obtain ⟨rfl, rfl⟩ := Gives.ok_iff.mp h
      exact hmore

section Items

variable {close : String} {e : Expr} {s s₁ : Stream} (hitem : Gives (parseExpr s) e s₁)
include hitem

/-- An expression at the start of a list is its first item. -/
theorem Gives.items {es : List Expr} {rest : Stream} (hclose : IsClosing close)
    (hmore : Gives (parseMoreItems close [e] s₁) es rest) : Gives (parseItems close s) es rest := by
  obtain ⟨t, s', rfl, hopen⟩ := parseExpr_start hitem
  exact (gives_parseItems_item (hopen close hclose)).mpr ⟨e, s₁, hitem, hmore⟩

/-- An expression after a comma is the next item of a list. -/
theorem Gives.moreItems {t : Token} {items es : List Expr} {rest : Stream} (hclose : IsClosing close)
    (ht : t.isPunctuation ",") (hmore : Gives (parseMoreItems close (e :: items) s₁) es rest) :
    Gives (parseMoreItems close items (.token t s)) es rest := by
  obtain ⟨u, s', rfl, hopen⟩ := parseExpr_start hitem
  exact (gives_parseMoreItems_comma (hclose.not_comma ht) ht (hopen close hclose)).mpr
    ⟨e, s₁, hitem, hmore⟩

/-- An expression is the next one of a program. -/
theorem Gives.program {items es : List Expr} (hmore : parseProgram (e :: items) s₁ = .ok es) :
    parseProgram items s = .ok es := by
  obtain ⟨t, s', rfl, _⟩ := parseExpr_start hitem
  exact parseProgram_token.mpr ⟨e, s₁, hitem, hmore⟩

end Items

/-- The parsing function for a kind of phrase takes some tokens and returns the phrase's tree. -/
def Phrase.Found (last : Token) (input rest : List Token) : Phrase → Prop
  | .expr e => Gives (parseExpr (.ofWords input last)) e (.ofWords rest last)
  | .chain ops => (Stream.ofWords input last).Takes ops (.ofWords rest last)
  | .part e => Gives (parsePart (.ofWords input last)) e (.ofWords rest last)
  | .calls f e => Gives (parseCalls f (.ofWords input last)) e (.ofWords rest last)
  | .primary e => Gives (parsePrimary (.ofWords input last)) e (.ofWords rest last)
  | .list es => ∀ close u s, IsClosing close → u.isPunctuation close → rest = u :: s →
    Gives (parseItems close (.ofWords input last)) es (.ofWords s last)
  | .tail es => ∀ close u s items, IsClosing close → u.isPunctuation close → rest = u :: s →
    Gives (parseMoreItems close items (.ofWords input last)) (items.reverse ++ es) (.ofWords s last)
  | .program es => ∀ items, rest = [] →
    parseProgram items (.ofWords input last) = .ok (items.reverse ++ es)

/-- What the grammar derives is parsed. -/
theorem Reads.found {φ : Phrase} {input rest : List Token} (h : Reads GroupsByPower φ input rest)
    (last : Token) : φ.Found last input rest := by
  induction h with
  | expr _ _ hend hgroup ihfirst ihops =>
    rw [← Token.bindsAbove_zero] at hend
    exact gives_parseExpr.mpr ⟨_, _, ihfirst, hgroup.2.parsed ihops (hend.ofWords last)⟩
  | chainEnd rest => exact .nothing _
  | operator hop _ _ ihpart ihops => exact .operator hop ihpart ihops
  | part _ _ ihprimary ihcalls => exact gives_parsePart.mpr ⟨_, _, ihprimary, ihcalls⟩
  | callsEnd e hend => exact (gives_parseCalls_stop (hend.ofWords last)).mpr ⟨rfl, rfl⟩
  | call ht _ hu _ ihargs ihcalls =>
    exact (gives_parseCalls_open ht).mpr ⟨_, _, ihargs ")" _ _ (Or.inl rfl) hu rfl, ihcalls⟩
  | parens ht _ hu ihe => exact (gives_parsePrimary_parens ht).mpr ⟨_, ihe, hu⟩
  | block ht _ hu ihes =>
    exact (gives_parsePrimary_block ht).mpr ⟨_, ihes "]" _ _ (Or.inr rfl) hu rfl, rfl⟩
  | ifThen ht _ _ hend ihc ihe =>
    exact (gives_parsePrimary_if ht).mpr
      ⟨_, _, ihc, _, _, ihe, Or.inl ⟨hend.ofWords last, rfl, rfl⟩⟩
  | ifElse ht _ _ hu _ ihc ihe iho =>
    exact (gives_parsePrimary_if ht).mpr
      ⟨_, _, ihc, _, _, ihe, Or.inr ⟨_, _, _, rfl, hu, iho, rfl⟩⟩
  | loop ht _ _ ihc ihe => exact (WordForm.loop.gives_parsePrimary ht).mpr ⟨_, _, ihc, _, ihe, rfl⟩
  | stuff ht _ _ ihb ihv => exact (WordForm.stuff.gives_parsePrimary ht).mpr ⟨_, _, ihb, _, ihv, rfl⟩
  | unstuff ht _ ihb => exact (gives_parsePrimary_unstuff ht).mpr ⟨_, ihb, rfl⟩
  | yes rest ht => exact (gives_parsePrimary_bool true ht).mpr ⟨rfl, rfl⟩
  | no rest ht => exact (gives_parsePrimary_bool false ht).mpr ⟨rfl, rfl⟩
  | function ht hu hnames hv _ ihe =>
    exact (WordForm.function.gives_parsePrimary ht).mpr ⟨_, _, hnames.found hu hv, _, ihe, rfl⟩
  | number rest ht hn =>
    refine (gives_parsePrimary_literal (by rw [ht]; decide) (by rw [ht]; decide)).mpr ⟨rfl, ?_⟩
    exact Or.inl ⟨_, ht, hn, rfl⟩
  | string rest ht =>
    refine (gives_parsePrimary_literal (by rw [ht]; decide) (by rw [ht]; decide)).mpr ⟨rfl, ?_⟩
    exact Or.inr (Or.inl ⟨ht, rfl⟩)
  | ident rest ht =>
    refine (gives_parsePrimary_literal (by rw [ht]; decide) (by rw [ht]; decide)).mpr ⟨rfl, ?_⟩
    exact Or.inr (Or.inr ⟨ht, rfl⟩)
  | noItems rest =>
    intro close u s _ hu hrest
    subst hrest
    exact (gives_parseItems_close hu).mpr ⟨rfl, rfl⟩
  | items _ _ ihe ihes =>
    intro close u s hclose hu hrest
    exact ihe.items hclose (ihes close u s [_] hclose hu hrest)
  | tailEnd rest =>
    intro close u s items _ hu hrest
    subst hrest
    exact (gives_parseMoreItems_close hu).mpr ⟨List.append_nil _, rfl⟩
  | lastComma rest ht =>
    intro close u s items hclose hu hrest
    subst hrest
    exact (gives_parseMoreItems_lastComma (hclose.not_comma ht) ht hu).mpr
      ⟨List.append_nil _, rfl⟩
  | @comma _ e _ _ _ _ ht _ _ ihe ihes =>
    intro close u s items hclose hu hrest
    refine ihe.moreItems hclose ht ?_
    have htail := ihes close u s (e :: items) hclose hu hrest
    rwa [List.reverse_cons, List.append_assoc, List.singleton_append] at htail
  | programEnd =>
    intro items _
    rw [Stream.ofWords, List.foldr_nil, parseProgram, List.append_nil]
  | @next e _ _ _ _ _ _ ihe ihes =>
    intro items hrest
    refine ihe.program ?_
    have hmore := ihes (e :: items) hrest
    rwa [List.reverse_cons, List.append_assoc, List.singleton_append] at hmore

end StuffScript
