import StuffScript.Proofs.Layout

/-!
# Writing tokens down

A token is written as its lexeme, and a string literal as its content between quotes, with a backslash
before every quote and every backslash of it. Tokens are written one after another with gaps between
them. The types here hold only what is well-formed: a token has a lexeme of its class, a blank is a space
or a comment up to its line end, and no two tokens of a page touch.

The main statement is `lexing_undoes_printing`: a lexer takes from a page the tokens that were written on
it, and nothing else.
-/

namespace StuffScript

section Tokens

/-- Which lexemes a class has. A string literal may have any content. -/
def TokenKind.Admits : TokenKind → String → Prop
  | .string, _ => True
  | .keyword, lexeme => lexeme ∈ keywords
  | .identifier, lexeme => TokenKind.identifier.Shape lexeme.toList ∧ lexeme ∉ keywords
  | kind, lexeme => kind.Shape lexeme.toList

/-- A well-formed token without its place. -/
structure Writable where
  kind : TokenKind
  lexeme : String
  admitted : kind.Admits lexeme

/-- Put a backslash before every quote and every backslash. -/
def escape : List Char → List Char
  | [] => []
  | c :: cs => if c = '"' ∨ c = '\\' then '\\' :: c :: escape cs else c :: escape cs

/-- How a token is written. -/
def Writable.written (w : Writable) : List Char :=
  match w.kind with
  | .string => '"' :: (escape w.lexeme.toList ++ ['"'])
  | _ => w.lexeme.toList

/-- The token without its place that is written. -/
def Writable.bare (w : Writable) : TokenKind × String := (w.kind, w.lexeme)

/-- Escaped text is content that stands for the text. -/
theorem content_escape (cs : List Char) : Content (escape cs) cs := by
  induction cs with
  | nil => exact .nil
  | cons c cs ih =>
    by_cases h : c = '"' ∨ c = '\\'
    · rw [escape, if_pos h]
      exact .escaped c ih
    · rw [escape, if_neg h]
      rw [not_or] at h
      exact .plain h.1 h.2 ih

/-- The reserved words are words. -/
theorem keywords_shape {word : String} (h : word ∈ keywords) : TokenKind.keyword.Shape word.toList := by
  have hall : (keywords.all fun w => w.toList.head?.any isWordStart && w.toList.all isWordPart) = true := by
    decide
  have hword := List.all_eq_true.mp hall word h
  rw [Bool.and_eq_true, Option.any_eq_true, List.all_eq_true] at hword
  exact hword

/-- A text that starts with a blank, if it is not empty. -/
def StartsBlank (rest : List Char) : Prop := ∀ c ∈ rest.head?, isSpace c ∨ c = '~'

/-- No token but a string literal goes on with a blank. -/
theorem TokenKind.Shape.longest {kind : TokenKind} {raw rest : List Char} (h : kind.Shape raw)
    (hrest : StartsBlank rest) : kind.Longest raw rest := by
  refine ⟨h, fun c hc hshape => ?_⟩
  have hmem : c ∈ raw ++ [c] := List.mem_append_right _ List.mem_cons_self
  obtain hspace | rfl := hrest c hc
  · exact hshape.space_not_mem hspace hmem
  · exact hshape.not_mem kind.holds_tilde hmem

/-- What is written spells the token, where a blank or nothing follows. -/
theorem Writable.spelled (w : Writable) {rest : List Char} (hrest : StartsBlank rest) :
    Spelled w.kind w.lexeme w.written rest := by
  obtain ⟨kind, lexeme, hadmitted⟩ := w
  have hplain (hshape : kind.Shape lexeme.toList) (hreserved : kind = .keyword → lexeme ∈ keywords)
      (hfree : kind = .identifier → lexeme ∉ keywords) :
      Spelled kind lexeme lexeme.toList rest := by
    have hspelled := Spelled.plain (hshape.longest hrest) (by simpa using hreserved) (by simpa using hfree)
    rwa [String.ofList_toList] at hspelled
  cases kind with
  | string =>
    have hspelled := Spelled.closed rest (content_escape lexeme.toList)
    rwa [String.ofList_toList] at hspelled
  | keyword => exact hplain (keywords_shape hadmitted) (fun _ => hadmitted) (by simp)
  | identifier => exact hplain hadmitted.1 (by simp) fun _ => hadmitted.2
  | number => exact hplain hadmitted (by simp) (by simp)
  | operator => exact hplain hadmitted (by simp) (by simp)
  | punctuation => exact hplain hadmitted (by simp) (by simp)
  | endOfInput => exact hadmitted.elim
  | other => exact hadmitted.elim

end Tokens

section Blanks

/-- What a gap is made of: a space, or a comment with the line end that ends it. -/
inductive Blank where
  | space (c : Char) (h : isSpace c)
  | comment (text : List Char) (h : '\n' ∉ text)

/-- How a blank is written. -/
def Blank.written : Blank → List Char
  | .space c _ => [c]
  | .comment text _ => '~' :: (text ++ ['\n'])

/-- How blanks are written one after another. -/
def blanksWritten (blanks : List Blank) : List Char := blanks.flatMap Blank.written

/-- Blanks before a gap make a longer gap. -/
theorem Gap.after_blanks {gap rest : List Char} (h : Gap gap rest) (blanks : List Blank) :
    Gap (blanksWritten blanks ++ gap) rest := by
  induction blanks with
  | nil => exact h
  | cons blank blanks ih =>
    cases blank with
    | space c hc => exact .space hc ih
    | comment text htext =>
      have hline : Gap ('\n' :: (blanksWritten blanks ++ gap)) rest := .space (by decide) ih
      have hcomment := Gap.comment htext (by simp) hline
      simpa [blanksWritten, Blank.written] using hcomment

/-- Blanks are a gap, whatever follows. -/
theorem gap_blanks (blanks : List Blank) (rest : List Char) : Gap (blanksWritten blanks) rest := by
  have hgap := (Gap.none rest).after_blanks blanks
  rwa [List.append_nil] at hgap

/-- Blanks start with a blank, and so does what they stand before if it does. -/
theorem startsBlank_blanks {blanks : List Blank} {rest : List Char}
    (h : blanks = [] → StartsBlank rest) : StartsBlank (blanksWritten blanks ++ rest) := by
  cases blanks with
  | nil => exact h rfl
  | cons blank blanks =>
    intro c hc
    cases blank with
    | space c' hc' =>
      cases hc
      exact .inl hc'
    | comment text htext =>
      cases hc
      exact .inr rfl

end Blanks

/-- Tokens with a gap before each, which only the first may do without, and what stands behind the last:
one more gap, and perhaps a comment that the source ends in. -/
structure Page where
  entries : List (List Blank × Writable)
  apart : ∀ entry ∈ entries.tail, entry.1 ≠ []
  last : List Blank
  remark : Option {text : List Char // '\n' ∉ text}

namespace Page

/-- How the tokens are written, each behind its gap. -/
def entriesWritten (entries : List (List Blank × Writable)) : List Char :=
  entries.flatMap fun entry => blanksWritten entry.1 ++ entry.2.written

/-- How the comment is written that the source ends in. -/
def remarkWritten : Option {text : List Char // '\n' ∉ text} → List Char
  | none => []
  | some text => '~' :: text.1

/-- What is written behind the last token. -/
def ending (p : Page) : List Char := blanksWritten p.last ++ remarkWritten p.remark

/-- All that is written. -/
def text (p : Page) : String := String.ofList (entriesWritten p.entries ++ p.ending)

/-- The tokens of a page. -/
def tokens (p : Page) : List (TokenKind × String) := p.entries.map fun entry => entry.2.bare

/-- A remark at the end is a gap. -/
theorem remark_gap (remark : Option {text : List Char // '\n' ∉ text}) : Gap (remarkWritten remark) [] := by
  cases remark with
  | none => exact .none []
  | some text =>
    have hcomment := Gap.comment text.2 (by simp) (Gap.none [])
    rwa [List.append_nil] at hcomment

/-- What stands behind the last token of a page is a gap. -/
theorem ending_gap (p : Page) : Gap p.ending [] := (remark_gap p.remark).after_blanks p.last

/-- What stands behind the last token does not extend it. -/
theorem ending_startsBlank (p : Page) : StartsBlank p.ending := by
  refine startsBlank_blanks fun _ => ?_
  cases p.remark with
  | none => simp [StartsBlank, remarkWritten]
  | some text => simp [StartsBlank, remarkWritten]

/-- Tokens that do not touch are laid out as they are written, in front of a last gap. -/
theorem entries_layout {entries : List (List Blank × Writable)} {ending : List Char}
    (hapart : ∀ entry ∈ entries.tail, entry.1 ≠ []) (hgap : Gap ending [])
    (hending : StartsBlank ending) :
    Layout (entriesWritten entries ++ ending) (entries.map fun entry => entry.2.bare) [] := by
  induction entries with
  | nil =>
    have hstop : Layout (ending ++ []) [] [] := .stop hgap (by simp [PastGap]) (by simp)
    rwa [List.append_nil] at hstop
  | cons entry entries ih =>
    have hmore := ih fun e he => hapart e (List.mem_of_mem_tail he)
    have hrest : StartsBlank (entriesWritten entries ++ ending) := by
      cases entries with
      | nil => exact hending
      | cons next entries =>
        have hne : next.1 ≠ [] := hapart next List.mem_cons_self
        simp only [entriesWritten, List.flatMap_cons, List.append_assoc]
        exact startsBlank_blanks fun hnil => absurd hnil hne
    have hwritten : entriesWritten (entry :: entries) ++ ending =
        blanksWritten entry.1 ++ (entry.2.written ++ (entriesWritten entries ++ ending)) := by
      simp [entriesWritten]
    rw [hwritten]
    exact .token (gap_blanks entry.1 _) (entry.2.spelled hrest) hmore

/-- The text of a page is laid out as its tokens. -/
theorem layout (p : Page) : Layout p.text.toList p.tokens [] := by
  rw [text, String.toList_ofList]
  exact entries_layout p.apart p.ending_gap p.ending_startsBlank

end Page

/-- **Lexing undoes printing.** From a page a lexer takes tokens of exactly the classes and with exactly the
lexemes that were written, in order, and then meets the end of the source. -/
theorem lexing_undoes_printing (p : Page) :
    ∃ tokens, (Lexer.ofString p.text).Yields tokens none ∧ tokens.map Token.bare = p.tokens := by
  obtain ⟨htokens, hends⟩ := p.layout.ofString
  have hyields := Lexer.yields_stream (.ofString p.text)
  have hend : (Stream.ofCursor (.ofString p.text)).error? = none := hends.mpr rfl
  rw [hend] at hyields
  exact ⟨_, hyields, htokens⟩

/-- An operator and a string literal that holds a tilde, a quote and a backslash, with a comment between. -/
example :
    let plus : Writable := ⟨.operator, "+", ⟨by decide, List.all_eq_true.mp (by decide)⟩⟩
    let literal : Writable := ⟨.string, "~\"\\", trivial⟩
    Page.text ⟨[([], plus), ([.comment ['a'] (by decide)], literal)], by simp, [], some ⟨['b'], by decide⟩⟩ =
      "+~a\n\"~\\\"\\\\\"~b" := by
  decide

end StuffScript
