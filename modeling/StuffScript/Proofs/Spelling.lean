import StuffScript.Token.Stream
import Mathlib.Data.List.TakeWhile

/-!
# How gaps and tokens are written

What may stand between tokens, and which source texts spell a token, said without regard to how a lexer
finds them. A gap is made of spaces and comments. A number, a word, an operator or a sign is spelled by a
text of its shape which the next character of the source could not extend. A string literal is spelled
by a quote, its content with escapes, and the closing quote, or the end of the source in its place.

The main statements are `splitGap_eq` and `Spelled.firstPiece?_eq`: the lexer takes exactly the gap that
stands ahead and exactly the token that is spelled after it. `splitGap_gap` and `firstPiece?_spelled` say
that it takes nothing else.
-/

namespace StuffScript

section Gaps

/-- A gap with what follows it. A comment runs up to the end of its line, or of the source. -/
inductive Gap : List Char → List Char → Prop
  | none (rest : List Char) : Gap [] rest
  | space {c : Char} {gap rest : List Char} (hc : isSpace c) (hgap : Gap gap rest) : Gap (c :: gap) rest
  | comment {text gap rest : List Char} (htext : '\n' ∉ text)
    (hend : ∀ c ∈ (gap ++ rest).head?, c = '\n') (hgap : Gap gap rest) :
    Gap ('~' :: (text ++ gap)) rest

/-- A text that no gap could start. -/
def PastGap (rest : List Char) : Prop := ∀ c ∈ rest.head?, isSpace c = false ∧ c ≠ '~'

/-- A comment is taken up to the end of its line. -/
theorem splitGap_comment {text rest : List Char} (htext : '\n' ∉ text)
    (hend : ∀ c ∈ rest.head?, c = '\n') :
    splitGap true (text ++ rest) = (text ++ (splitGap false rest).1, (splitGap false rest).2) := by
  induction text with
  | nil =>
    cases rest with
    | nil => rfl
    | cons c rest =>
      obtain rfl : c = '\n' := hend c rfl
      simp [splitGap, isSpace]
  | cons c text ih =>
    simp only [List.mem_cons, not_or] at htext
    have hc : decide (c ≠ '\n') = true := decide_eq_true (Ne.symm htext.1)
    simp only [List.cons_append, splitGap, hc, ih htext.2]

/-- The gap ahead is what the lexer takes for one. -/
theorem splitGap_eq {gap rest : List Char} (h : Gap gap rest) (hrest : PastGap rest) :
    splitGap false (gap ++ rest) = (gap, rest) := by
  induction h with
  | none rest =>
    cases rest with
    | nil => rfl
    | cons c rest =>
      obtain ⟨hspace, hcomment⟩ := hrest c rfl
      simp [splitGap, hspace, hcomment]
  | space hc _ ih => simp only [List.cons_append, splitGap, hc, if_true, ih hrest]
  | comment htext hend _ ih =>
    have htilde : isSpace '~' = false := by decide
    simp only [List.cons_append, List.append_assoc, splitGap, htilde, Bool.false_eq_true, if_false,
      if_true, splitGap_comment htext hend, ih hrest]

/-- What the lexer takes for a gap is one, inside a comment as well. -/
theorem splitGap_gap (cs : List Char) :
    (Gap (splitGap false cs).1 (splitGap false cs).2 ∧ PastGap (splitGap false cs).2) ∧
    ∃ text gap, (splitGap true cs).1 = text ++ gap ∧ '\n' ∉ text ∧
      (∀ c ∈ (gap ++ (splitGap true cs).2).head?, c = '\n') ∧
      Gap gap (splitGap true cs).2 ∧ PastGap (splitGap true cs).2 := by
  induction cs with
  | nil => exact ⟨⟨.none [], by simp [PastGap, splitGap]⟩, [], [], by simp [splitGap, Gap.none, PastGap]⟩
  | cons c cs ih =>
    obtain ⟨⟨hgap, hpast⟩, text, gap, htaken, htext, hend, hcomment, hafter⟩ := ih
    constructor
    · by_cases hspace : isSpace c
      · simp only [splitGap, hspace, if_true]
        exact ⟨.space hspace hgap, hpast⟩
      · by_cases htilde : c = '~'
        · subst htilde
          simp only [splitGap, hspace, if_true, htaken]
          exact ⟨.comment htext hend hcomment, hafter⟩
        · simp only [splitGap, hspace, htilde, if_false]
          refine ⟨.none _, ?_⟩
          intro c' hc'
          cases hc'
          exact ⟨Bool.eq_false_iff.mpr hspace, htilde⟩
    · by_cases hline : c = '\n'
      · subst hline
        refine ⟨[], '\n' :: (splitGap false cs).1, ?_⟩
        simp only [splitGap, ne_eq, not_true_eq_false, decide_false]
        exact ⟨rfl, List.not_mem_nil, by simp, .space (by decide) hgap, hpast⟩
      · refine ⟨c :: text, gap, ?_⟩
        simp only [splitGap, ne_eq, hline, not_false_eq_true, decide_true, htaken]
        refine ⟨rfl, ?_, hend, hcomment, hafter⟩
        simp [htext, Ne.symm hline]

end Gaps

section Shapes

/-- Which texts are of the shape of a class, string literals aside. Words of both classes share one
shape. -/
def TokenKind.Shape : TokenKind → List Char → Prop
  | .number, cs => (∃ c ∈ cs.head?, Number.isDigit c) ∧ (∀ c ∈ cs, Number.isDigit c ∨ c = '.') ∧
    cs.count '.' ≤ 1
  | .identifier, cs => (∃ c ∈ cs.head?, isWordStart c) ∧ ∀ c ∈ cs, isWordPart c
  | .keyword, cs => (∃ c ∈ cs.head?, isWordStart c) ∧ ∀ c ∈ cs, isWordPart c
  | .operator, cs => cs ≠ [] ∧ ∀ c ∈ cs, isOperatorSign c
  | .punctuation, cs => ∃ c, cs = [c] ∧ isPunctuationSign c
  | _, _ => False

/-- Which characters the texts of a class may hold. -/
def TokenKind.holds (c : Char) : TokenKind → Bool
  | .number => Number.isDigit c || c = '.'
  | .identifier => isWordPart c
  | .keyword => isWordPart c
  | .operator => isOperatorSign c
  | .punctuation => isPunctuationSign c
  | _ => false

/-- A text of a shape is made of the characters of that shape. -/
theorem TokenKind.Shape.holds {kind : TokenKind} {raw : List Char} (h : kind.Shape raw) :
    ∀ c ∈ raw, kind.holds c := by
  intro c hc
  cases kind with
  | number => simpa [TokenKind.holds] using h.2.1 c hc
  | identifier => exact h.2 c hc
  | keyword => exact h.2 c hc
  | operator => exact h.2 c hc
  | punctuation =>
    obtain ⟨sign, rfl, hsign⟩ := h
    obtain rfl := List.mem_singleton.mp hc
    exact hsign
  | endOfInput => exact h.elim
  | string => exact h.elim
  | other => exact h.elim

/-- No shape has a quote in it. -/
theorem TokenKind.holds_quote (kind : TokenKind) : kind.holds '"' = false := by
  cases kind <;> rfl

/-- No shape has the beginning of a comment in it. -/
theorem TokenKind.holds_tilde (kind : TokenKind) : kind.holds '~' = false := by
  cases kind <;> rfl

/-- No token but a string literal holds a character that no class has. -/
theorem TokenKind.Shape.not_mem {kind : TokenKind} {raw : List Char} (h : kind.Shape raw) {c : Char}
    (hc : kind.holds c = false) : c ∉ raw := by
  intro hmem
  have hholds := h.holds c hmem
  rw [hc] at hholds
  cases hholds

/-- No token but a string literal holds a space. -/
theorem TokenKind.Shape.space_not_mem {kind : TokenKind} {raw : List Char} (h : kind.Shape raw)
    {c : Char} (hc : isSpace c) : c ∉ raw := by
  intro hmem
  have hholds := h.holds c hmem
  simp only [isSpace, Bool.or_eq_true, decide_eq_true_eq] at hc
  obtain ((rfl | rfl) | rfl) | rfl := hc <;> cases kind <;> cases hholds

/-- A text of the shape of a class which the next character of the source does not extend. -/
def TokenKind.Longest (kind : TokenKind) (raw rest : List Char) : Prop :=
  kind.Shape raw ∧ ∀ c ∈ rest.head?, ¬ kind.Shape (raw ++ [c])

/-- Shapes are told from left to right: a text between two of a shape is of that shape. -/
theorem TokenKind.Shape.between {kind : TokenKind} {raw more : List Char} {c : Char}
    (h : kind.Shape (raw ++ c :: more)) (hraw : kind.Shape raw) : kind.Shape (raw ++ [c]) := by
  obtain ⟨first, text, rfl⟩ : ∃ first text, raw = first :: text := by
    cases raw with
    | nil => cases kind <;> simp [TokenKind.Shape] at hraw
    | cons first text => exact ⟨first, text, rfl⟩
  have hmem (x : Char) (hx : x ∈ first :: text ++ [c]) : x ∈ first :: text ++ c :: more := by
    simp only [List.mem_append, List.mem_cons, List.not_mem_nil, or_false] at hx ⊢
    exact hx.imp_right .inl
  cases kind with
  | number =>
    obtain ⟨hfirst, hall, hcount⟩ := h
    refine ⟨hfirst, fun x hx => hall x (hmem x hx), ?_⟩
    simp only [List.cons_append, List.count_cons, List.count_append, List.count_nil] at hcount ⊢
    omega
  | identifier => exact ⟨h.1, fun x hx => h.2 x (hmem x hx)⟩
  | keyword => exact ⟨h.1, fun x hx => h.2 x (hmem x hx)⟩
  | operator => exact ⟨by simp, fun x hx => h.2 x (hmem x hx)⟩
  | punctuation => simp [TokenKind.Shape] at h
  | endOfInput => exact h.elim
  | string => exact h.elim
  | other => exact h.elim

/-- A source starts with at most one longest text of a class. -/
theorem TokenKind.Longest.unique {kind : TokenKind} {raw rest raw' rest' : List Char}
    (h : kind.Longest raw rest) (h' : kind.Longest raw' rest') (heq : raw ++ rest = raw' ++ rest') :
    raw = raw' ∧ rest = rest' := by
  obtain ⟨more, rfl, rfl⟩ | ⟨more, rfl, rfl⟩ := List.append_eq_append_iff.mp heq
  · cases more with
    | nil => simp
    | cons c more => exact absurd (h'.1.between h.1) (h.2 c rfl)
  · cases more with
    | nil => simp
    | cons c more => exact absurd (h.1.between h'.1) (h'.2 c rfl)

/-- The content of a string literal in the source, and the text that it stands for. A backslash is left
out and keeps the character after it. -/
inductive Content : List Char → List Char → Prop
  | nil : Content [] []
  | plain {c : Char} {raw body : List Char} (hquote : c ≠ '"') (hslash : c ≠ '\\')
    (hmore : Content raw body) : Content (c :: raw) (c :: body)
  | escaped (c : Char) {raw body : List Char} (hmore : Content raw body) :
    Content ('\\' :: c :: raw) (c :: body)

/-- A token of a class with a lexeme is spelled by a source text, given what follows it. -/
inductive Spelled : TokenKind → String → List Char → List Char → Prop
  | plain {kind : TokenKind} {raw rest : List Char} (longest : kind.Longest raw rest)
    (reserved : kind = .keyword → String.ofList raw ∈ keywords)
    (free : kind = .identifier → String.ofList raw ∉ keywords) :
    Spelled kind (String.ofList raw) raw rest
  | closed {raw body : List Char} (rest : List Char) (h : Content raw body) :
    Spelled .string (String.ofList body) ('"' :: (raw ++ ['"'])) rest
  | unclosed {raw body : List Char} (h : Content raw body) :
    Spelled .string (String.ofList body) ('"' :: raw) []
  | unclosedEscape {raw body : List Char} (h : Content raw body) :
    Spelled .string (String.ofList body) ('"' :: (raw ++ ['\\'])) []

end Shapes

section Strings

/-- A character of a string literal other than a backslash. -/
theorem splitString_plain {c : Char} (cs : List Char) (hquote : c ≠ '"') (hslash : c ≠ '\\') :
    splitString (c :: cs) = (c :: (splitString cs).1, c :: (splitString cs).2.1, (splitString cs).2.2) := by
  rw [splitString.eq_4 c cs (fun h => absurd h hslash) (fun _ _ h => absurd h hslash), if_neg hquote]

/-- What the content of a string literal leaves to the rest of the text. -/
theorem splitString_content {raw body : List Char} (h : Content raw body) (cs : List Char) :
    splitString (raw ++ cs) =
      (raw ++ (splitString cs).1, body ++ (splitString cs).2.1, (splitString cs).2.2) := by
  induction h with
  | nil => rfl
  | plain hquote hslash _ ih => simp only [List.cons_append, splitString_plain _ hquote hslash, ih]
  | escaped c _ ih => simp only [List.cons_append, splitString, ih]

/-- A string literal is read as content up to a quote or up to the end. -/
theorem splitString_spelled (cs : List Char) :
    Spelled .string (String.ofList (splitString cs).2.1) ('"' :: (splitString cs).1)
      (splitString cs).2.2 := by
  suffices h : ∃ raw, Content raw (splitString cs).2.1 ∧ ((splitString cs).1 = raw ++ ['"'] ∨
      (splitString cs).2.2 = [] ∧ ((splitString cs).1 = raw ∨ (splitString cs).1 = raw ++ ['\\'])) by
    obtain ⟨raw, hraw, htaken | ⟨hrest, htaken | htaken⟩⟩ := h
    · simpa only [htaken] using Spelled.closed _ hraw
    · simpa only [htaken, hrest] using Spelled.unclosed hraw
    · simpa only [htaken, hrest] using Spelled.unclosedEscape hraw
  fun_induction splitString cs with
  | case1 => exact ⟨[], .nil, by simp⟩
  | case2 => exact ⟨[], .nil, by simp⟩
  | case3 c cs raw body rest h ih =>
    obtain ⟨content, hcontent, hends⟩ := ih
    exact ⟨'\\' :: c :: content, by simpa [h] using hcontent.escaped c, by simpa [h] using hends⟩
  | case4 => exact ⟨[], .nil, by simp⟩
  | case5 c cs hlast hmore hquote raw body rest h ih =>
    obtain ⟨content, hcontent, hends⟩ := ih
    have hslash : c ≠ '\\' := by
      cases cs with
      | nil => exact fun hc => hlast hc rfl
      | cons c' cs => exact fun hc => hmore c' cs hc rfl
    exact ⟨c :: content, by simpa [h] using hcontent.plain hquote hslash, by simpa [h] using hends⟩

end Strings

section Pieces

/-- The text after the longest start of one class begins with none of it. -/
theorem head?_dropWhile_eq_false {p : Char → Bool} {cs : List Char} {c : Char}
    (h : c ∈ (cs.dropWhile p).head?) : p c = false := by
  have hnot := List.head?_dropWhile_not p cs
  rw [h] at hnot
  exact hnot

/-- The lexer takes the longest number that stands ahead. -/
theorem splitNumber_longest {c : Char} (cs : List Char) (hc : Number.isDigit c) :
    TokenKind.number.Longest (splitNumber (c :: cs)).1 (splitNumber (c :: cs)).2 := by
  have hpoint (l : List Char) : (l.takeWhile Number.isDigit).count '.' = 0 :=
    List.count_eq_zero.mpr fun h => absurd (List.mem_takeWhile_imp h) (by decide)
  have hfirst : (List.takeWhile Number.isDigit (c :: cs)) = c :: cs.takeWhile Number.isDigit := by
    simp [hc]
  simp only [splitNumber]
  split
  · next rest heq =>
    constructor
    · refine ⟨⟨c, by simp [hfirst], hc⟩, ?_, ?_⟩
      · intro x hx
        simp only [List.mem_append, List.mem_cons] at hx
        obtain hx | rfl | hx := hx
        · exact .inl (List.mem_takeWhile_imp hx)
        · exact .inr rfl
        · exact .inl (List.mem_takeWhile_imp hx)
      · simp [List.count_append, hpoint]
    · rintro x hx ⟨-, hall, hcount⟩
      have hdigit := head?_dropWhile_eq_false hx
      obtain rfl : x = '.' := by simpa [hdigit] using hall x (by simp)
      simp [List.count_append, hpoint] at hcount
  · next hnone =>
    constructor
    · exact ⟨⟨c, by simp [hfirst], hc⟩, fun x hx => .inl (List.mem_takeWhile_imp hx), by simp [hpoint]⟩
    · rintro x hx ⟨-, hall, -⟩
      have hdigit := head?_dropWhile_eq_false hx
      obtain rfl : x = '.' := by simpa [hdigit] using hall x (by simp)
      obtain ⟨rest, hrest⟩ := List.head?_eq_some_iff.mp hx
      exact hnone rest hrest

/-- The characters of words that stand ahead are the longest word. -/
theorem takeWhile_word_longest {c : Char} (cs : List Char) (hc : isWordStart c) :
    TokenKind.identifier.Longest ((c :: cs).takeWhile isWordPart) ((c :: cs).dropWhile isWordPart) := by
  constructor
  · exact ⟨⟨c, by simp [isWordPart, hc], hc⟩, fun x hx => List.mem_takeWhile_imp hx⟩
  · intro x hx hshape
    have hpart := hshape.2 x (by simp)
    simp [head?_dropWhile_eq_false hx] at hpart

/-- The operator signs that stand ahead are the longest operator. -/
theorem takeWhile_operator_longest {c : Char} (cs : List Char) (hc : isOperatorSign c) :
    TokenKind.operator.Longest ((c :: cs).takeWhile isOperatorSign)
      ((c :: cs).dropWhile isOperatorSign) := by
  constructor
  · exact ⟨by simp [hc], fun x hx => List.mem_takeWhile_imp hx⟩
  · intro x hx hshape
    have hsign := hshape.2 x (by simp)
    simp [head?_dropWhile_eq_false hx] at hsign

/-- A sign is never extended. -/
theorem punctuation_longest {c : Char} (rest : List Char) (hc : isPunctuationSign c) :
    TokenKind.punctuation.Longest [c] rest :=
  ⟨⟨c, rfl, hc⟩, fun x _ hshape => by simp [TokenKind.Shape] at hshape⟩

/-- The first character tells a number. -/
theorem firstPiece?_number {c : Char} (cs : List Char) (hc : Number.isDigit c) :
    firstPiece? (c :: cs) = some ⟨.number, String.ofList (splitNumber (c :: cs)).1,
      (splitNumber (c :: cs)).1, (splitNumber (c :: cs)).2⟩ := by
  have hquote : c ≠ '"' := by
    intro h
    subst h
    exact absurd hc (by decide)
  simp [firstPiece?, hquote, hc]

/-- What starts like a word is lexed as a word. -/
theorem firstPiece?_word {c : Char} (cs : List Char) (hc : isWordStart c) :
    firstPiece? (c :: cs) = some ⟨wordKind (String.ofList ((c :: cs).takeWhile isWordPart)),
      String.ofList ((c :: cs).takeWhile isWordPart), (c :: cs).takeWhile isWordPart,
      (c :: cs).dropWhile isWordPart⟩ := by
  have hquote : c ≠ '"' := by
    intro h
    subst h
    exact absurd hc (by decide)
  have hdigit : Number.isDigit c = false := by
    simp only [isWordStart, Number.isDigit, Char.le_def, UInt32.le_iff_toNat_le, Char.ext_iff,
      ← UInt32.toNat_inj] at hc ⊢
    grind
  simp only [firstPiece?, hquote, hdigit, hc, if_false, if_true, Bool.false_eq_true]

/-- What starts with a sign is lexed as that sign. -/
theorem firstPiece?_punctuation {c : Char} (cs : List Char) (hc : isPunctuationSign c) :
    firstPiece? (c :: cs) = some ⟨.punctuation, String.singleton c, [c], cs⟩ := by
  simp only [isPunctuationSign, List.mem_cons, List.not_mem_nil, or_false, decide_eq_true_eq] at hc
  obtain rfl | rfl | rfl | rfl | rfl | rfl := hc <;> rfl

/-- What starts with an operator sign is lexed as an operator. -/
theorem firstPiece?_operator {c : Char} (cs : List Char) (hc : isOperatorSign c) :
    firstPiece? (c :: cs) = some ⟨.operator, String.ofList ((c :: cs).takeWhile isOperatorSign),
      (c :: cs).takeWhile isOperatorSign, (c :: cs).dropWhile isOperatorSign⟩ := by
  simp only [isOperatorSign, List.mem_cons, List.not_mem_nil, or_false, decide_eq_true_eq] at hc
  obtain rfl | rfl | rfl | rfl | rfl | rfl | rfl | rfl | rfl | rfl | rfl := hc <;> rfl

/-- The longest word spells a reserved word or a name. -/
theorem spelled_word {raw rest : List Char} (h : TokenKind.identifier.Longest raw rest) :
    Spelled (wordKind (String.ofList raw)) (String.ofList raw) raw rest := by
  by_cases hword : String.ofList raw ∈ keywords
  · rw [wordKind, if_pos hword]
    exact .plain h (fun _ => hword) (by simp)
  · rw [wordKind, if_neg hword]
    exact .plain h (by simp) (fun _ => hword)

/-- The token that the lexer finds is spelled so. -/
theorem firstPiece?_spelled {cs : List Char} {t : Piece} (h : firstPiece? cs = some t) :
    Spelled t.kind t.lexeme t.raw t.rest := by
  cases cs with
  | nil => simp [firstPiece?] at h
  | cons c cs =>
    simp only [firstPiece?] at h
    split at h
    · next hquote =>
      cases h
      subst hquote
      exact splitString_spelled cs
    · split at h
      · next hdigit =>
        cases h
        exact .plain (splitNumber_longest cs hdigit) (by simp) (by simp)
      · split at h
        · next hword =>
          cases h
          exact spelled_word (takeWhile_word_longest cs hword)
        · split at h
          · next hsign =>
            cases h
            exact .plain (punctuation_longest cs hsign) (by simp) (by simp)
          · split at h
            · next hsign =>
              cases h
              exact .plain (takeWhile_operator_longest cs hsign) (by simp) (by simp)
            · simp at h

/-- The longest word that stands ahead is what the lexer takes. -/
theorem firstPiece?_longest_word {raw rest : List Char} (h : TokenKind.identifier.Longest raw rest) :
    firstPiece? (raw ++ rest) =
      some ⟨wordKind (String.ofList raw), String.ofList raw, raw, rest⟩ := by
  obtain ⟨⟨c, hhead, hc⟩, -⟩ := h.1
  obtain ⟨text, rfl⟩ := List.head?_eq_some_iff.mp hhead
  have hsplit := (takeWhile_word_longest (text ++ rest) hc).unique h List.takeWhile_append_dropWhile
  rw [List.cons_append, firstPiece?_word _ hc, hsplit.1, hsplit.2]

/-- The token that is spelled ahead is the one that the lexer finds. -/
theorem Spelled.firstPiece?_eq {kind : TokenKind} {lexeme : String} {raw rest : List Char}
    (h : Spelled kind lexeme raw rest) : firstPiece? (raw ++ rest) = some ⟨kind, lexeme, raw, rest⟩ := by
  cases h with
  | plain longest reserved free =>
    cases kind with
    | number =>
      obtain ⟨⟨c, hhead, hc⟩, -⟩ := longest.1
      obtain ⟨text, rfl⟩ := List.head?_eq_some_iff.mp hhead
      have hsplit := (splitNumber_longest (text ++ rest) hc).unique longest (splitNumber_append _)
      rw [List.cons_append, firstPiece?_number _ hc, hsplit.1, hsplit.2]
    | identifier => rw [firstPiece?_longest_word longest, wordKind, if_neg (free rfl)]
    | keyword => rw [firstPiece?_longest_word longest, wordKind, if_pos (reserved rfl)]
    | operator =>
      obtain ⟨c, text, rfl⟩ := List.exists_cons_of_ne_nil longest.1.1
      have hc := longest.1.2 c List.mem_cons_self
      have hsplit := (takeWhile_operator_longest (text ++ rest) hc).unique longest
        List.takeWhile_append_dropWhile
      rw [List.cons_append, firstPiece?_operator _ hc, hsplit.1, hsplit.2]
    | punctuation =>
      obtain ⟨c, rfl, hc⟩ := longest.1
      exact firstPiece?_punctuation rest hc
    | endOfInput => exact longest.1.elim
    | string => exact longest.1.elim
    | other => exact longest.1.elim
  | closed rest hcontent =>
    simp [firstPiece?, splitString_content hcontent, splitString]
  | unclosed hcontent =>
    have hsplit := splitString_content hcontent []
    simp only [List.append_nil, splitString] at hsplit
    simp [firstPiece?, hsplit]
  | unclosedEscape hcontent =>
    simp [firstPiece?, splitString_content hcontent, splitString]

/-- A character that some token starts with. -/
def StartsToken (c : Char) : Prop := ∃ kind lexeme text rest, Spelled kind lexeme (c :: text) rest

/-- Whether there is a token ahead is told from one character. -/
theorem firstPiece?_isSome_cons (c : Char) (cs cs' : List Char) :
    (firstPiece? (c :: cs)).isSome = (firstPiece? (c :: cs')).isSome := by
  simp only [firstPiece?, apply_ite Option.isSome, Option.isSome_some]

/-- The lexer finds no token exactly where none can start. -/
theorem firstPiece?_eq_none_iff {c : Char} {cs : List Char} :
    firstPiece? (c :: cs) = none ↔ ¬ StartsToken c := by
  constructor
  · rintro hnone ⟨kind, lexeme, text, rest, hspelled⟩
    have hsome := firstPiece?_isSome_cons c cs (text ++ rest)
    rw [← List.cons_append, hspelled.firstPiece?_eq, hnone] at hsome
    simp at hsome
  · intro hstarts
    apply Option.eq_none_iff_forall_ne_some.mpr
    intro t ht
    have hspelled := firstPiece?_spelled ht
    obtain ⟨first, text, hraw⟩ := List.exists_cons_of_ne_nil (firstPiece?_raw_ne_nil ht)
    have hsame := firstPiece?_append ht
    rw [hraw, List.cons_append, List.cons.injEq] at hsame
    obtain ⟨rfl, -⟩ := hsame
    exact hstarts ⟨_, _, _, _, hraw ▸ hspelled⟩

end Pieces

end StuffScript
