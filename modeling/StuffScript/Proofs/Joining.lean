import StuffScript.Proofs.Layout

/-!
# Texts one after another

The tokens of two texts put together are those of the one and then those of the other, if the first text
ends at a line end that stands in none of its tokens. Which gap or token is ahead depends on no more than
the next character behind it.

The main statement is `Layout.append`.
-/

namespace StuffScript

/-- A text without a line that is still open. -/
def EndsLine (cs : List Char) : Prop := ∀ c ∈ cs.getLast?, c = '\n'

/-- What a text ends with ends its line if the text does. -/
theorem EndsLine.of_append (cs : List Char) {ds : List Char} (h : EndsLine (cs ++ ds)) :
    EndsLine ds := by
  intro c hc
  apply h c
  rw [List.getLast?_append, hc]
  rfl

/-- A text that ends its line has a line end in it, unless it is empty. -/
theorem EndsLine.newline_mem {cs : List Char} (h : EndsLine cs) (hne : cs ≠ []) : '\n' ∈ cs := by
  have hmem := List.getLast_mem hne
  rwa [h _ (List.getLast?_eq_some_getLast hne)] at hmem

/-- A gap is told from what it holds and from the character behind it. -/
theorem Gap.of_head? {gap rest rest' : List Char} (h : Gap gap rest) (hhead : rest'.head? = rest.head?) :
    Gap gap rest' := by
  induction h with
  | none => exact .none rest'
  | space hc _ ih => exact .space hc (ih hhead)
  | comment htext hend _ ih =>
    refine .comment htext ?_ (ih hhead)
    rwa [List.head?_append, hhead, ← List.head?_append]

/-- Gaps join where a line ends, since no comment is open there. -/
theorem Gap.append {gap gap' rest : List Char} (h : Gap gap []) (hline : EndsLine gap)
    (h' : Gap gap' rest) : Gap (gap ++ gap') rest := by
  generalize hlast : ([] : List Char) = last at h
  induction h with
  | none => exact h'
  | @space c gap _ hc _ ih => exact .space hc (ih (EndsLine.of_append [c] hline) hlast)
  | @comment text gap _ htext hend _ ih =>
    subst hlast
    rw [List.append_nil] at hend
    have hgap : EndsLine gap := EndsLine.of_append ('~' :: text) hline
    rw [List.cons_append, List.append_assoc]
    refine .comment htext ?_ (ih hgap rfl)
    cases gap with
    | nil =>
      -- The comment would end with the text, and its last character would be a line end.
      have hnewline := hline.newline_mem (List.cons_ne_nil _ _)
      simp [htext] at hnewline
    | cons c gap => exact fun x hx => hend x hx

/-- A string literal keeps the line ends it is written over. -/
theorem Content.newline_mem {raw body : List Char} (h : Content raw body) (hraw : '\n' ∈ raw) :
    '\n' ∈ body := by
  induction h with
  | nil => simp at hraw
  | plain _ _ _ ih =>
    simp only [List.mem_cons] at hraw ⊢
    exact hraw.imp_right ih
  | escaped c _ ih =>
    have hslash : '\n' ≠ '\\' := by decide
    simp only [List.mem_cons, hslash, false_or] at hraw ⊢
    exact hraw.imp_right ih

/-- A token holds no line end, unless it is a string literal that keeps it. -/
theorem Spelled.newline_not_mem {kind : TokenKind} {lexeme : String} {raw rest : List Char}
    (h : Spelled kind lexeme raw rest) (hstring : kind = .string → '\n' ∉ lexeme.toList) :
    '\n' ∉ raw := by
  cases h with
  | plain longest => exact longest.1.space_not_mem (by decide)
  | closed rest hcontent =>
    rw [String.toList_ofList] at hstring
    have hraw := mt hcontent.newline_mem (hstring rfl)
    simp [hraw]
  | unclosed hcontent =>
    rw [String.toList_ofList] at hstring
    have hraw := mt hcontent.newline_mem (hstring rfl)
    simp [hraw]
  | unclosedEscape hcontent =>
    rw [String.toList_ofList] at hstring
    have hraw := mt hcontent.newline_mem (hstring rfl)
    simp [hraw]

/-- A token that something follows is told from its text and from the character behind it. -/
theorem Spelled.of_head? {kind : TokenKind} {lexeme : String} {raw rest rest' : List Char}
    (h : Spelled kind lexeme raw rest) (hrest : rest ≠ []) (hhead : rest'.head? = rest.head?) :
    Spelled kind lexeme raw rest' := by
  cases h with
  | plain longest reserved free => exact .plain ⟨longest.1, hhead ▸ longest.2⟩ reserved free
  | closed rest hcontent => exact .closed rest' hcontent
  | unclosed => exact absurd rfl hrest
  | unclosedEscape => exact absurd rfl hrest

/-- A token that something follows, and the gap before it, stay when the source goes on. -/
theorem Spelled.extend {kind : TokenKind} {lexeme : String} {gap raw rest : List Char}
    (h : Spelled kind lexeme raw rest) (hgap : Gap gap (raw ++ rest)) (hrest : rest ≠ [])
    (more : List Char) :
    Gap gap (raw ++ (rest ++ more)) ∧ Spelled kind lexeme raw (rest ++ more) := by
  have hhead : (rest ++ more).head? = rest.head? := by
    obtain ⟨c, text, rfl⟩ := List.exists_cons_of_ne_nil hrest
    rfl
  refine ⟨hgap.of_head? ?_, h.of_head? hrest hhead⟩
  rw [List.head?_append, hhead, ← List.head?_append]

/-- A gap before a text adds nothing to it. -/
theorem Layout.after_gap {gap cs unread : List Char} {tokens : List (TokenKind × String)}
    (hgap : Gap gap []) (hline : EndsLine gap) (h : Layout cs tokens unread) :
    Layout (gap ++ cs) tokens unread := by
  cases h with
  | stop hgap' hpast hstarts =>
    rw [← List.append_assoc]
    exact .stop (hgap.append hline hgap') hpast hstarts
  | token hgap' hraw hmore =>
    rw [← List.append_assoc]
    exact .token (hgap.append hline hgap') hraw hmore

/-- Texts are laid out one after another, if the first ends a line outside its tokens. -/
theorem Layout.append {cs cs' unread : List Char} {tokens tokens' : List (TokenKind × String)}
    (h : Layout cs tokens []) (hline : EndsLine cs)
    (hstrings : ∀ t ∈ tokens, t.1 = .string → '\n' ∉ t.2.toList) (h' : Layout cs' tokens' unread) :
    Layout (cs ++ cs') (tokens ++ tokens') unread := by
  generalize hlast : ([] : List Char) = last at h
  induction h with
  | stop hgap =>
    subst hlast
    rw [List.append_nil] at hline ⊢
    exact h'.after_gap hgap hline
  | @token gap raw rest _ kind lexeme more hgap hraw _ ih =>
    have hline' : EndsLine rest := (hline.of_append gap).of_append raw
    have hmore := ih hline' (fun t ht => hstrings t (List.mem_cons_of_mem _ ht)) hlast
    have hrest : rest ≠ [] := by
      intro hnil
      have hnewline := hraw.newline_not_mem (hstrings _ List.mem_cons_self)
      rw [hnil, List.append_nil] at hline
      exact hnewline ((hline.of_append gap).newline_mem (firstPiece?_raw_ne_nil hraw.firstPiece?_eq))
    obtain ⟨hgap', hraw'⟩ := hraw.extend hgap hrest cs'
    rw [List.append_assoc, List.append_assoc, List.cons_append]
    exact .token hgap' hraw' hmore

end StuffScript
