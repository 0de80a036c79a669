import StuffScript.Token.Lexer

/-!
# Token streams

A stream holds all tokens of a source in order. It ends with the token for the end of the source, or
with the diagnostic for a character that starts no token. The main statement here is that reading a
token makes the rest of the source shorter, which is why the stream is finite.
-/

namespace StuffScript

/-- The tokens of a source, up to its end or to its first bad character. -/
inductive Stream where
  | token (t : Token) (rest : Stream)
  | finish (last : Token)
  | broken (d : Diagnostic)
deriving Repr

/-- The number of tokens before the end. -/
def Stream.size : Stream → Nat
  | .token _ rest => rest.size + 1
  | .finish _ => 0
  | .broken _ => 0

/-- The tokens of a stream, the one for the end included. -/
def Stream.tokens : Stream → List Token
  | .token t rest => t :: rest.tokens
  | .finish last => [last]
  | .broken _ => []

/-- The tokens of a stream before its end. -/
def Stream.words : Stream → List Token
  | .token t rest => t :: rest.words
  | .finish _ => []
  | .broken _ => []

/-- What a stream breaks off with. -/
def Stream.error? : Stream → Option Diagnostic
  | .token _ rest => rest.error?
  | .finish _ => none
  | .broken d => some d

/-- A gap and the rest make up the text. -/
theorem splitGap_append (inComment : Bool) (cs : List Char) :
    (splitGap inComment cs).1 ++ (splitGap inComment cs).2 = cs := by
  induction cs generalizing inComment with
  | nil => cases inComment <;> rfl
  | cons c cs ih =>
    cases inComment with
    | true => simp only [splitGap, List.cons_append, ih]
    | false =>
      simp only [splitGap]
      split
      · simp only [List.cons_append, ih]
      · split
        · simp only [List.cons_append, ih]
        · rfl

/-- A string literal and what follows it make up the text. -/
theorem splitString_append (cs : List Char) :
    (splitString cs).1 ++ (splitString cs).2.2 = cs := by
  fun_induction splitString cs with
  | case1 => rfl
  | case2 => rfl
  | case3 c cs raw body rest h ih => simp_all
  | case4 => rfl
  | case5 c cs _ _ _ raw body rest h ih => simp_all

/-- A number and what follows it make up the text. -/
theorem splitNumber_append (cs : List Char) : (splitNumber cs).1 ++ (splitNumber cs).2 = cs := by
  have hcs := List.takeWhile_append_dropWhile (p := Number.isDigit) (l := cs)
  simp only [splitNumber]
  split
  · next rest heq =>
    have hrest := List.takeWhile_append_dropWhile (p := Number.isDigit) (l := rest)
    rw [heq] at hcs
    simp only [List.append_assoc, List.cons_append, hrest, hcs]
  · exact hcs

/-- The source text of a token and what follows it make up the text. -/
theorem firstPiece?_append {cs : List Char} {t : Piece} (h : firstPiece? cs = some t) :
    t.raw ++ t.rest = cs := by
  cases cs with
  | nil => simp [firstPiece?] at h
  | cons c cs =>
    simp only [firstPiece?] at h
    split at h
    · cases h
      exact congrArg (c :: ·) (splitString_append cs)
    · split at h
      · cases h
        exact splitNumber_append (c :: cs)
      · split at h
        · cases h
          exact List.takeWhile_append_dropWhile
        · split at h
          · cases h
            rfl
          · split at h
            · cases h
              exact List.takeWhile_append_dropWhile
            · simp at h

/-- Every token takes at least one character. -/
theorem firstPiece?_raw_ne_nil {cs : List Char} {t : Piece} (h : firstPiece? cs = some t) :
    t.raw ≠ [] := by
  cases cs with
  | nil => simp [firstPiece?] at h
  | cons c cs =>
    simp only [firstPiece?] at h
    split at h
    · cases h
      simp
    · split at h
      · next hd =>
        cases h
        simp only [splitNumber, List.takeWhile_cons, hd, if_true]
        split <;> simp
      · split at h
        · next hw =>
          cases h
          simp [isWordPart, hw]
        · split at h
          · cases h
            simp
          · split at h
            · next ho =>
              cases h
              simp [ho]
            · simp at h

/-- Taking a token leaves less of the source. -/
theorem firstPiece?_length_lt {cs : List Char} {t : Piece} (h : firstPiece? cs = some t) :
    t.rest.length < cs.length := by
  have hraw := List.length_pos_iff.mpr (firstPiece?_raw_ne_nil h)
  have hlen := congrArg List.length (firstPiece?_append h)
  rw [List.length_append] at hlen
  omega

/-- Skipping a gap leaves no more of the source. -/
theorem Cursor.skipGap_length_le (c : Cursor) : c.skipGap.rest.length ≤ c.rest.length := by
  have hlen := congrArg List.length (splitGap_append false c.rest)
  rw [List.length_append] at hlen
  show (splitGap false c.rest).2.length ≤ _
  omega

/-- Reading a token other than the end leaves less to read. -/
theorem Cursor.readToken_length_lt {c c' : Cursor} {t : Token} (h : c.readToken = (.ok t, c'))
    (ht : t.kind ≠ .endOfInput) : c'.rest.length < c.rest.length := by
  have hgap := c.skipGap_length_le
  simp only [Cursor.readToken] at h
  split at h
  · simp only [Prod.mk.injEq, Except.ok.injEq] at h
    exact absurd (by rw [← h.1]) ht
  · split at h
    · next hfirst =>
      have hlt := firstPiece?_length_lt hfirst
      simp only [Prod.mk.injEq] at h
      rw [← h.2]
      exact Nat.lt_of_lt_of_le hlt hgap
    · simp at h

/-- The tokens from a place in a source on. -/
def Stream.ofCursor (c : Cursor) : Stream :=
  match _h : c.readToken with
  | (.error d, _) => .broken d
  | (.ok t, c') => if _ht : t.kind = .endOfInput then .finish t else .token t (Stream.ofCursor c')
termination_by c.rest.length
decreasing_by exact Cursor.readToken_length_lt _h _ht

/-- The tokens of a source text. -/
def Stream.ofString (source : String) : Stream := .ofCursor (.ofString source)

end StuffScript
