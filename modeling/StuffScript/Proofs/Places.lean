import StuffScript.Proofs.Layout

/-!
# Where tokens stand

Each token of a source stands behind those before it, the end of the source behind them all. So the place
in a diagnostic tells which token it is about.

The main statement is `positions_nodup`.
-/

namespace StuffScript

/-- One position comes before another in reading order. -/
def Position.Before (p q : Position) : Prop := p.line < q.line ∨ p.line = q.line ∧ p.col < q.col

namespace Position

/-- What is before a place is before all that comes after that place. -/
theorem Before.trans {p q r : Position} (h : p.Before q) (h' : q.Before r) : p.Before r := by
  unfold Before at *
  omega

/-- No place is before itself. -/
theorem Before.ne {p q : Position} (h : p.Before q) : p ≠ q := by
  intro heq
  subst heq
  unfold Before at h
  omega

/-- One column further on both sides keeps the order. -/
theorem Before.next {p q : Position} (h : p.Before q) : p.next.Before q.next := by
  simp only [Before, Position.next] at *
  omega

/-- A character takes the place further. -/
theorem before_after (p : Position) (c : Char) : p.Before (p.after c) := by
  unfold after
  split
  · exact .inl (Int.lt_succ p.line)
  · exact .inr ⟨rfl, Int.lt_succ p.col⟩

/-- Text takes the place further, unless it is empty. -/
theorem before_afterAll (p : Position) {cs : List Char} (h : cs ≠ []) : p.Before (p.afterAll cs) := by
  induction cs generalizing p with
  | nil => exact absurd rfl h
  | cons c cs ih =>
    rw [afterAll_cons]
    by_cases hcs : cs = []
    · rw [hcs, afterAll_nil]
      exact p.before_after c
    · exact (p.before_after c).trans (ih (p.after c) hcs)

end Position

/-- Tokens stand behind the place where reading starts, and one behind the other. -/
theorem Layout.positions {cs unread : List Char} {tokens : List (TokenKind × String)}
    (h : Layout cs tokens unread) (p : Position) :
    (∀ t ∈ (Stream.ofCursor ⟨cs, p⟩).tokens, ∃ passed, t.position = (p.afterAll passed).next) ∧
      (Stream.ofCursor ⟨cs, p⟩).tokens.Pairwise fun t u => t.position.Before u.position := by
  induction h generalizing p with
  | @stop gap unread hgap hpast hstarts =>
    cases unread with
    | nil =>
      rw [List.append_nil, Stream.ofCursor, readToken_end hgap]
      simp only [dif_pos, Stream.tokens]
      exact ⟨fun t ht => ⟨gap, by rw [List.mem_singleton.mp ht]⟩, List.pairwise_singleton _ _⟩
    | cons c cs =>
      rw [Stream.ofCursor, readToken_bad hgap hpast (hstarts c rfl)]
      simp [Stream.tokens]
  | @token gap raw rest _ kind lexeme more hgap hraw hmore ih =>
    rw [Stream.ofCursor, readToken_spelled hgap hraw]
    simp only [hraw.kind_ne_endOfInput, dif_neg, not_false_eq_true, Stream.tokens]
    obtain ⟨hplaces, hordered⟩ := ih (p.afterAll (gap ++ raw))
    have hbehind (t : Token) (ht : t ∈ (Stream.ofCursor ⟨rest, p.afterAll (gap ++ raw)⟩).tokens) :
        ∃ passed, t.position = ((p.afterAll gap).afterAll (raw ++ passed)).next := by
      obtain ⟨passed, hpassed⟩ := hplaces t ht
      exact ⟨passed, by rw [hpassed, ← Position.afterAll_append, ← Position.afterAll_append,
        List.append_assoc]⟩
    constructor
    · intro t ht
      obtain rfl | ht := List.mem_cons.mp ht
      · exact ⟨gap, rfl⟩
      · obtain ⟨passed, hpassed⟩ := hbehind t ht
        exact ⟨gap ++ (raw ++ passed), by rw [hpassed, ← Position.afterAll_append]⟩
    · refine List.pairwise_cons.mpr ⟨fun t ht => ?_, hordered⟩
      obtain ⟨passed, hpassed⟩ := hbehind t ht
      have hne : raw ++ passed ≠ [] :=
        List.append_ne_nil_of_left_ne_nil (firstPiece?_raw_ne_nil hraw.firstPiece?_eq) passed
      rw [hpassed]
      exact (Position.before_afterAll _ hne).next

/-- No two tokens of a source have one place. -/
theorem positions_nodup (source : String) :
    ((Stream.ofString source).tokens.map Token.position).Nodup := by
  obtain ⟨tokens, unread, h⟩ := exists_layout source.toList
  rw [List.nodup_iff_pairwise_ne, List.pairwise_map]
  exact (h.positions .start).2.imp Position.Before.ne

end StuffScript
