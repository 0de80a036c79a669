import StuffScript.Proofs.ParserCompleteness

/-!
# Which sources are programs

A source text parses exactly if all of it can be read as tokens and these form a program by the grammar.
The tree returned is the tree of the derivation, with chains grouped by how tightly operators bind; there
is no other tree with a derivation of that kind, since parsing has one result. Whether there is a tree at
all does not depend on how chains are grouped.

The main statement is `parse_accepts_grammar`. It says nothing about which error is reported otherwise.
-/

namespace StuffScript

/-- A list of expressions is parsed to the proper end of a stream, and its tokens form them. -/
theorem parseProgram_sound {items es : List Expr} {s : Stream} (h : parseProgram items s = .ok es) :
    s.error? = none ∧ ∃ more, es = items.reverse ++ more ∧
      Reads GroupsByPower (.program more) s.words [] := by
  induction hsize : s.size using Nat.strongRecOn generalizing s items with
  | ind n ih =>
    subst hsize
    cases s with
    | broken d =>
      rw [parseProgram] at h
      cases h
    | finish last =>
      rw [parseProgram] at h
      cases h
      exact ⟨rfl, [], (List.append_nil _).symm, .programEnd⟩
    | token t s =>
      obtain ⟨e, rest, he, hmore⟩ := parseProgram_token.mp h
      have hexpr := (parsesSoundly _).expr he
      obtain ⟨hend, more, rfl, hreads⟩ := ih rest.size he.shorter hmore rfl
      refine ⟨hexpr.ending.symm.trans hend, e :: more, ?_, .next hexpr.reads hreads⟩
      rw [List.reverse_cons, List.append_assoc, List.singleton_append]

/-- Parsing succeeds on a stream with some expressions exactly if the stream comes to its proper end and
its tokens form them. -/
theorem parseProgram_iff {s : Stream} {es : List Expr} :
    parseProgram [] s = .ok es ↔
      s.error? = none ∧ Reads GroupsByPower (.program es) s.words [] := by
  constructor
  · intro h
    obtain ⟨hend, more, rfl, hreads⟩ := parseProgram_sound h
    exact ⟨hend, hreads⟩
  · rintro ⟨hend, hreads⟩
    obtain ⟨last, hs⟩ := Stream.eq_ofWords hend
    have hfound := hreads.found last [] rfl
    rw [← hs] at hfound
    exact hfound

/-- A source parses to the block of the expressions that its tokens parse to. -/
theorem parse_iff {source : String} {e : Expr} :
    parse source = .ok e ↔
      ∃ items, e = .block ⟨1, 1⟩ items ∧ parseProgram [] (.ofString source) = .ok items := by
  unfold parse
  cases parseProgram [] (.ofString source) with
  | error d =>
    constructor
    · intro h
      cases h
    · rintro ⟨_, _, h⟩
      cases h
  | ok items =>
    constructor
    · intro h
      cases h
      exact ⟨items, rfl, rfl⟩
    · rintro ⟨_, rfl, h⟩
      cases h
      rfl

/-- A source text is accepted exactly if it can be read as tokens to its end and all of them form a
program, chains being grouped in any order-keeping way. It is accepted with a tree exactly if that is the
block, from the first character on, of expressions that all its tokens form when chains are grouped by
how tightly operators bind. -/
theorem parse_accepts_grammar (source : String) :
    ((∃ e, parse source = .ok e) ↔ (Stream.ofString source).error? = none ∧
      ∃ items, Reads Groups (.program items) (Stream.ofString source).words []) ∧
    ∀ e, parse source = .ok e ↔ (Stream.ofString source).error? = none ∧
      ∃ items, e = .block ⟨1, 1⟩ items ∧
        Reads GroupsByPower (.program items) (Stream.ofString source).words [] := by
  have htree (e : Expr) : parse source = .ok e ↔ (Stream.ofString source).error? = none ∧
      ∃ items, e = .block ⟨1, 1⟩ items ∧
        Reads GroupsByPower (.program items) (Stream.ofString source).words [] := by
    rw [parse_iff]
    simp only [parseProgram_iff]
    constructor
    · rintro ⟨items, he, hend, hreads⟩
      exact ⟨hend, items, he, hreads⟩
    · rintro ⟨hend, items, he, hreads⟩
      exact ⟨items, he, hend, hreads⟩
  refine ⟨?_, htree⟩
  constructor
  · rintro ⟨e, he⟩
    obtain ⟨hend, items, _, hreads⟩ := (htree e).mp he
    exact ⟨hend, hreads.regroup fun first ops _ => Groups.exists first ops⟩
  · rintro ⟨hend, items, hreads⟩
    obtain ⟨items', hreads'⟩ := hreads.regroup GroupsByPower.exists
    exact ⟨.block ⟨1, 1⟩ items', (htree _).mpr ⟨hend, items', rfl, hreads'⟩⟩

end StuffScript
