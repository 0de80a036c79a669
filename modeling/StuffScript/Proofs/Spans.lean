import StuffScript.Proofs.Consumption
import StuffScript.Proofs.Offsets

/-!
# Places of nodes

Every node of a tree carries the place of the first token that was consumed for it, parentheses for grouping
left aside. For a literal, a name, a prefix form or a block this is a token of its own. An assignment, an
operation or a call has copied the place from its left side, through however many regroupings and
parentheses.

Places never go back in a listing of the tree with each node before its parts: they are those of tokens, and
the parts of a node take their tokens from stretches that lie one behind the other. The main statement is
`spans_follow_tokens`.
-/

namespace StuffScript

/-- The token that an expression is known by, or the part whose place it shares. -/
def Expr.LedBy (t : Token) : Expr → Prop
  | .number _ lexeme _ => t.kind = .number ∧ t.lexeme = lexeme
  | .string _ value => t.kind = .string ∧ t.lexeme = value
  | .bool _ value => t.isKeyword (if value then "true" else "false")
  | .ident _ name => t.kind = .identifier ∧ t.lexeme = name
  | .assign s target _ => s = target.span
  | .binary s left _ _ => s = left.span
  | .call s callee _ => s = callee.span
  | .function .. => t.isKeyword "fun"
  | .ifThen .. => t.isKeyword "if"
  | .ifElse .. => t.isKeyword "if"
  | .loop .. => t.isKeyword "loop"
  | .stuff .. => t.isKeyword "stuff"
  | .unstuff .. => t.isKeyword "unstuff"
  | .block .. => t.isPunctuation "["

/-- The first token that is not an opening parenthesis. -/
def firstWord? (ts : List Token) : Option Token := ts.find? (!·.isPunctuation "(")

/-- An expression has the place of the first token consumed for it that is not an opening parenthesis. -/
def Expr.StartsIn (ts : List Token) (e : Expr) : Prop :=
  ∃ t, firstWord? ts = some t ∧ e.span = t.position ∧ e.LedBy t

/-- Tokens that stand one behind the other. -/
def InOrder (ts : List Token) : Prop := ts.Pairwise fun t u => t.position.Before u.position

/-- Places that never go back. -/
def NeverBack (places : List Position) : Prop := places.Pairwise fun p q => ¬ q.Before p

section Words

/-- Of two places only one is before the other. -/
theorem Position.Before.asymm {p q : Position} (h : p.Before q) : ¬ q.Before p :=
  fun h' => (h.trans h').ne rfl

/-- A token that is no opening parenthesis is the first word. -/
theorem firstWord?_cons {t : Token} (ts : List Token) (h : ¬ t.isPunctuation "(") :
    firstWord? (t :: ts) = some t := by
  simp [firstWord?, h]

/-- More tokens behind do not change the first word. -/
theorem firstWord?_append {ts : List Token} {t : Token} (h : firstWord? ts = some t) (us : List Token) :
    firstWord? (ts ++ us) = some t := by
  rw [firstWord?, List.find?_append]
  exact (congrArg (Option.or · _) h)

/-- An opening parenthesis in front does not change the first word. -/
theorem firstWord?_parens {t : Token} (ht : t.isPunctuation "(") (ts : List Token) :
    firstWord? (t :: ts) = firstWord? ts := by
  simp [firstWord?, ht]

/-- No other token stands before the first one. -/
theorem InOrder.firstWord?_le {ts : List Token} {t u : Token} (h : InOrder ts)
    (ht : firstWord? ts = some t) (hu : u ∈ ts) (hword : ¬ u.isPunctuation "(") :
    ¬ u.position.Before t.position := by
  induction ts with
  | nil => simp at hu
  | cons first ts ih =>
    obtain ⟨hfirst, hmore⟩ := List.pairwise_cons.mp h
    by_cases hparen : first.isPunctuation "("
    · rw [firstWord?_parens hparen] at ht
      rcases List.mem_cons.mp hu with rfl | hu
      · exact absurd hparen hword
      · exact ih hmore ht hu
    · rw [firstWord?_cons ts hparen] at ht
      cases ht
      rcases List.mem_cons.mp hu with rfl | hu
      · exact fun hself => hself.ne rfl
      · exact (hfirst u hu).asymm

end Words

section Nodes

/-- An expression known by its first token starts with it. -/
theorem Expr.startsIn_own {e : Expr} {t : Token} {ts : List Token} (hword : ¬ t.isPunctuation "(")
    (hspan : ∃ u, (t :: ts).head? = some u ∧ e.span = u.position) (hled : e.LedBy t) :
    e.StartsIn (t :: ts) := by
  obtain ⟨u, hu, hspan⟩ := hspan
  cases hu
  exact ⟨t, firstWord?_cons ts hword, hspan, hled⟩

/-- An expression starts where its left part does. -/
theorem Expr.startsIn_left {e left : Expr} {ts us : List Token} (h : left.StartsIn ts)
    (hspan : e.span = left.span) (hled : ∀ t, e.LedBy t) : e.StartsIn (ts ++ us) := by
  obtain ⟨t, ht, hleft, -⟩ := h
  exact ⟨t, firstWord?_append ht us, hspan.trans hleft, hled t⟩

/-- An expression in parentheses starts where it does without them. -/
theorem Expr.StartsIn.parens {e : Expr} {t : Token} {ts : List Token} (h : e.StartsIn ts)
    (ht : t.isPunctuation "(") (us : List Token) : e.StartsIn (t :: (ts ++ us)) := by
  obtain ⟨u, hu, hrest⟩ := h
  exact ⟨u, (firstWord?_parens ht _).trans (firstWord?_append hu us), hrest⟩

/-- A node starts with a token of its own, or where its first part does. -/
theorem Frame.startsIn {e : Expr} {parts : List Part} {ts : List Token}
    (h : Frame e (parts.map Part.tokens) ts) (hchildren : parts.map Part.expr = e.children)
    (hspan : e.SpanRule ts) (hparts : ∀ p ∈ parts, p.expr.StartsIn p.tokens) : e.StartsIn ts := by
  have hatom {t : Token} (ht : t.kind ≠ .punctuation) : ¬ t.isPunctuation "(" :=
    Token.not_isPunctuation ht "("
  have hword {t : Token} {word : String} (ht : t.isKeyword word) (hne : word ≠ "") :
      ¬ t.isPunctuation "(" := (Token.tests_of_isKeyword ht hne).1 "("
  have hfirst {left : Expr} {a : List Token} {more : List Expr} {segs : List (List Token)}
      (hexpr : parts.map Part.expr = left :: more) (htokens : parts.map Part.tokens = a :: segs) :
      left.StartsIn a := by
    obtain ⟨p, others, rfl, rfl, -⟩ := List.map_eq_cons_iff.mp hexpr
    obtain ⟨rfl, -⟩ := List.cons.inj htokens
    exact hparts p List.mem_cons_self
  generalize hsegs : parts.map Part.tokens = segs at h
  cases h with
  | number _ ht _ => exact Expr.startsIn_own (hatom (by simp [ht])) hspan ⟨ht, rfl⟩
  | string _ ht => exact Expr.startsIn_own (hatom (by simp [ht])) hspan ⟨ht, rfl⟩
  | ident _ ht => exact Expr.startsIn_own (hatom (by simp [ht])) hspan ⟨ht, rfl⟩
  | yes _ ht => exact Expr.startsIn_own (hword ht (by decide)) hspan ht
  | no _ ht => exact Expr.startsIn_own (hword ht (by decide)) hspan ht
  | assign => exact Expr.startsIn_left (hfirst hchildren hsegs) hspan fun _ => hspan
  | binary => exact Expr.startsIn_left (hfirst hchildren hsegs) hspan fun _ => hspan
  | call => exact Expr.startsIn_left (hfirst hchildren hsegs) hspan fun _ => hspan
  | function _ _ _ ht _ _ _ => exact Expr.startsIn_own (hword ht (by decide)) hspan ht
  | ifThen _ _ _ _ _ ht => exact Expr.startsIn_own (hword ht (by decide)) hspan ht
  | ifElse _ _ _ _ _ _ _ ht _ => exact Expr.startsIn_own (hword ht (by decide)) hspan ht
  | loop _ _ _ _ _ ht => exact Expr.startsIn_own (hword ht (by decide)) hspan ht
  | stuff _ _ _ _ _ ht => exact Expr.startsIn_own (hword ht (by decide)) hspan ht
  | unstuff _ _ _ ht => exact Expr.startsIn_own (hword ht (by decide)) hspan ht
  | @block t _ _ _ _ _ ht _ _ =>
    have hbracket : ¬ t.isPunctuation "(" :=
      Token.not_isPunctuation_of_ne ht (by decide) (by decide) (by decide)
    exact Expr.startsIn_own hbracket hspan ht

end Nodes

/-- What holds of a part and of all those below it: how the tokens are divided, that they are listed as in
the tree, where they start, and that their places never go back if the tokens are in order. -/
structure Part.Located (p : Part) : Prop where
  consumed : p.Consumed
  listed : p.listing.map Prod.fst = p.expr.preorder
  within : ∀ x ∈ p.listing, x.2 ⊆ p.tokens
  starts : ∀ x ∈ p.listing, x.1.StartsIn x.2
  ordered : InOrder p.tokens → NeverBack (p.listing.map (·.1.span))

section Parts

/-- The place of a part is that of one of the tokens. -/
theorem Part.Located.token {p : Part} (h : p.Located) {x : Expr × List Token} (hx : x ∈ p.listing) :
    ∃ t ∈ p.tokens, ¬ t.isPunctuation "(" ∧ x.1.span = t.position := by
  obtain ⟨t, ht, hspan, -⟩ := h.starts x hx
  have hword := List.find?_some ht
  exact ⟨t, h.within x hx (List.mem_of_find?_eq_some ht), by simpa using hword, hspan⟩

/-- Parts with tokens from stretches one behind the other are in order. -/
theorem neverBack_of_sublist {parts : List Part} {ts : List Token} (hparts : ∀ p ∈ parts, p.Located)
    (hsub : (parts.map Part.tokens).flatten.Sublist ts) (hts : InOrder ts) :
    NeverBack ((parts.flatMap Part.listing).map (·.1.span)) := by
  have hall : InOrder (parts.map Part.tokens).flatten := List.Pairwise.sublist hsub hts
  rw [InOrder, List.pairwise_flatten, List.pairwise_map] at hall
  obtain ⟨heach, hbetween⟩ := hall
  rw [NeverBack, List.pairwise_map, List.pairwise_flatMap]
  constructor
  · intro p hp
    exact List.pairwise_map.mp ((hparts p hp).ordered (heach _ (List.mem_map_of_mem hp)))
  · -- Two nodes of different parts have the places of tokens from different stretches.
    refine hbetween.imp_of_mem fun {p q} hp hq hpq x hx y hy => ?_
    obtain ⟨t, ht, -, hxt⟩ := (hparts p hp).token hx
    obtain ⟨u, hu, -, hyu⟩ := (hparts q hq).token hy
    rw [hxt, hyu]
    exact (hpq t ht u hu).asymm

/-- The expressions listed below some parts are all the nodes of these parts, in order. -/
theorem listing_fst {parts : List Part} (hparts : ∀ p ∈ parts, p.Located) :
    (parts.flatMap Part.listing).map Prod.fst = (parts.map Part.expr).flatMap Expr.preorder := by
  rw [List.map_flatMap, List.flatMap_map, List.flatMap_def, List.flatMap_def]
  exact congrArg List.flatten (List.map_congr_left fun p hp => (hparts p hp).listed)

/-- Putting located parts into a frame. -/
theorem Part.Located.node {e : Expr} {ts : List Token} {parts : List Part}
    (hchildren : parts.map Part.expr = e.children) (hframe : Frame e (parts.map Part.tokens) ts)
    (hspan : e.SpanRule ts) (hparts : ∀ p ∈ parts, p.Located) :
    Part.Located ⟨e, ts, parts.flatMap Part.listing⟩ := by
  have hwithin : ∀ x ∈ parts.flatMap Part.listing, x.2 ⊆ ts := by
    intro x hx
    obtain ⟨p, hp, hx⟩ := List.mem_flatMap.mp hx
    intro t ht
    apply hframe.sublist.subset
    exact List.mem_flatten.mpr ⟨p.tokens, List.mem_map_of_mem hp, (hparts p hp).within x hx ht⟩
  have hstart : e.StartsIn ts :=
    hframe.startsIn hchildren hspan fun p hp => (hparts p hp).starts _ List.mem_cons_self
  refine ⟨.node hchildren hframe fun p hp => (hparts p hp).consumed, ?_, ?_, ?_, fun hts => ?_⟩
  · rw [Part.listing, List.map_cons, listing_fst hparts, hchildren, Expr.preorder_eq]
  · exact List.forall_mem_cons.mpr ⟨List.Subset.refl ts, hwithin⟩
  · refine List.forall_mem_cons.mpr ⟨hstart, fun x hx => ?_⟩
    obtain ⟨p, hp, hx⟩ := List.mem_flatMap.mp hx
    exact (hparts p hp).starts x hx
  · refine List.pairwise_cons.mpr ⟨?_, neverBack_of_sublist hparts hframe.sublist hts⟩
    intro q hq
    obtain ⟨x, hx, rfl⟩ := List.mem_map.mp hq
    obtain ⟨p, hp, hx⟩ := List.mem_flatMap.mp hx
    obtain ⟨u, hu, hword, hxu⟩ := (hparts p hp).token hx
    obtain ⟨t, ht, het, -⟩ := hstart
    have hmem : u ∈ ts :=
      hframe.sublist.subset (List.mem_flatten.mpr ⟨p.tokens, List.mem_map_of_mem hp, hu⟩)
    have hle := hts.firstWord?_le ht hmem hword
    rw [← het, ← hxu] at hle
    exact hle

/-- Parentheses leave a part where it is. -/
theorem Part.Located.parens {t u : Token} {p : Part} (ht : t.isPunctuation "(") (h : p.Located)
    (hu : u.isPunctuation ")") : Part.Located ⟨p.expr, t :: (p.tokens ++ [u]), p.below⟩ := by
  have hinside : p.tokens ⊆ t :: (p.tokens ++ [u]) :=
    List.subset_cons_of_subset t (List.subset_append_left _ _)
  obtain ⟨hself, hbelow⟩ := List.forall_mem_cons.mp h.starts
  refine ⟨.parens ht h.consumed hu, h.listed, ?_, ?_, fun hts => ?_⟩
  · refine List.forall_mem_cons.mpr ⟨List.Subset.refl _, fun x hx => ?_⟩
    exact List.Subset.trans (h.within x (List.mem_cons_of_mem _ hx)) hinside
  · exact List.forall_mem_cons.mpr ⟨hself.parens ht [u], hbelow⟩
  · exact h.ordered (List.pairwise_append.mp (List.pairwise_cons.mp hts).2).1

/-- Every node that parsing gives has its place, and keeps it in parentheses. -/
theorem located_respected : Respected Part.Located where
  node := Part.Located.node
  parens := Part.Located.parens

end Parts

section Sources

/-- The words of a stream are among its tokens, in the same order. -/
theorem Stream.words_sublist (s : Stream) : s.words.Sublist s.tokens := by
  induction s with
  | token t rest ih => exact ih.cons_cons t
  | finish last => exact List.nil_sublist _
  | broken d => exact List.nil_sublist _

/-- The tokens of a source stand one behind the other, and none before its first character. -/
theorem words_inOrder (source : String) :
    InOrder (Stream.ofString source).words ∧
      ∀ t ∈ (Stream.ofString source).words, ¬ t.position.Before ⟨1, 1⟩ := by
  obtain ⟨tokens, unread, h⟩ := exists_layout source.toList
  obtain ⟨hplaces, hordered⟩ := h.positions .start
  have hsub := (Stream.ofString source).words_sublist
  refine ⟨List.Pairwise.sublist hsub hordered, fun t ht => ?_⟩
  obtain ⟨passed, hpassed⟩ := hplaces t (hsub.subset ht)
  rw [hpassed, Position.afterAll_start]
  simp only [Position.next, Position.Before]
  omega

end Sources

/-- **Nodes are placed at tokens, in order.** The tokens of a program are divided among the expressions of its
block, and within these among the nodes. Each node has the place of the first token consumed for it that is
not an opening parenthesis: its own literal, name, keyword or bracket, or else the one that its left side has
its place from. The block of the program is placed at the first character. In the listing of the tree with
each node before its parts, places never go back. -/
theorem spans_follow_tokens {source : String} {e : Expr} (h : parse source = .ok e) :
    ∃ parts : List Part, e = .block ⟨1, 1⟩ (parts.map Part.expr) ∧ (∀ p ∈ parts, p.Consumed) ∧
      parts.flatMap Part.tokens = (Stream.ofString source).words ∧
      e.preorder = e :: (parts.flatMap Part.listing).map Prod.fst ∧
      (∀ x ∈ parts.flatMap Part.listing, x.1.StartsIn x.2) ∧
      NeverBack (e.preorder.map Expr.span) := by
  obtain ⟨items, rfl, hparse⟩ := parse_iff.mp h
  have hreads := (parseProgram_iff.mp hparse).2
  obtain ⟨parts, rfl, hparts, hwords⟩ := hreads.held located_respected fun _ _ _ hgroup => hgroup.1
  rw [List.append_nil] at hwords
  obtain ⟨hordered, hstart⟩ := words_inOrder source
  have hpreorder : (Expr.block ⟨1, 1⟩ (parts.map Part.expr)).preorder =
      .block ⟨1, 1⟩ (parts.map Part.expr) :: (parts.flatMap Part.listing).map Prod.fst := by
    rw [Expr.preorder_eq, listing_fst hparts]
    rfl
  refine ⟨parts, rfl, fun p hp => (hparts p hp).consumed, hwords.symm, hpreorder, ?_, ?_⟩
  · intro x hx
    obtain ⟨p, hp, hx⟩ := List.mem_flatMap.mp hx
    exact (hparts p hp).starts x hx
  · rw [hpreorder, List.map_cons, List.map_map]
    refine List.pairwise_cons.mpr ⟨?_, ?_⟩
    · intro q hq
      obtain ⟨x, hx, rfl⟩ := List.mem_map.mp hq
      obtain ⟨p, hp, hx⟩ := List.mem_flatMap.mp hx
      obtain ⟨t, ht, -, hspan⟩ := (hparts p hp).token hx
      have hmem : t ∈ (Stream.ofString source).words := hwords ▸ List.mem_flatMap.mpr ⟨p, hp, ht⟩
      have hle := hstart t hmem
      rw [← hspan] at hle
      exact hle
    · have hall : (parts.map Part.tokens).flatten = (Stream.ofString source).words :=
        (hwords.trans List.flatMap_def).symm
      exact neverBack_of_sublist hparts (hall ▸ List.Sublist.refl _) hordered

/-- A call over two lines, with its callee in parentheses. It has the place of the name in them. -/
theorem spans_follow_tokens_parens :
    let source := "(f)\n(g + h)"
    let callee : Expr := .ident ⟨1, 2⟩ "f"
    let argument : Expr := .binary ⟨2, 2⟩ (.ident ⟨2, 2⟩ "g") "+" (.ident ⟨2, 6⟩ "h")
    let tree : Expr := .block ⟨1, 1⟩ [.call ⟨1, 2⟩ callee [argument]]
    parse source = .ok tree ∧ NeverBack (tree.preorder.map Expr.span) ∧
    ∃ parts : List Part, tree = .block ⟨1, 1⟩ (parts.map Part.expr) ∧
      parts.flatMap Part.tokens = (Stream.ofString source).words ∧
      ∀ x ∈ parts.flatMap Part.listing, x.1.StartsIn x.2 := by
  have hend : (Stream.ofString "(f)\n(g + h)").error? = none := by decide +kernel
  have hwords : (Stream.ofString "(f)\n(g + h)").words =
      [⟨.punctuation, "(", ⟨1, 1⟩⟩, ⟨.identifier, "f", ⟨1, 2⟩⟩, ⟨.punctuation, ")", ⟨1, 3⟩⟩,
        ⟨.punctuation, "(", ⟨2, 1⟩⟩, ⟨.identifier, "g", ⟨2, 2⟩⟩, ⟨.operator, "+", ⟨2, 4⟩⟩,
        ⟨.identifier, "h", ⟨2, 6⟩⟩, ⟨.punctuation, ")", ⟨2, 7⟩⟩] := by decide +kernel
  intro source callee argument tree
  have hname {t u : Token} {rest : List Token} (ht : t.kind = .identifier)
      (hu : u.isPunctuation "(" = false) :
      Reads GroupsByPower (.part (.ident t.position t.lexeme)) (t :: u :: rest) (u :: rest) :=
    .part (.ident _ ht) (.callsEnd _ (.cons hu _))
  have hsingle (e : Expr) : GroupsByPower e [] e := ⟨.part e, .stop 0 e⟩
  have hcallee (rest : List Token) : Reads GroupsByPower (.expr callee)
      (⟨.identifier, "f", ⟨1, 2⟩⟩ :: ⟨.punctuation, ")", ⟨1, 3⟩⟩ :: rest)
      (⟨.punctuation, ")", ⟨1, 3⟩⟩ :: rest) :=
    .expr (hname rfl rfl) (.chainEnd _) (.cons rfl _) (hsingle _)
  have hclimbs : Climbs 0 (.ident ⟨2, 2⟩ "g") ((⟨.operator, "+", ⟨2, 4⟩⟩, .ident ⟨2, 6⟩ "h") :: ([] ++ []))
      argument := .step rfl (by decide) (.stop _ _) (.nil _) (.stop 0 _)
  have hargument : Reads GroupsByPower (.expr argument)
      [⟨.identifier, "g", ⟨2, 2⟩⟩, ⟨.operator, "+", ⟨2, 4⟩⟩, ⟨.identifier, "h", ⟨2, 6⟩⟩,
        ⟨.punctuation, ")", ⟨2, 7⟩⟩] [⟨.punctuation, ")", ⟨2, 7⟩⟩] :=
    .expr (hname rfl rfl) (.operator rfl (hname rfl rfl) (.chainEnd _)) (.cons rfl _)
      ⟨hclimbs.groups, hclimbs⟩
  have htree : parse source = .ok tree := by
    refine parse_iff.mpr ⟨_, rfl, parseProgram_iff.mpr ⟨hend, ?_⟩⟩
    rw [hwords]
    apply Reads.next (.expr ?_ (.chainEnd _) (.nil _) (hsingle _)) .programEnd
    exact .part (.parens rfl (hcallee _) rfl)
      (.call rfl (.items hargument (.tailEnd _)) rfl (.callsEnd _ (.nil _)))
  obtain ⟨parts, hparts, -, hdivided, -, hstarts, hback⟩ := spans_follow_tokens htree
  exact ⟨htree, hback, parts, hparts, hdivided, hstarts⟩

end StuffScript
