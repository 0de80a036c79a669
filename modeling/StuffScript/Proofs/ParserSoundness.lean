import StuffScript.Proofs.ParserSteps

/-!
# What is parsed follows the grammar

Whatever a parsing function takes from a stream forms the phrase that it returns, with the tokens left
over standing after it. The functions call each other on ever shorter streams, and the proof goes by
induction on the number of tokens: `ParsesSoundly` gathers what holds of all of them on one stream, and
each of its parts follows from shorter streams and from the parts before it.

The main statement is `parsesSoundly`. It is about all streams, also those that break off.
-/

namespace StuffScript

/-- A stream that stops has tokens that do. -/
theorem Stream.Stops.words {p : Token → Bool} {s : Stream} (h : s.Stops p) :
    StuffScript.Stops p s.words := by
  cases s with
  | token t s =>
    intro u hu
    cases hu
    exact h
  | finish last => exact .nil p
  | broken d => exact h.elim

/-- The tokens of one stream up to another form a phrase, and both end in the same way. -/
structure Taken (φ : Phrase) (s rest : Stream) : Prop where
  reads : Reads GroupsByPower φ s.words rest.words
  ending : rest.error? = s.error?

/-- The items of a list are taken, and then its closing bracket. -/
def TakenUpTo (close : String) (φ : Phrase) (s rest : Stream) : Prop :=
  ∃ u, u.isPunctuation close ∧ Taken φ s (.token u rest)

/-- What parsing functions take from a stream forms what they return. -/
structure ParsesSoundly (s : Stream) : Prop where
  primary : ∀ {e rest}, Gives (parsePrimary s) e rest → Taken (.primary e) s rest
  calls : ∀ {f e rest}, Gives (parseCalls f s) e rest → Taken (.calls f e) s rest
  part : ∀ {e rest}, Gives (parsePart s) e rest → Taken (.part e) s rest
  chain : ∀ {floor left e rest}, Gives (parseInfix floor left s) e rest → ∃ ops,
    Taken (.chain ops) s rest ∧ Climbs floor left ops e ∧ rest.Stops (Token.bindsAbove floor)
  expr : ∀ {e rest}, Gives (parseExpr s) e rest → Taken (.expr e) s rest
  moreItems : ∀ {close items es rest}, Gives (parseMoreItems close items s) es rest → ∃ more,
    es = items.reverse ++ more ∧ TakenUpTo close (.tail more) s rest
  items : ∀ {close es rest}, Gives (parseItems close s) es rest → TakenUpTo close (.list es) s rest

section Steps

variable {s : Stream} (ih : ∀ s' : Stream, s'.size < s.size → ParsesSoundly s')
include ih

/-- Calls are taken argument list by argument list. -/
theorem parseCalls_sound {f e : Expr} {rest : Stream} (h : Gives (parseCalls f s) e rest) :
    Taken (.calls f e) s rest := by
  rcases parseCalls_cases h with hstop | ⟨t, s₁, rfl, ht⟩
  · obtain ⟨rfl, rfl⟩ := (gives_parseCalls_stop hstop).mp h
    exact ⟨.callsEnd e hstop.words, rfl⟩
  · obtain ⟨args, s₂, hargs, hcalls⟩ := (gives_parseCalls_open ht).mp h
    obtain ⟨u, hu, hlist⟩ := (ih s₁ (Nat.lt_succ_self _)).items hargs
    have htail := (ih s₂ (Nat.lt_succ_of_lt hargs.shorter)).calls hcalls
    exact ⟨.call ht hlist.reads hu htail.reads, htail.ending.trans hlist.ending⟩

/-- Operators that are taken, each with its part, form a chain. -/
theorem Stream.Takes.taken {rest : Stream} {ops : List (Token × Expr)} (h : s.Takes ops rest) :
    Taken (.chain ops) s rest := by
  induction h with
  | nothing s => exact ⟨.chainEnd _, rfl⟩
  | @operator op e ops s s₁ rest hop hpart _ ihops =>
    have hlt : s.size < (Stream.token op s).size := Nat.lt_succ_self _
    have hfirst := (ih s hlt).part hpart
    have hmore := ihops fun s' hs' => ih s' (Nat.lt_trans hs' (Nat.lt_trans hpart.shorter hlt))
    exact ⟨.operator hop hfirst.reads hmore.reads, hmore.ending.trans hfirst.ending⟩

/-- The operators that infix operations are parsed from form a chain, which is grouped as they are. -/
theorem parseInfix_sound {floor : Nat} {left e : Expr} {rest : Stream}
    (h : Gives (parseInfix floor left s) e rest) : ∃ ops,
    Taken (.chain ops) s rest ∧ Climbs floor left ops e ∧ rest.Stops (Token.bindsAbove floor) := by
  obtain ⟨ops, htakes, hclimbs, hend⟩ := parseInfix_takes h
  exact ⟨ops, htakes.taken ih, hclimbs, hend⟩

/-- The items behind the first one are taken up to the closing bracket. -/
theorem parseMoreItems_sound {close : String} {items es : List Expr} {rest : Stream}
    (h : Gives (parseMoreItems close items s) es rest) :
    ∃ more, es = items.reverse ++ more ∧ TakenUpTo close (.tail more) s rest := by
  obtain ⟨t, s₁, rfl, hclose | ⟨hclose, ht, u, s₂, rfl⟩⟩ := parseMoreItems_cases h
  · obtain ⟨rfl, rfl⟩ := (gives_parseMoreItems_close hclose).mp h
    exact ⟨[], (List.append_nil _).symm, t, hclose, .tailEnd _, rfl⟩
  · by_cases hu : u.isPunctuation close
    · obtain ⟨rfl, rfl⟩ := (gives_parseMoreItems_lastComma hclose ht hu).mp h
      exact ⟨[], (List.append_nil _).symm, u, hu, .lastComma _ ht, rfl⟩
    · obtain ⟨e, s₃, he, hmore⟩ := (gives_parseMoreItems_comma hclose ht hu).mp h
      have hitem := (ih (.token u s₂) (Nat.lt_succ_self _)).expr he
      obtain ⟨more, rfl, v, hv, htail⟩ :=
        (ih s₃ (Nat.lt_succ_of_lt he.shorter)).moreItems hmore
      refine ⟨e :: more, ?_, v, hv, .comma ht hitem.reads htail.reads, ?_⟩
      · rw [List.reverse_cons, List.append_assoc, List.singleton_append]
      · exact htail.ending.trans hitem.ending

omit ih in
/-- Names and commas are taken up to the closing bracket. -/
theorem parseMoreNames_sound {names ns : List String} {rest : Stream}
    (h : Gives (parseMoreNames names s) ns rest) : ∃ more u, ns = names.reverse ++ more ∧
    u.isPunctuation "]" ∧ ReadsMoreNames more s.words (u :: rest.words) ∧ rest.error? = s.error? := by
  induction hsize : s.size using Nat.strongRecOn generalizing s names with
  | ind n ih =>
    subst hsize
    obtain ⟨t, s₁, rfl, hclose | ⟨hclose, ht, u, s₂, rfl, hu | hu⟩⟩ := parseMoreNames_cases h
    · obtain ⟨rfl, rfl⟩ := (gives_parseMoreNames_close hclose).mp h
      exact ⟨[], t, (List.append_nil _).symm, hclose, .none _, rfl⟩
    · obtain ⟨rfl, rfl⟩ := (gives_parseMoreNames_lastComma hclose ht hu).mp h
      exact ⟨[], u, (List.append_nil _).symm, hu, .comma _ ht, rfl⟩
    · have hmore := (gives_parseMoreNames_comma hclose ht hu).mp h
      have hshorter : s₂.size < (Stream.token t (.token u s₂)).size :=
        Nat.lt_succ_of_lt (Nat.lt_succ_self _)
      obtain ⟨more, v, rfl, hv, hreads, hending⟩ := ih s₂.size hshorter hmore rfl
      refine ⟨u.lexeme :: more, v, ?_, hv, .next ht hu hreads, hending⟩
      rw [List.reverse_cons, List.append_assoc, List.singleton_append]

omit ih in
/-- Parameter names are taken with the brackets around them. -/
theorem parseNames_sound {ns : List String} {rest : Stream} (h : Gives (parseNames s) ns rest) :
    ∃ t u input, s.words = t :: input ∧ t.isPunctuation "[" ∧ u.isPunctuation "]" ∧
      ReadsNames ns input (u :: rest.words) ∧ rest.error? = s.error? := by
  obtain ⟨t, s₁, rfl, ht, u, s₂, rfl, ⟨hu, rfl, rfl⟩ | ⟨hu, hmore⟩⟩ := gives_parseNames.mp h
  · exact ⟨t, u, _, rfl, ht, hu, .none _, rfl⟩
  · obtain ⟨more, v, rfl, hv, hreads, hending⟩ := parseMoreNames_sound hmore
    exact ⟨t, v, _, rfl, ht, hv, .first hu hreads, hending⟩

/-- A primary expression is taken by the form that its first token starts. -/
theorem parsePrimary_sound {e : Expr} {rest : Stream} (h : Gives (parsePrimary s) e rest) :
    Taken (.primary e) s rest := by
  obtain ⟨t, s₁, rfl, hstart⟩ := parsePrimary_cases h
  have h₁ : s₁.size < (Stream.token t s₁).size := Nat.lt_succ_self _
  rcases hstart with ht | ht | ht | ht | ht | ht | ht | ht | ht | ⟨hsign, hword⟩
  · obtain ⟨u, he, hu⟩ := (gives_parsePrimary_parens ht).mp h
    have hexpr := (ih s₁ h₁).expr he
    exact ⟨.parens ht hexpr.reads hu, hexpr.ending⟩
  · obtain ⟨es, hes, rfl⟩ := (gives_parsePrimary_block ht).mp h
    obtain ⟨u, hu, hlist⟩ := (ih s₁ h₁).items hes
    exact ⟨.block ht hlist.reads hu, hlist.ending⟩
  · obtain ⟨c, s₂, hc, b, s₃, hb, halt⟩ := (gives_parsePrimary_if ht).mp h
    have h₂ := Nat.lt_succ_of_lt hc.shorter
    have hcond := (ih s₁ h₁).expr hc
    have hbody := (ih s₂ h₂).expr hb
    rcases halt with ⟨hstop, rfl, rfl⟩ | ⟨u, s₄, o, rfl, hu, ho, rfl⟩
    · exact ⟨.ifThen ht hcond.reads hbody.reads hstop.words, hbody.ending.trans hcond.ending⟩
    · have h₄ : s₄.size < (Stream.token t s₁).size :=
        Nat.lt_trans (Nat.lt_of_succ_lt hb.shorter) h₂
      have hother := (ih s₄ h₄).expr ho
      exact ⟨.ifElse ht hcond.reads hbody.reads hu hother.reads,
        hother.ending.trans (hbody.ending.trans hcond.ending)⟩
  · obtain ⟨c, s₂, hc, b, hb, rfl⟩ := (WordForm.loop.gives_parsePrimary ht).mp h
    have hcond := (ih s₁ h₁).expr hc
    have hbody := (ih s₂ (Nat.lt_succ_of_lt hc.shorter)).expr hb
    exact ⟨.loop ht hcond.reads hbody.reads, hbody.ending.trans hcond.ending⟩
  · obtain ⟨b, s₂, hb, v, hv, rfl⟩ := (WordForm.stuff.gives_parsePrimary ht).mp h
    have hbase := (ih s₁ h₁).expr hb
    have hvalue := (ih s₂ (Nat.lt_succ_of_lt hb.shorter)).expr hv
    exact ⟨.stuff ht hbase.reads hvalue.reads, hvalue.ending.trans hbase.ending⟩
  · obtain ⟨b, hb, rfl⟩ := (gives_parsePrimary_unstuff ht).mp h
    have hbase := (ih s₁ h₁).expr hb
    exact ⟨.unstuff ht hbase.reads, hbase.ending⟩
  · obtain ⟨rfl, rfl⟩ := (gives_parsePrimary_bool true ht).mp h
    exact ⟨.yes _ ht, rfl⟩
  · obtain ⟨rfl, rfl⟩ := (gives_parsePrimary_bool false ht).mp h
    exact ⟨.no _ ht, rfl⟩
  · obtain ⟨ns, s₂, hns, b, hb, rfl⟩ := (WordForm.function.gives_parsePrimary ht).mp h
    obtain ⟨u, v, input, hinput, hu, hv, hnames, hending⟩ := parseNames_sound hns
    have hbody := (ih s₂ (Nat.lt_succ_of_lt hns.shorter)).expr hb
    refine ⟨?_, hbody.ending.trans hending⟩
    rw [Stream.words, hinput]
    exact .function ht hu hnames hv hbody.reads
  · obtain ⟨rfl, hliteral⟩ := (gives_parsePrimary_literal hsign hword).mp h
    rcases hliteral with ⟨n, hkind, hn, rfl⟩ | ⟨hkind, rfl⟩ | ⟨hkind, rfl⟩
    · exact ⟨.number _ hkind hn, rfl⟩
    · exact ⟨.string _ hkind, rfl⟩
    · exact ⟨.ident _ hkind, rfl⟩

/-- A part is a primary expression and the calls of it. -/
theorem parsePart_sound {e : Expr} {rest : Stream} (h : Gives (parsePart s) e rest) :
    Taken (.part e) s rest := by
  obtain ⟨f, s₁, hf, hcalls⟩ := gives_parsePart.mp h
  have hprimary := parsePrimary_sound ih hf
  have htail := (ih s₁ hf.shorter).calls hcalls
  exact ⟨.part hprimary.reads htail.reads, htail.ending.trans hprimary.ending⟩

/-- An expression is a chain of parts, grouped by how tightly operators bind. -/
theorem parseExpr_sound {e : Expr} {rest : Stream} (h : Gives (parseExpr s) e rest) :
    Taken (.expr e) s rest := by
  obtain ⟨first, s₁, hfirst, hmore⟩ := gives_parseExpr.mp h
  have hpart := parsePart_sound ih hfirst
  obtain ⟨ops, hops, hclimbs, hend⟩ := (ih s₁ hfirst.shorter).chain hmore
  have hstop := hend.words
  rw [Token.bindsAbove_zero] at hstop
  exact ⟨.expr hpart.reads hops.reads hstop ⟨hclimbs.groups, hclimbs⟩,
    hops.ending.trans hpart.ending⟩

/-- A list is taken up to its closing bracket. -/
theorem parseItems_sound {close : String} {es : List Expr} {rest : Stream}
    (h : Gives (parseItems close s) es rest) : TakenUpTo close (.list es) s rest := by
  obtain ⟨t, s₁, rfl⟩ := parseItems_cases h
  by_cases ht : t.isPunctuation close
  · obtain ⟨rfl, rfl⟩ := (gives_parseItems_close ht).mp h
    exact ⟨t, ht, .noItems _, rfl⟩
  · obtain ⟨e, s₂, he, hmore⟩ := (gives_parseItems_item ht).mp h
    have hitem := parseExpr_sound ih he
    obtain ⟨more, rfl, u, hu, htail⟩ := (ih s₂ he.shorter).moreItems hmore
    exact ⟨u, hu, .items hitem.reads htail.reads, htail.ending.trans hitem.ending⟩

end Steps

/-- Whatever is parsed from a stream follows the grammar. -/
theorem parsesSoundly (s : Stream) : ParsesSoundly s := by
  induction hsize : s.size using Nat.strongRecOn generalizing s with
  | ind n ih =>
    subst hsize
    have hshorter (s' : Stream) (h : s'.size < s.size) : ParsesSoundly s' := ih s'.size h s' rfl
    exact ⟨parsePrimary_sound hshorter, parseCalls_sound hshorter, parsePart_sound hshorter,
      parseInfix_sound hshorter, parseExpr_sound hshorter, parseMoreItems_sound hshorter,
      parseItems_sound hshorter⟩

end StuffScript
