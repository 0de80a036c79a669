import StuffScript.Proofs.Grammar

/-!
# What each parsing function gives

A result of parsing carries a proof that tokens were taken, which depends on the stream it started from.
`Gives` forgets the proof: a parsing step gives a value and leaves a stream. For each parsing function
there is a statement of what it gives in terms of the functions that it calls. Later proofs use these
statements and do not open the functions.
-/

namespace StuffScript

/-- A parsing step succeeds with a value and leaves a stream. -/
def Gives {α : Type} {n : Nat} (x : Except Diagnostic (Parsed α n)) (v : α) (rest : Stream) : Prop :=
  ∃ p, x = .ok p ∧ p.value = v ∧ p.rest = rest

namespace Gives

variable {α β : Type} {m n : Nat}

/-- Every step that succeeds takes a token at least. -/
theorem shorter {x : Except Diagnostic (Parsed α n)} {v : α} {rest : Stream} (h : Gives x v rest) :
    rest.size < n := by
  obtain ⟨p, _, _, rfl⟩ := h
  exact p.shorter

/-- What a finished step gives is what it holds. -/
theorem ok_iff {p : Parsed α n} {v : α} {rest : Stream} :
    Gives (.ok p) v rest ↔ v = p.value ∧ rest = p.rest := by
  constructor
  · rintro ⟨q, hq, rfl, rfl⟩
    cases hq
    exact ⟨rfl, rfl⟩
  · rintro ⟨rfl, rfl⟩
    exact ⟨p, rfl, rfl, rfl⟩

/-- A step that has failed gives nothing. -/
theorem not_error {d : Diagnostic} {v : α} {rest : Stream} :
    ¬ Gives (.error d : Except Diagnostic (Parsed α n)) v rest := by
  rintro ⟨_, h, _⟩
  cases h

/-- One step after another: the second goes on from what the first leaves. -/
theorem bind_iff {x : Except Diagnostic (Parsed α m)}
    {f : Parsed α m → Except Diagnostic (Parsed β n)} {v : β} {rest : Stream}
    {Q : α → Stream → Prop} (hf : ∀ p, Gives (f p) v rest ↔ Q p.value p.rest) :
    Gives (x >>= f) v rest ↔ ∃ u s, Gives x u s ∧ Q u s := by
  cases x with
  | error d =>
    constructor
    · exact fun h => absurd h not_error
    · rintro ⟨_, _, h, _⟩
      exact absurd h not_error
  | ok p =>
    constructor
    · exact fun h => ⟨p.value, p.rest, ok_iff.mpr ⟨rfl, rfl⟩, (hf p).mp h⟩
    · rintro ⟨_, _, h, hQ⟩
      obtain ⟨rfl, rfl⟩ := ok_iff.mp h
      exact (hf p).mpr hQ

/-- A last step that only builds the result. -/
theorem map_iff {x : Except Diagnostic (Parsed α m)}
    {f : Parsed α m → Except Diagnostic (Parsed β n)} {v : β} {rest : Stream} (g : α → β)
    (hf : ∀ p, ∃ h, f p = .ok ⟨g p.value, p.rest, h⟩) :
    Gives (x >>= f) v rest ↔ ∃ u, Gives x u rest ∧ v = g u := by
  rw [bind_iff (Q := fun u s => v = g u ∧ rest = s)]
  · constructor
    · rintro ⟨u, s, h, rfl, rfl⟩
      exact ⟨u, h, rfl⟩
    · rintro ⟨u, h, rfl⟩
      exact ⟨u, rest, h, rfl, rfl⟩
  · intro p
    obtain ⟨h, hp⟩ := hf p
    rw [hp]
    exact ok_iff

/-- A last step that only weakens the bound. -/
theorem widen_iff {x : Except Diagnostic (Parsed α m)} {h : ∀ _ : Parsed α m, m ≤ n} {v : α}
    {rest : Stream} : Gives (x >>= fun p => pure (p.widen (h p))) v rest ↔ Gives x v rest := by
  have hmap : Gives (x >>= fun p => pure (p.widen (h p))) v rest ↔ ∃ u, Gives x u rest ∧ v = u :=
    map_iff (fun u => u) fun p => ⟨(p.widen (h p)).shorter, rfl⟩
  rw [hmap]
  constructor
  · rintro ⟨_, hx, rfl⟩
    exact hx
  · exact fun hx => ⟨v, hx, rfl⟩

end Gives

/-- A stream goes on properly with a token that is not of a kind, or comes to its end. -/
def Stream.Stops (p : Token → Bool) : Stream → Prop
  | .token t _ => p t = false
  | .finish _ => True
  | .broken _ => False

/-- An expression is a part, followed by the operators behind it. -/
theorem gives_parseExpr {s : Stream} {e : Expr} {rest : Stream} :
    Gives (parseExpr s) e rest ↔
      ∃ first s', Gives (parsePart s) first s' ∧ Gives (parseInfix 0 first s') e rest := by
  rw [parseExpr]
  exact Gives.bind_iff fun p => Gives.widen_iff

/-- A part is a primary, followed by the calls behind it. -/
theorem gives_parsePart {s : Stream} {e : Expr} {rest : Stream} :
    Gives (parsePart s) e rest ↔
      ∃ f s', Gives (parsePrimary s) f s' ∧ Gives (parseCalls f s') e rest := by
  rw [parsePart]
  exact Gives.bind_iff fun p => Gives.widen_iff

section Calls

variable {t : Token} {f e : Expr} {s rest : Stream}

/-- Without an opening parenthesis there is no call: the callee stands as it is. -/
theorem gives_parseCalls_stop (h : s.Stops (·.isPunctuation "(")) :
    Gives (parseCalls f s) e rest ↔ e = f ∧ rest = s := by
  cases s with
  | broken d => exact h.elim
  | finish last =>
    rw [parseCalls]
    exact Gives.ok_iff
  | token t s =>
    rw [parseCalls, if_neg (Bool.eq_false_iff.mp h)]
    exact Gives.ok_iff

/-- Arguments make a call, which may itself be called again. -/
theorem gives_parseCalls_open (ht : t.isPunctuation "(") :
    Gives (parseCalls f (.token t s)) e rest ↔
      ∃ args s₁, Gives (parseItems ")" s) args s₁ ∧
        Gives (parseCalls (.call f.span f args) s₁) e rest := by
  rw [parseCalls, if_pos ht]
  exact Gives.bind_iff fun p => Gives.widen_iff

/-- Where calls are looked for with success, an opening parenthesis follows or something that is none. -/
theorem parseCalls_cases (h : Gives (parseCalls f s) e rest) :
    s.Stops (·.isPunctuation "(") ∨ ∃ t s₁, s = .token t s₁ ∧ t.isPunctuation "(" := by
  cases s with
  | broken d =>
    rw [parseCalls] at h
    exact absurd h Gives.not_error
  | finish last => exact Or.inl trivial
  | token t s =>
    by_cases ht : t.isPunctuation "("
    · exact Or.inr ⟨t, s, rfl, ht⟩
    · exact Or.inl (Bool.eq_false_iff.mpr ht)

end Calls

section Infix

variable {t : Token} {floor power : Nat} {left e : Expr} {s rest : Stream}

/-- An operand in front of no operator above the floor stands as it is. -/
theorem gives_parseInfix_stop (h : s.Stops (Token.bindsAbove floor)) :
    Gives (parseInfix floor left s) e rest ↔ e = left ∧ rest = s := by
  cases s with
  | broken d => exact h.elim
  | finish last =>
    rw [parseInfix]
    exact Gives.ok_iff
  | token t s =>
    rw [parseInfix]
    cases hpower : t.infixPower? with
    | none => exact Gives.ok_iff
    | some power =>
      have hle : power ≤ floor := Nat.not_lt.mp fun hlt =>
        Bool.eq_false_iff.mp h (Token.bindsAbove_iff.mpr ⟨power, hpower, hlt⟩)
      simp only [if_pos hle]
      exact Gives.ok_iff

/-- An operator above the floor takes a right operand of its own floor, and the two operands joined are the
left operand of what follows. -/
theorem gives_parseInfix_above (hpower : t.infixPower? = some power) (hfloor : floor < power) :
    Gives (parseInfix floor left (.token t s)) e rest ↔
      ∃ next s₁, Gives (parsePart s) next s₁ ∧ ∃ right s₂,
        Gives (parseInfix (t.rightFloor power) next s₁) right s₂ ∧
          Gives (parseInfix floor (left.joined t.lexeme right) s₂) e rest := by
  rw [parseInfix]
  simp only [hpower, if_neg (Nat.not_le.mpr hfloor)]
  exact Gives.bind_iff fun p => Gives.bind_iff fun q => Gives.widen_iff

/-- Where the climb succeeds, an operator above the floor follows or something that is none. -/
theorem parseInfix_cases (h : Gives (parseInfix floor left s) e rest) :
    s.Stops (Token.bindsAbove floor) ∨
      ∃ t s₁ power, s = .token t s₁ ∧ t.infixPower? = some power ∧ floor < power := by
  cases s with
  | broken d =>
    rw [parseInfix] at h
    exact absurd h Gives.not_error
  | finish last => exact Or.inl trivial
  | token t s =>
    by_cases ht : t.bindsAbove floor
    · obtain ⟨power, hpower, hfloor⟩ := Token.bindsAbove_iff.mp ht
      exact Or.inr ⟨t, s, power, rfl, hpower, hfloor⟩
    · exact Or.inl (Bool.eq_false_iff.mpr ht)

end Infix

section Chains

namespace Stream

/-- Infix operators, each with the part that is parsed after it, lead from one stream to another. -/
inductive Takes : Stream → List (Token × Expr) → Stream → Prop
  | nothing (s : Stream) : Takes s [] s
  | operator {op : Token} {e : Expr} {ops : List (Token × Expr)} {s s₁ rest : Stream}
    (hop : op.infixPower?.isSome) (hpart : Gives (parsePart s) e s₁) (hmore : Takes s₁ ops rest) :
    Takes (.token op s) ((op, e) :: ops) rest

/-- Operators can be taken one run after another. -/
theorem Takes.append {s s₁ rest : Stream} {ops more : List (Token × Expr)} (h : s.Takes ops s₁)
    (hmore : s₁.Takes more rest) : s.Takes (ops ++ more) rest := by
  induction h with
  | nothing s => exact hmore
  | operator hop hpart _ ih => exact .operator hop hpart (ih hmore)

/-- Operators that are taken are taken run by run. -/
theorem Takes.split {s rest : Stream} {inner outer : List (Token × Expr)}
    (h : s.Takes (inner ++ outer) rest) : ∃ s₁, s.Takes inner s₁ ∧ s₁.Takes outer rest := by
  induction inner generalizing s with
  | nil => exact ⟨s, .nothing s, h⟩
  | cons op inner ih =>
    cases h with
    | operator hop hpart hmore =>
      obtain ⟨s₁, hinner, houter⟩ := ih hmore
      exact ⟨s₁, .operator hop hpart hinner, houter⟩

/-- A stream goes on with the first operator taken, or with what follows if none is. -/
theorem Takes.stops {s rest : Stream} {ops : List (Token × Expr)} {p : Token → Bool}
    (h : s.Takes ops rest) (hops : StuffScript.Stops p (ops.map (·.1))) (hrest : rest.Stops p) :
    s.Stops p := by
  cases h with
  | nothing s => exact hrest
  | operator => exact hops _ rfl

/-- The first operator taken is what the stream starts with. -/
theorem Takes.ops_stop {s rest : Stream} {ops : List (Token × Expr)} {p : Token → Bool}
    (h : s.Takes ops rest) (hs : s.Stops p) : StuffScript.Stops p (ops.map (·.1)) := by
  cases h with
  | nothing s => exact .nil p
  | operator =>
    intro t ht
    cases ht
    exact hs

/-- What stops at a floor stops at every higher one. -/
theorem Stops.above {low high : Nat} {s : Stream} (h : s.Stops (Token.bindsAbove low))
    (hle : low ≤ high) : s.Stops (Token.bindsAbove high) := by
  cases s with
  | token t s =>
    refine Bool.eq_false_iff.mpr fun habove => ?_
    obtain ⟨power, hpower, hhigh⟩ := Token.bindsAbove_iff.mp habove
    exact Bool.eq_false_iff.mp h (Token.bindsAbove_iff.mpr ⟨power, hpower, Nat.lt_of_le_of_lt hle hhigh⟩)
  | finish last => trivial
  | broken d => exact h

end Stream

/-- The floor for the right side of an operator is no lower than the floor that it stands above. -/
theorem Token.le_rightFloor {op : Token} {floor power : Nat} (h : floor < power) :
    floor ≤ op.rightFloor power := by
  unfold Token.rightFloor
  split
  · exact Nat.le_sub_one_of_lt h
  · exact Nat.le_of_lt h

/-- Parsing infix operations takes operators as far as they are above the floor, and groups them. -/
theorem parseInfix_takes {floor : Nat} {left e : Expr} {s rest : Stream}
    (h : Gives (parseInfix floor left s) e rest) :
    ∃ ops, s.Takes ops rest ∧ Climbs floor left ops e ∧ rest.Stops (Token.bindsAbove floor) := by
  induction hsize : s.size using Nat.strongRecOn generalizing floor left e s rest with
  | ind n ih =>
    subst hsize
    rcases parseInfix_cases h with hstop | ⟨op, s₁, power, rfl, hpower, hfloor⟩
    · obtain ⟨rfl, rfl⟩ := (gives_parseInfix_stop hstop).mp h
      exact ⟨[], .nothing rest, .stop floor e, hstop⟩
    · obtain ⟨next, s₂, hnext, right, s₃, hright, hrest⟩ := (gives_parseInfix_above hpower hfloor).mp h
      have h₂ : s₂.size < (Stream.token op s₁).size := Nat.lt_succ_of_lt hnext.shorter
      have h₃ : s₃.size < (Stream.token op s₁).size :=
        Nat.lt_of_lt_of_le hright.shorter (Nat.succ_le_of_lt h₂)
      obtain ⟨inner, hinner, hclimbs, hend⟩ := ih s₂.size h₂ hright rfl
      obtain ⟨outer, houter, hclimbs', hend'⟩ := ih s₃.size h₃ hrest rfl
      have hop : op.infixPower?.isSome := by rw [hpower]; rfl
      exact ⟨(op, next) :: (inner ++ outer), .operator hop hnext (hinner.append houter),
        .step hpower hfloor hclimbs (houter.ops_stop hend) hclimbs', hend'⟩

/-- Where operators can be taken and grouped, parsing infix operations does so. -/
theorem Climbs.parsed {floor : Nat} {left e : Expr} {ops : List (Token × Expr)} {s rest : Stream}
    (h : Climbs floor left ops e) (htakes : s.Takes ops rest)
    (hstop : rest.Stops (Token.bindsAbove floor)) : Gives (parseInfix floor left s) e rest := by
  induction h generalizing s rest with
  | stop floor left =>
    cases htakes
    exact (gives_parseInfix_stop hstop).mpr ⟨rfl, rfl⟩
  | @step floor power _ _ _ _ op _ _ hpower hfloor _ hend _ ihinner ihouter =>
    cases htakes with
    | operator _ hpart hmore =>
      obtain ⟨s₁, hinner, houter⟩ := hmore.split
      have hmiddle := houter.stops hend (hstop.above (Token.le_rightFloor hfloor))
      exact (gives_parseInfix_above hpower hfloor).mpr
        ⟨_, _, hpart, _, _, ihinner hinner hmiddle, ihouter houter hstop⟩

end Chains

section Lists

variable {t u : Token} {close : String} {items es : List Expr} {s rest : Stream}

/-- A list that is closed at once is empty. -/
theorem gives_parseItems_close (ht : t.isPunctuation close) :
    Gives (parseItems close (.token t s)) es rest ↔ es = [] ∧ rest = s := by
  rw [parseItems, if_pos ht]
  exact Gives.ok_iff

/-- A list that is not closed at once has a first item. -/
theorem gives_parseItems_item (ht : ¬ t.isPunctuation close) :
    Gives (parseItems close (.token t s)) es rest ↔
      ∃ e s₁, Gives (parseExpr (.token t s)) e s₁ ∧ Gives (parseMoreItems close [e] s₁) es rest := by
  rw [parseItems, if_neg ht]
  exact Gives.bind_iff fun p => Gives.widen_iff

/-- A list is found only where a token follows the opening bracket. -/
theorem parseItems_cases (h : Gives (parseItems close s) es rest) : ∃ t s₁, s = .token t s₁ := by
  cases s with
  | broken d =>
    rw [parseItems] at h
    exact absurd h Gives.not_error
  | finish last =>
    rw [parseItems] at h
    exact absurd h Gives.not_error
  | token t s => exact ⟨t, s, rfl⟩

/-- The closing bracket ends the list. -/
theorem gives_parseMoreItems_close (ht : t.isPunctuation close) :
    Gives (parseMoreItems close items (.token t s)) es rest ↔ es = items.reverse ∧ rest = s := by
  rw [parseMoreItems.eq_def]
  simp only [if_pos ht]
  exact Gives.ok_iff

/-- A comma may stand in front of the closing bracket. -/
theorem gives_parseMoreItems_lastComma (hclose : ¬ t.isPunctuation close) (ht : t.isPunctuation ",")
    (hu : u.isPunctuation close) :
    Gives (parseMoreItems close items (.token t (.token u s))) es rest ↔
      es = items.reverse ∧ rest = s := by
  rw [parseMoreItems, if_neg hclose, if_pos ht]
  simp only [if_pos hu]
  exact Gives.ok_iff

/-- A comma that the closing bracket does not follow announces another item. -/
theorem gives_parseMoreItems_comma (hclose : ¬ t.isPunctuation close) (ht : t.isPunctuation ",")
    (hu : ¬ u.isPunctuation close) :
    Gives (parseMoreItems close items (.token t (.token u s))) es rest ↔
      ∃ e s₁, Gives (parseExpr (.token u s)) e s₁ ∧
        Gives (parseMoreItems close (e :: items) s₁) es rest := by
  rw [parseMoreItems, if_neg hclose, if_pos ht]
  simp only [if_neg hu]
  exact Gives.bind_iff fun p => Gives.widen_iff

/-- Behind an item stands the closing bracket, or a comma with a token behind it. -/
theorem parseMoreItems_cases (h : Gives (parseMoreItems close items s) es rest) :
    ∃ t s₁, s = .token t s₁ ∧ (t.isPunctuation close ∨
      ¬ t.isPunctuation close ∧ t.isPunctuation "," ∧ ∃ u s₂, s₁ = .token u s₂) := by
  rw [parseMoreItems.eq_def] at h
  cases s with
  | broken d => exact absurd h Gives.not_error
  | finish last => exact absurd h Gives.not_error
  | token t s =>
    refine ⟨t, s, rfl, ?_⟩
    by_cases hclose : t.isPunctuation close
    · exact Or.inl hclose
    · by_cases ht : t.isPunctuation ","
      · simp only [if_neg hclose, if_pos ht] at h
        cases s with
        | broken d => exact absurd h Gives.not_error
        | finish last => exact absurd h Gives.not_error
        | token u s => exact Or.inr ⟨hclose, ht, u, s, rfl⟩
      · simp only [if_neg hclose, if_neg ht] at h
        exact absurd h Gives.not_error

end Lists

namespace Token

variable {t : Token}

/-- Being a given sign is a matter of kind and text. -/
theorem isPunctuation_iff {sign : String} (h : sign ≠ "") :
    t.isPunctuation sign ↔ t.kind = .punctuation ∧ t.lexeme = sign := by
  simp [isPunctuation, is, h]

/-- Being a given reserved word is a matter of kind and text. -/
theorem isKeyword_iff {word : String} (h : word ≠ "") :
    t.isKeyword word ↔ t.kind = .keyword ∧ t.lexeme = word := by
  simp [isKeyword, is, h]

/-- A token of another kind is no sign at all. -/
theorem not_isPunctuation (h : t.kind ≠ .punctuation) (sign : String) : ¬ t.isPunctuation sign := by
  simp [isPunctuation, is, h]

/-- A token of another kind is no reserved word at all. -/
theorem not_isKeyword (h : t.kind ≠ .keyword) (word : String) : ¬ t.isKeyword word := by
  simp [isKeyword, is, h]

/-- How a token that is a reserved word fares in the tests for signs and for reserved words. -/
theorem tests_of_isKeyword {word : String} (ht : t.isKeyword word) (hword : word ≠ "") :
    (∀ sign, ¬ t.isPunctuation sign) ∧ ∀ other, other ≠ "" → (t.isKeyword other ↔ word = other) := by
  obtain ⟨hkind, hlexeme⟩ := (isKeyword_iff hword).mp ht
  refine ⟨not_isPunctuation (by rw [hkind]; decide), fun other hother => ?_⟩
  rw [isKeyword_iff hother, hkind, hlexeme]
  exact and_iff_right rfl

/-- A token that is one punctuation sign is no other. -/
theorem not_isPunctuation_of_ne {sign other : String} (ht : t.isPunctuation sign) (hsign : sign ≠ "")
    (hother : other ≠ "") (hne : sign ≠ other) : ¬ t.isPunctuation other := by
  intro h
  rw [isPunctuation_iff hsign] at ht
  rw [isPunctuation_iff hother] at h
  exact hne (ht.2.symm.trans h.2)

end Token

/-- A sign is taken exactly where it comes first. -/
theorem gives_takePunctuation {sign : String} {s rest : Stream} :
    Gives (takePunctuation sign s) () rest ↔ ∃ t, s = .token t rest ∧ t.isPunctuation sign := by
  unfold takePunctuation
  cases s with
  | broken d => simp [Gives.not_error]
  | finish last => simp [Gives.not_error]
  | token t s =>
    by_cases ht : t.isPunctuation sign
    · simp only [if_pos ht, Gives.ok_iff, true_and]
      constructor
      · rintro rfl
        exact ⟨t, rfl, ht⟩
      · rintro ⟨u, hu, _⟩
        cases hu
        rfl
    · simp only [if_neg ht]
      constructor
      · exact fun h => absurd h Gives.not_error
      · rintro ⟨u, hu, hsign⟩
        cases hu
        exact absurd hsign ht

section Names

variable {t u : Token} {names ns : List String} {s rest : Stream}

/-- The closing bracket ends the parameters. -/
theorem gives_parseMoreNames_close (ht : t.isPunctuation "]") :
    Gives (parseMoreNames names (.token t s)) ns rest ↔ ns = names.reverse ∧ rest = s := by
  rw [parseMoreNames.eq_def]
  simp only [if_pos ht]
  exact Gives.ok_iff

/-- A comma may stand in front of the bracket that closes the parameters. -/
theorem gives_parseMoreNames_lastComma (hclose : ¬ t.isPunctuation "]") (ht : t.isPunctuation ",")
    (hu : u.isPunctuation "]") :
    Gives (parseMoreNames names (.token t (.token u s))) ns rest ↔ ns = names.reverse ∧ rest = s := by
  rw [parseMoreNames, if_neg hclose, if_pos ht]
  simp only [if_pos hu]
  exact Gives.ok_iff

/-- A comma that is not the last announces another parameter. -/
theorem gives_parseMoreNames_comma (hclose : ¬ t.isPunctuation "]") (ht : t.isPunctuation ",")
    (hu : u.kind = .identifier) :
    Gives (parseMoreNames names (.token t (.token u s))) ns rest ↔
      Gives (parseMoreNames (u.lexeme :: names) s) ns rest := by
  have hsign : ¬ u.isPunctuation "]" := Token.not_isPunctuation (by rw [hu]; decide) _
  rw [parseMoreNames, if_neg hclose, if_pos ht]
  simp only [if_neg hsign, if_pos hu]
  exact Gives.widen_iff

/-- Behind a parameter stands the closing bracket, or a comma and then the bracket or a name. -/
theorem parseMoreNames_cases (h : Gives (parseMoreNames names s) ns rest) :
    ∃ t s₁, s = .token t s₁ ∧ (t.isPunctuation "]" ∨
      ¬ t.isPunctuation "]" ∧ t.isPunctuation "," ∧ ∃ u s₂, s₁ = .token u s₂ ∧
        (u.isPunctuation "]" ∨ u.kind = .identifier)) := by
  rw [parseMoreNames.eq_def] at h
  cases s with
  | broken d => exact absurd h Gives.not_error
  | finish last => exact absurd h Gives.not_error
  | token t s =>
    refine ⟨t, s, rfl, ?_⟩
    by_cases hclose : t.isPunctuation "]"
    · exact Or.inl hclose
    · by_cases ht : t.isPunctuation ","
      · simp only [if_neg hclose, if_pos ht] at h
        cases s with
        | broken d => exact absurd h Gives.not_error
        | finish last => exact absurd h Gives.not_error
        | token u s =>
          refine Or.inr ⟨hclose, ht, u, s, rfl, ?_⟩
          by_cases hu : u.isPunctuation "]"
          · exact Or.inl hu
          · by_cases hkind : u.kind = .identifier
            · exact Or.inr hkind
            · simp only [if_neg hu, if_neg hkind] at h
              exact absurd h Gives.not_error
      · simp only [if_neg hclose, if_neg ht] at h
        exact absurd h Gives.not_error

/-- What a list of names goes on with after its opening bracket. -/
def FirstName (ns : List String) (rest s : Stream) : Prop :=
  ∃ u s₁, s = .token u s₁ ∧ (u.isPunctuation "]" ∧ ns = [] ∧ rest = s₁ ∨
    u.kind = .identifier ∧ Gives (parseMoreNames [u.lexeme] s₁) ns rest)

/-- The parameters are what stands behind an opening bracket. -/
theorem gives_parseNames :
    Gives (parseNames s) ns rest ↔
      ∃ t s₁, s = .token t s₁ ∧ t.isPunctuation "[" ∧ FirstName ns rest s₁ := by
  have hbind : Gives (parseNames s) ns rest ↔
      ∃ v s₁, Gives (takePunctuation "[" s) v s₁ ∧ FirstName ns rest s₁ := by
    unfold parseNames
    refine Gives.bind_iff (Q := fun _ s₁ => FirstName ns rest s₁) fun p => ?_
    obtain ⟨v, s₁, h⟩ := p
    cases s₁ with
    | broken d => simp [FirstName, Gives.not_error]
    | finish last => simp [FirstName, Gives.not_error]
    | token u s₁ =>
      by_cases hclose : u.isPunctuation "]"
      · have hkind : u.kind ≠ .identifier := by
          rw [((Token.isPunctuation_iff (by decide)).mp hclose).1]
          decide
        simp only [if_pos hclose, Gives.ok_iff]
        constructor
        · exact fun h => ⟨u, s₁, rfl, Or.inl ⟨hclose, h⟩⟩
        · rintro ⟨_, _, heq, (⟨_, h⟩ | ⟨h, _⟩)⟩
          · cases heq
            exact h
          · cases heq
            exact absurd h hkind
      · by_cases hkind : u.kind = .identifier
        · simp only [if_neg hclose, if_pos hkind, Gives.widen_iff]
          constructor
          · exact fun h => ⟨u, s₁, rfl, Or.inr ⟨hkind, h⟩⟩
          · rintro ⟨_, _, heq, (⟨h, _⟩ | ⟨_, h⟩)⟩
            · cases heq
              exact absurd h hclose
            · cases heq
              exact h
        · simp only [if_neg hclose, if_neg hkind]
          constructor
          · exact fun h => absurd h Gives.not_error
          · rintro ⟨_, _, heq, (⟨h, _⟩ | ⟨h, _⟩)⟩
            · cases heq
              exact absurd h hclose
            · cases heq
              exact absurd h hkind
  rw [hbind]
  constructor
  · rintro ⟨_, s₁, htake, h⟩
    obtain ⟨t, rfl, ht⟩ := gives_takePunctuation.mp htake
    exact ⟨t, s₁, rfl, ht, h⟩
  · rintro ⟨t, s₁, rfl, ht, h⟩
    exact ⟨(), s₁, gives_takePunctuation.mpr ⟨t, rfl, ht⟩, h⟩

end Names

section Primaries

variable {t : Token} {e : Expr} {s rest : Stream}

/-- An expression in parentheses is that expression. -/
theorem gives_parsePrimary_parens (ht : t.isPunctuation "(") :
    Gives (parsePrimary (.token t s)) e rest ↔
      ∃ u, Gives (parseExpr s) e (.token u rest) ∧ u.isPunctuation ")" := by
  have hbind : Gives (parsePrimary (.token t s)) e rest ↔
      ∃ v s₁, Gives (parseExpr s) v s₁ ∧ ∃ w, Gives (takePunctuation ")" s₁) w rest ∧ e = v := by
    rw [parsePrimary, if_pos ht]
    exact Gives.bind_iff fun p => Gives.map_iff (fun _ => p.value) fun _ => ⟨_, rfl⟩
  rw [hbind]
  constructor
  · rintro ⟨_, s₁, he, _, htake, rfl⟩
    obtain ⟨u, rfl, hu⟩ := gives_takePunctuation.mp htake
    exact ⟨u, he, hu⟩
  · rintro ⟨u, he, hu⟩
    exact ⟨e, _, he, (), gives_takePunctuation.mpr ⟨u, rfl, hu⟩, rfl⟩

/-- Items in brackets make a block, which begins where the bracket stands. -/
theorem gives_parsePrimary_block (ht : t.isPunctuation "[") :
    Gives (parsePrimary (.token t s)) e rest ↔
      ∃ es, Gives (parseItems "]" s) es rest ∧ e = .block t.position es := by
  have hparen : ¬ t.isPunctuation "(" :=
    Token.not_isPunctuation_of_ne ht (by decide) (by decide) (by decide)
  rw [parsePrimary, if_neg hparen, if_pos ht]
  exact Gives.map_iff (fun es => Expr.block t.position es) fun _ => ⟨_, rfl⟩

/-- A conditional has an alternative if `else` follows, and none if anything else does. -/
theorem gives_parsePrimary_if (ht : t.isKeyword "if") :
    Gives (parsePrimary (.token t s)) e rest ↔
      ∃ c s₁, Gives (parseExpr s) c s₁ ∧ ∃ b s₂, Gives (parseExpr s₁) b s₂ ∧
        (s₂.Stops (·.isKeyword "else") ∧ e = .ifThen t.position c b ∧ rest = s₂ ∨
          ∃ u s₃ o, s₂ = .token u s₃ ∧ u.isKeyword "else" ∧ Gives (parseExpr s₃) o rest ∧
            e = .ifElse t.position c b o) := by
  obtain ⟨hsign, _⟩ := Token.tests_of_isKeyword ht (by decide)
  rw [parsePrimary, if_neg (hsign _), if_neg (hsign _), if_pos ht]
  refine Gives.bind_iff fun p => Gives.bind_iff fun q => ?_
  split
  · next hq => simp [hq, Stream.Stops, Gives.not_error]
  · next u s₃ hq =>
    by_cases hu : u.isKeyword "else"
    · rw [if_pos hu]
      refine (Gives.map_iff (fun o => Expr.ifElse t.position p.value q.value o)
        fun _ => ⟨_, rfl⟩).trans ?_
      constructor
      · rintro ⟨o, ho, he⟩
        exact Or.inr ⟨u, s₃, o, hq, hu, ho, he⟩
      · rintro (⟨hstop, _⟩ | ⟨_, _, o, heq, _, ho, he⟩)
        · rw [hq] at hstop
          exact absurd hu (Bool.eq_false_iff.mp hstop)
        · cases hq.symm.trans heq
          exact ⟨o, ho, he⟩
    · rw [if_neg hu]
      refine Gives.ok_iff.trans ?_
      constructor
      · rintro ⟨he, hrest⟩
        exact Or.inl ⟨hq ▸ Bool.eq_false_iff.mpr hu, he, hrest⟩
      · rintro (⟨_, h⟩ | ⟨_, _, _, heq, helse, _⟩)
        · exact h
        · cases hq.symm.trans heq
          exact absurd helse hu
  · next hq =>
    refine Gives.ok_iff.trans ?_
    constructor
    · rintro ⟨he, hrest⟩
      exact Or.inl ⟨hq ▸ trivial, he, hrest⟩
    · rintro (⟨_, h⟩ | ⟨_, _, _, heq, _⟩)
      · exact h
      · cases hq.symm.trans heq

/-- A form that a reserved word starts: the word, how its first part is parsed, and what is made of that
part and the expression behind it. -/
inductive WordForm : {α : Type} → String → ((s : Stream) → Except Diagnostic (Parsed α s.size)) →
    (Span → α → Expr → Expr) → Prop
  | loop : WordForm "loop" parseExpr Expr.loop
  | stuff : WordForm "stuff" parseExpr Expr.stuff
  | function : WordForm "fun" parseNames Expr.function

section Forms

variable {α : Type} {word : String} {first : (s : Stream) → Except Diagnostic (Parsed α s.size)}
  {form : Span → α → Expr → Expr} (hform : WordForm word first form) (ht : t.isKeyword word)

include hform ht

/-- Such a form is parsed as its two parts, one after the other. -/
theorem WordForm.parsePrimary_eq (s : Stream) :
    ∃ hshorter : ∀ (p : Parsed α s.size) (q : Parsed Expr p.rest.size), q.rest.size < s.size + 1,
      parsePrimary (.token t s) = first s >>= fun p => parseExpr p.rest >>= fun q =>
        .ok ⟨form t.position p.value q.value, q.rest, hshorter p q⟩ := by
  have hword : word ≠ "" := by cases hform <;> decide
  obtain ⟨hsign, hwords⟩ := Token.tests_of_isKeyword ht hword
  refine ⟨fun p q => Nat.lt_succ_of_lt (Nat.lt_trans q.shorter p.shorter), ?_⟩
  rw [parsePrimary]
  cases hform <;>
    simp only [hsign, hwords, ne_eq, String.reduceEq, not_false_eq_true, if_false, if_true] <;> rfl

/-- Such a form gives what its two parts make. -/
theorem WordForm.gives_parsePrimary : Gives (parsePrimary (.token t s)) e rest ↔
    ∃ a s₁, Gives (first s) a s₁ ∧ ∃ b, Gives (parseExpr s₁) b rest ∧ e = form t.position a b := by
  obtain ⟨_, heq⟩ := hform.parsePrimary_eq ht s
  rw [heq]
  exact Gives.bind_iff fun p => Gives.map_iff (fun b => form t.position p.value b) fun _ => ⟨_, rfl⟩

end Forms

/-- An `unstuff` takes one expression, its base. -/
theorem gives_parsePrimary_unstuff (ht : t.isKeyword "unstuff") :
    Gives (parsePrimary (.token t s)) e rest ↔
      ∃ b, Gives (parseExpr s) b rest ∧ e = .unstuff t.position b := by
  obtain ⟨hsign, hwords⟩ := Token.tests_of_isKeyword ht (by decide)
  rw [parsePrimary]
  simp only [hsign, hwords, ne_eq, String.reduceEq, not_false_eq_true, if_false, if_true]
  exact Gives.map_iff (fun b => Expr.unstuff t.position b) fun _ => ⟨_, rfl⟩

/-- A truth value is parsed from its word alone. -/
theorem parsePrimary_bool (b : Bool) (ht : t.isKeyword (toString b)) (s : Stream) :
    parsePrimary (.token t s) = .ok ⟨.bool t.position b, s, Nat.lt_succ_self _⟩ := by
  have hword : toString b ≠ "" := by cases b <;> decide
  obtain ⟨hsign, hwords⟩ := Token.tests_of_isKeyword ht hword
  rw [parsePrimary]
  cases b <;>
    simp only [hsign, hwords, ne_eq, String.reduceEq, not_false_eq_true, if_false, if_true, toString,
      cond_true, cond_false, Bool.false_eq_true]

/-- A truth value gives itself. -/
theorem gives_parsePrimary_bool (b : Bool) (ht : t.isKeyword (toString b)) :
    Gives (parsePrimary (.token t s)) e rest ↔ e = .bool t.position b ∧ rest = s := by
  rw [parsePrimary_bool b ht]
  exact Gives.ok_iff

/-- A token that is no sign and no reserved word is read for what its class says. -/
theorem gives_parsePrimary_literal (hsign : t.kind ≠ .punctuation) (hword : t.kind ≠ .keyword) :
    Gives (parsePrimary (.token t s)) e rest ↔ rest = s ∧
      ((∃ n, t.kind = .number ∧ Number.read? t.lexeme = some n ∧ e = .number t.position t.lexeme n) ∨
        t.kind = .string ∧ e = .string t.position t.lexeme ∨
        t.kind = .identifier ∧ e = .ident t.position t.lexeme) := by
  rw [parsePrimary]
  simp only [Token.not_isPunctuation hsign, Token.not_isKeyword hword]
  cases hkind : t.kind with
  | number =>
    cases hn : Number.read? t.lexeme with
    | none => simp [Gives.not_error]
    | some n => simp [Gives.ok_iff, and_comm]
  | string => simp [Gives.ok_iff, and_comm]
  | identifier => simp [Gives.ok_iff, and_comm]
  | _ => simp [Gives.not_error]

/-- Whatever starts a primary expression is one of the signs and words above, or a literal. -/
theorem parsePrimary_cases (h : Gives (parsePrimary s) e rest) :
    ∃ t s₁, s = .token t s₁ ∧ (t.isPunctuation "(" ∨ t.isPunctuation "[" ∨ t.isKeyword "if" ∨
      t.isKeyword "loop" ∨ t.isKeyword "stuff" ∨ t.isKeyword "unstuff" ∨ t.isKeyword "true" ∨
      t.isKeyword "false" ∨ t.isKeyword "fun" ∨
      t.kind ≠ .punctuation ∧ t.kind ≠ .keyword) := by
  cases s with
  | broken d =>
    rw [parsePrimary] at h
    exact absurd h Gives.not_error
  | finish last =>
    rw [parsePrimary] at h
    exact absurd h Gives.not_error
  | token t s =>
    refine ⟨t, s, rfl, Classical.byContradiction fun hno => ?_⟩
    simp only [not_or] at hno
    obtain ⟨h₁, h₂, h₃, h₄, h₅, h₆, h₇, h₈, h₉, hother⟩ := hno
    rw [parsePrimary] at h
    simp only [h₁, h₂, h₃, h₄, h₅, h₆, h₇, h₈, h₉] at h
    refine hother ⟨fun hkind => ?_, fun hkind => ?_⟩
    · simp only [hkind] at h
      exact Gives.not_error h
    · simp only [hkind] at h
      exact Gives.not_error h

end Primaries

end StuffScript
