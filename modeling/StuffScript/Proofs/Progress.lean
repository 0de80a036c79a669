import StuffScript.Proofs.PullingRules

/-!
# The parser makes progress

A parser that pulls its tokens from a lexer could go round for ever, or nest without end. It does neither:
each procedure calls one of lower rank or has taken a token before it calls, and each round of a loop that
leads to another one has taken a token too. So the tokens that are left bound the rounds, and six times their
number bounds how deep activations nest.

Each procedure is shown to do what the parsing of streams does, given that those it calls do, and then all of
them are by induction on how deep they may nest. The main statement is `parser_makes_progress`.
-/

namespace StuffScript

section Calling

/-- What a procedure adds to the activations that fewer tokens need. It calls only those with less, unless a
token was taken. -/
def Procedure.rank {α : Type} : Procedure α → Nat
  | .item _ => 7
  | .expression => 6
  | .part => 5
  | .primary => 4
  | .block | .conditional | .loop | .stuff | .unstuff | .function => 3
  | .list _ | .operations _ _ => 2
  | .sign _ | .word _ => 1

/-- Ranks go up to seven. -/
theorem Procedure.rank_le {α : Type} (p : Procedure α) : p.rank ≤ 7 := by
  cases p <;> simp [rank]

/-- Every procedure has a rank above zero, so none fits where no nesting is left. -/
theorem Procedure.rank_pos {α : Type} (p : Procedure α) : 0 < p.rank := by
  cases p <;> simp [rank]

/-- The bounds are enough for a procedure: more rounds than tokens, and six activations for every token. -/
structure Procedure.Fits {α : Type} (p : Procedure α) (rounds nested : Nat) (l : Lexer) : Prop where
  rounds : l.stream.size < rounds
  nested : 6 * l.stream.size + p.rank ≤ nested

/-- A computation does what a procedure is to do: it comes to what the procedure reads. -/
def Performs {α : Type} (x : Pull α) (p : Procedure α) (l : Lexer) : Prop :=
  x.Ends l (p.reading l.stream = .refused ·) fun a l' => p.reading l.stream = .found a l'.stream

variable {α β γ : Type} {rounds nested : Nat} {l l' : Lexer}

namespace Procedure.Fits

variable {p : Procedure α} {q : Procedure β}

/-- A procedure fits where one of higher rank fits that has at least as much to read. -/
theorem of_le (h : p.Fits rounds nested l) (hl : l'.stream.size ≤ l.stream.size) (hrank : q.rank ≤ p.rank) :
    q.Fits rounds nested l' := by
  obtain ⟨hrounds, hnested⟩ := h
  exact ⟨by omega, by omega⟩

/-- A procedure may call another one of lower rank. -/
theorem called (h : p.Fits rounds (nested + 1) l) (hl : l'.stream.size ≤ l.stream.size)
    (hrank : q.rank < p.rank) : q.Fits rounds nested l' := by
  obtain ⟨hrounds, hnested⟩ := h
  exact ⟨by omega, by omega⟩

/-- Once a token is taken, it may call any. -/
theorem called_behind (h : p.Fits rounds (nested + 1) l) (hp : 1 < p.rank)
    (hl : l'.stream.size < l.stream.size) (q : Procedure β) : q.Fits rounds nested l' := by
  obtain ⟨hrounds, hnested⟩ := h
  have := q.rank_le
  exact ⟨by omega, by omega⟩

end Procedure.Fits

namespace Performs

variable {x : Pull α} {p : Procedure α} {f : α → Pull β} {z : Reading γ} {k : α → Stream → Reading γ}
  {Q : β → Lexer → Prop}

/-- A call, and what is behind it. -/
theorem bind_le (h : Performs x p l) (hz : z = (p.reading l.stream).andThen k)
    (hf : ∀ a l', l'.stream.size ≤ l.stream.size → p.reading l.stream = .found a l'.stream →
      z = k a l'.stream → (f a).Ends l' (z = .refused ·) Q) :
    (x >>= f).Ends l (z = .refused ·) Q := by
  cases h with
  | refused hx hnotes hd => exact .refused (Pull.bind_error hx) hnotes (by rw [hz, hd]; rfl)
  | found hx hnotes hleads ha =>
    refine .bind_of_ok hx hnotes hleads (hf _ _ hleads.size_le ha ?_)
    rw [hz, ha]
    rfl

/-- A call that takes a token, and what is behind it. -/
theorem bind (h : Performs x p l) (hp : p.Consuming) (hz : z = (p.reading l.stream).andThen k)
    (hf : ∀ a l', l'.stream.size < l.stream.size → z = k a l'.stream → (f a).Ends l' (z = .refused ·) Q) :
    (x >>= f).Ends l (z = .refused ·) Q :=
  h.bind_le hz fun a l' _ ha => hf a l' (p.reading_shorter hp ha)

/-- A call that is the last thing to do. -/
theorem last {z : Reading α} (h : Performs x p l) (hz : z = p.reading l.stream) :
    x.Ends l (z = .refused ·) fun a l' => z = .found a l'.stream := hz ▸ h

/-- The note of a return shows progress, because what is left is shorter. -/
theorem returning (h : Performs x p l) : Performs (x.returning p) p l := by
  refine .bind_of_ok rfl (List.forall_mem_nil _) (.refl _) ?_
  refine Pull.Ends.bind h fun a l' hleads ha => ?_
  refine .bind_of_ok rfl (List.forall_mem_singleton.mpr fun hp => ?_) (.refl _) (.pure ha)
  exact hleads.consumes (p.reading_shorter hp ha)

end Performs

/-- Procedures are performed wherever the bounds are enough for them. -/
def Calls (rounds nested : Nat) (call : {β : Type} → Procedure β → Pull β) : Prop :=
  ∀ {β : Type} (q : Procedure β) (l : Lexer), q.Fits rounds nested l → Performs (call q) q l

end Calling

section Tokens

variable {t : Token}

/-- The end of the source is no sign, no reserved word and no operator. -/
theorem Token.tests_of_endOfInput (h : t.kind = .endOfInput) :
    (∀ sign, ¬ t.isPunctuation sign) ∧ (∀ word, ¬ t.isKeyword word) ∧ t.infixPower? = none := by
  refine ⟨Token.not_isPunctuation ?_, Token.not_isKeyword ?_, ?_⟩
  · rw [h]
    decide
  · rw [h]
    decide
  · rw [Token.infixPower?, h]
    rfl

end Tokens

section Taking

variable {rounds : Nat} {call : {β : Type} → Procedure β → Pull β} (l : Lexer)

/-- Looking at a token and then passing over it, if it is of the kind that is wanted, takes it. -/
theorem look_ends {α : Type} {wanted : Token → Bool} {value : Token → α} {complaint : Complaint}
    {taking : Token → Pull α} (hend : ∀ t : Token, t.kind = .endOfInput → ¬ wanted t)
    (htaking : ∀ {E : Diagnostic → Prop} {l : Lexer} {t : Token} {s : Stream}, l.ahead = some t →
      l.stream = .token t s → (taking t).Ends l E fun a l' => a = value t ∧ l'.stream = s) :
    (Pull.look >>= fun t => if wanted t then taking t else Pull.fail (complaint.located t.position)).Ends l
      (takeToken wanted value complaint l.stream = .refused ·)
      fun a l' => takeToken wanted value complaint l.stream = .found a l'.stream := by
  cases hs : l.stream with
  | broken d => exact .look_broken hs rfl
  | finish last =>
    obtain ⟨hnext, hkind⟩ := Lexer.next_of_finish hs
    refine .look hnext fun l₁ _ _ => ?_
    rw [if_neg (hend last hkind)]
    exact .fail rfl
  | token t s =>
    refine .look (Lexer.next_of_token hs).1 fun l₁ hahead hl₁ => ?_
    rw [takeToken]
    by_cases ht : wanted t
    · rw [if_pos ht, if_pos ht]
      refine (htaking hahead (hl₁.trans hs)).mono (fun _ hd => hd) ?_
      rintro _ l₂ ⟨rfl, rfl⟩
      rfl
    · rw [if_neg ht, if_neg ht]
      exact .fail rfl

/-- Taking a punctuation sign does what its procedure is to do. -/
theorem performs_sign (text : String) : Performs ((Procedure.sign text).body rounds call) (.sign text) l := by
  simp only [Performs, Procedure.reading, reading_takePunctuation_eq]
  refine look_ends l (fun _ hkind => (Token.tests_of_endOfInput hkind).1 text) fun hahead hs => ?_
  exact (Pull.Ends.pass hahead hs).mono (fun _ hd => hd) fun _ _ hrest => ⟨rfl, hrest⟩

/-- Taking a reserved word does what its procedure is to do. -/
theorem performs_word (text : String) : Performs ((Procedure.word text).body rounds call) (.word text) l :=
  look_ends l (fun _ hkind => (Token.tests_of_endOfInput hkind).2.1 text) fun hahead hs =>
    .bind (.pass hahead hs) fun _ _ _ hrest => .pure ⟨rfl, hrest⟩

/-- Taking the name of a parameter does what its procedure is to do. -/
theorem performs_parameter :
    Performs ((Procedure.item .parameters).body rounds call) (.item .parameters) l := by
  unfold Performs
  simp only [Procedure.reading, Listing.item]
  cases hs : l.stream with
  | broken d => exact .take_broken hs rfl
  | finish last =>
    obtain ⟨hnext, hkind⟩ := Lexer.next_of_finish hs
    refine .take_fail hnext (if_neg ?_) rfl
    rw [hkind]
    decide
  | token t s =>
    refine .take_token hs fun l₁ hl₁ => ?_
    simp only [takeName, takeToken, decide_eq_true_eq]
    by_cases ht : t.kind = .identifier
    · rw [if_pos ht, if_pos ht]
      exact .pure (by rw [hl₁])
    · rw [if_neg ht, if_neg ht]
      exact .fail rfl

/-- A token by itself, behind which nothing more is taken. -/
theorem literal_ends {t : Token} (hkind : t.kind ≠ .endOfInput) {l : Lexer} :
    (literal t).Ends l (literalReading t l.stream = .refused ·) fun e l' =>
      literalReading t l.stream = .found e l'.stream := by
  unfold literal literalReading
  cases hkind' : t.kind with
  | number =>
    cases Number.read? t.lexeme with
    | none => exact .fail rfl
    | some value => exact .pure rfl
  | string => exact .pure rfl
  | identifier => exact .pure rfl
  | endOfInput => exact absurd hkind' hkind
  | _ => exact .fail rfl

end Taking

section Loops

/-- How a round of a list is to end: with the closing bracket to come, or with the rest of the list. -/
def Listing.Turns {α : Type} (kind : Listing α) (z : Reading (List α)) :
    Lexer → Turn (List α) (List α) → Lexer → Prop :=
  Turn.Advances (fun items l' => z = kind.rest items l'.stream) fun items l' =>
    z = ((Procedure.sign kind.closing).reading l'.stream).andThen fun _ s => .found items s

/-- A list whose closing bracket is next is done. -/
theorem Listing.turns_done {α : Type} (kind : Listing α) {z : Reading (List α)} {items : List α} {t : Token}
    {s : Stream} {l l' : Lexer} (ht : t.isPunctuation kind.closing) (hs : l'.stream = .token t s)
    (hz : z = .found items s) : kind.Turns z l (.done items) l' := by
  change z = ((Procedure.sign kind.closing).reading l'.stream).andThen fun _ s => .found items s
  rw [hz, hs, Procedure.reading_sign ht]
  rfl

variable {α : Type} {rounds nested : Nat} {call : {β : Type} → Procedure β → Pull β} {l : Lexer}
  (h : Calls rounds nested call)
include h

/-- One operator and its right side, with an expression to the left. -/
theorem operationsRound_ends {left : Expr} {floor : Nat} {z : Reading Expr}
    (hl : (Procedure.operations left floor).Fits rounds (nested + 1) l)
    (hz : z = reading (parseInfix floor left l.stream)) :
    (operationsRound call floor left).Ends l (z = .refused ·)
      (Turn.Advances (fun left l' => z = reading (parseInfix floor left l'.stream))
        (fun e l' => z = .found e l'.stream) l) := by
  cases hs : l.stream with
  | broken d =>
    refine .look_broken hs ?_
    rw [hz, hs, parseInfix]
    rfl
  | finish last =>
    obtain ⟨hnext, hkind⟩ := Lexer.next_of_finish hs
    refine .look hnext fun l₁ _ hl₁ => ?_
    rw [(Token.tests_of_endOfInput hkind).2.2]
    refine .pure (show z = .found left l₁.stream from ?_)
    rw [hz, hl₁, hs, parseInfix]
    rfl
  | token t s =>
    have hlt := Stream.size_lt_of_token hs
    rw [hs] at hz
    refine .look (Lexer.next_of_token hs).1 fun l₁ hahead hl₁ => ?_
    rw [hs] at hl₁
    cases hpower : t.infixPower? with
    | none =>
      refine .pure (show z = .found left l₁.stream from ?_)
      rw [hz, hl₁, reading_parseInfix_stop (by simp [hpower])]
    | some power =>
      by_cases hfloor : power ≤ floor
      · simp only [if_pos hfloor]
        refine .pure (show z = .found left l₁.stream from ?_)
        rw [hz, hl₁, reading_parseInfix_stop (by simp [hpower, hfloor])]
      · simp only [if_neg hfloor]
        rw [reading_parseInfix_above hpower hfloor] at hz
        refine .bind (.pass hahead hl₁) fun _ l₂ _ hl₂ => ?_
        subst hl₂
        refine (h .part l₂ (hl.called_behind Nat.one_lt_two hlt _)).bind trivial hz fun next l₃ hlt₃ hz => ?_
        have hlt₃ := hlt₃.trans hlt
        refine (h (.operations next _) l₃ (hl.called_behind Nat.one_lt_two hlt₃ _)).bind_le hz
          fun right l₄ hle₄ _ hz => ?_
        exact .pure ⟨hz, hle₄.trans_lt hlt₃⟩

/-- The operators behind an operand are performed as they are read. -/
theorem performs_operations {left : Expr} {floor : Nat}
    (hl : (Procedure.operations left floor).Fits rounds (nested + 1) l) :
    Performs ((Procedure.operations left floor).body rounds call) (.operations left floor) l :=
  .loop (fun _ _ hle hz => operationsRound_ends h (hl.of_le hle le_rfl) hz) hl.rounds rfl

/-- One list of arguments, with the expression that is called before it. -/
theorem callsRound_ends {callee : Expr} {z : Reading Expr}
    (hl : ∀ l', l'.stream.size ≤ l.stream.size → (Procedure.list .arguments).Fits rounds nested l')
    (hz : z = reading (parseCalls callee l.stream)) :
    (callsRound call callee).Ends l (z = .refused ·)
      (Turn.Advances (fun callee l' => z = reading (parseCalls callee l'.stream))
        (fun e l' => z = .found e l'.stream) l) := by
  cases hs : l.stream with
  | broken d =>
    refine .look_broken hs ?_
    rw [hz, hs, parseCalls]
    rfl
  | finish last =>
    obtain ⟨hnext, hkind⟩ := Lexer.next_of_finish hs
    refine .look hnext fun l₁ _ hl₁ => ?_
    rw [if_neg ((Token.tests_of_endOfInput hkind).1 _)]
    refine .pure (show z = .found callee l₁.stream from ?_)
    rw [hz, hl₁, hs, parseCalls]
    rfl
  | token t s =>
    refine .look (Lexer.next_of_token hs).1 fun l₁ _ hl₁ => ?_
    by_cases ht : t.isPunctuation "("
    · rw [if_pos ht]
      have hz : z = ((Procedure.list .arguments).reading l₁.stream).andThen fun args s =>
          reading (parseCalls (.call callee.span callee args) s) := by
        rw [hz, hl₁, hs, reading_parseCalls_open ht, Procedure.reading_list .arguments ht]
        rfl
      refine (h (.list .arguments) l₁ (hl l₁ (hl₁ ▸ le_rfl))).bind trivial hz fun args l₂ hlt hz => ?_
      exact .pure ⟨hz, hl₁ ▸ hlt⟩
    · rw [if_neg ht]
      refine .pure (show z = .found callee l₁.stream from ?_)
      rw [hz, hl₁, hs, reading_parseCalls_stop ht]

/-- A primary expression and its calls are performed as they are read. -/
theorem performs_part (hl : Procedure.part.Fits rounds (nested + 1) l) :
    Performs (Procedure.part.body rounds call) .part l := by
  refine (h .primary l (hl.called le_rfl (by decide))).bind trivial (reading_parsePart _)
    fun callee l₁ hlt hz => ?_
  refine .loop (fun callee l₂ hle hz => callsRound_ends h (fun l₃ hle' => ?_) hz) (hlt.trans hl.rounds) hz
  exact hl.called_behind (by decide) ((hle'.trans hle).trans_lt hlt) _

/-- An item of a list, unless the list ends. -/
theorem takeItem_ends {kind : Listing α} {items : List α} {z : Reading (List α)}
    (hl : ∀ l', l'.stream.size ≤ l.stream.size → (Procedure.item kind).Fits rounds nested l')
    (hz : z = listEntry kind.closing kind.item kind.rest items l.stream) :
    (takeItem call kind items).Ends l (z = .refused ·) (kind.Turns z l) := by
  have hitem {l₁ : Lexer} (hl₁ : l₁.stream = l.stream)
      (hz : z = (kind.item l.stream).andThen fun a s => kind.rest (a :: items) s) :
      (call (.item kind) >>= fun a => Pure.pure (Turn.again (a :: items))).Ends l₁ (z = .refused ·)
        (kind.Turns z l) := by
    rw [← hl₁] at hz
    refine (h (.item kind) l₁ (hl l₁ (hl₁ ▸ le_rfl))).bind trivial hz fun a l₂ hlt hz => ?_
    exact .pure ⟨hz, hl₁ ▸ hlt⟩
  cases hs : l.stream with
  | broken d =>
    refine .look_broken hs ?_
    rw [hz, hs, listEntry, kind.item_broken]
    rfl
  | finish last =>
    obtain ⟨hnext, hkind⟩ := Lexer.next_of_finish hs
    refine .look hnext fun l₁ _ hl₁ => ?_
    rw [if_neg ((Token.tests_of_endOfInput hkind).1 _)]
    exact hitem hl₁ (by rw [hz, hs]; rfl)
  | token t s =>
    refine .look (Lexer.next_of_token hs).1 fun l₁ _ hl₁ => ?_
    by_cases ht : t.isPunctuation kind.closing
    · rw [if_pos ht]
      refine .pure (kind.turns_done ht (hl₁.trans hs) ?_)
      rw [hz, hs, listEntry, if_pos ht]
    · rw [if_neg ht]
      exact hitem hl₁ (by rw [hz, hs, listEntry, if_neg ht])

/-- One item of a list, and the comma before it. -/
theorem listRound_ends {kind : Listing α} {items : List α} {z : Reading (List α)}
    (hl : ∀ {β : Type} (q : Procedure β) l', l'.stream.size ≤ l.stream.size → q.Fits rounds nested l')
    (hz : z = kind.rest items l.stream) :
    (listRound call kind items).Ends l (z = .refused ·) (kind.Turns z l) := by
  rw [kind.rest_eq] at hz
  cases hs : l.stream with
  | broken d =>
    refine .look_broken hs ?_
    rw [hz, hs]
    rfl
  | finish last =>
    obtain ⟨hnext, hkind⟩ := Lexer.next_of_finish hs
    refine .look hnext fun l₁ _ hl₁ => ?_
    simp only [hkind, decide_true, Bool.true_or, if_true]
    refine .pure (show z = _ from ?_)
    rw [hz, hl₁, hs]
    rfl
  | token t s =>
    obtain ⟨hnext, hkind, _⟩ := Lexer.next_of_token hs
    refine .look hnext fun l₁ _ hl₁ => ?_
    by_cases ht : t.isPunctuation kind.closing
    · simp only [ht, Bool.or_true, if_true]
      refine .pure (kind.turns_done ht (hl₁.trans hs) ?_)
      rw [hz, hs, listStep, if_pos ht]
    · simp only [hkind, ht, decide_false, Bool.or_false, Bool.false_eq_true, if_false]
      rw [hs, listStep, if_neg ht] at hz
      have hsize : l₁.stream.size = l.stream.size := by rw [hl₁]
      cases items with
      | nil =>
        -- No comma before the first item: the token is looked at once more.
        refine .bind_of_ok rfl (List.forall_mem_nil _) (.refl _) ?_
        have hitem := takeItem_ends h (fun l₂ hle => hl _ l₂ (hle.trans hsize.le)) (hl₁.trans hs ▸ hz)
        exact hitem.mono (fun _ hd => hd) fun _ _ hturn => hturn.of_le hsize.le
      | cons first items =>
        have hz : z = ((Procedure.sign ",").reading l₁.stream).andThen fun _ s =>
            listEntry kind.closing kind.item kind.rest (first :: items) s := by
          rw [hz, hl₁, hs]
          by_cases hcomma : t.isPunctuation ","
          · rw [if_pos hcomma, Procedure.reading_sign hcomma]
            rfl
          · rw [if_neg hcomma, Procedure.reading, reading_takePunctuation_other hcomma]
            rfl
        refine (h (.sign ",") l₁ (hl _ l₁ hsize.le)).bind trivial hz fun _ l₂ hlt hz => ?_
        have hle : l₂.stream.size ≤ l.stream.size := hlt.le.trans hsize.le
        have hitem := takeItem_ends h (fun l₃ hle' => hl _ l₃ (hle'.trans hle)) hz
        exact hitem.mono (fun _ hd => hd) fun _ _ hturn => hturn.of_le hle

/-- A list is performed as it is read. -/
theorem performs_list {kind : Listing α} (hl : (Procedure.list kind).Fits rounds (nested + 1) l) :
    Performs ((Procedure.list kind).body rounds call) (.list kind) l := by
  refine (h (.sign kind.opening) l (hl.called le_rfl Nat.one_lt_two)).bind trivial rfl fun _ l₁ hlt hz => ?_
  have hround (items : List α) (l₂ : Lexer) (hle : l₂.stream.size ≤ l₁.stream.size)
      (hz : (Procedure.list kind).reading l.stream = kind.rest items l₂.stream) :=
    listRound_ends h (fun q l₃ hle' => hl.called_behind Nat.one_lt_two ((hle'.trans hle).trans_lt hlt) q) hz
  refine .bind (.loop hround (hlt.trans hl.rounds) hz) fun items l₂ hleads hz => ?_
  refine (h (.sign kind.closing) l₂ (hl.called (hleads.size_le.trans hlt.le) Nat.one_lt_two)).bind trivial hz
    fun _ l₃ _ hz => ?_
  exact .pure hz

end Loops

section Forms

variable {rounds nested : Nat} {call : {β : Type} → Procedure β → Pull β} {l : Lexer}
  (h : Calls rounds nested call)
include h

/-- An expression is performed as it is read. -/
theorem performs_expression (hl : Procedure.expression.Fits rounds (nested + 1) l) :
    Performs (Procedure.expression.body rounds call) .expression l := by
  refine (h .part l (hl.called le_rfl (by decide))).bind trivial (reading_parseExpr _) fun left l₁ hlt hz => ?_
  exact (h (.operations left 0) l₁ (hl.called_behind (by decide) hlt _)).last hz

/-- A block is performed as it is read. -/
theorem performs_block (hl : Procedure.block.Fits rounds (nested + 1) l) :
    Performs (Procedure.block.body rounds call) .block l := by
  refine .glance fun t l₁ hl₁ ht => ?_
  have hz : Procedure.block.reading l.stream = ((Procedure.list .entries).reading l₁.stream).andThen
      fun items s => .found (.block t.position items) s := by
    rw [hl₁, Procedure.reading_block ht]
  refine (h (.list .entries) l₁ (hl.called (hl₁ ▸ le_rfl) (by decide))).bind trivial hz
    fun items l₂ _ hz => ?_
  exact .pure hz

/-- A reserved word and two expressions behind it, as three of the forms start. -/
theorem wordAndTwo_ends {text : String} {f : Token → Expr → Expr → Pull Expr} {z : Reading Expr}
    {k : Token → Expr → Expr → Stream → Reading Expr} {Q : Expr → Lexer → Prop} {p : Procedure Expr}
    (hl : p.Fits rounds (nested + 1) l) (hp : 1 < p.rank)
    (hz : z = (takeWord text l.stream).andThen fun t s => (Procedure.expression.reading s).andThen fun a s =>
      (Procedure.expression.reading s).andThen fun b s => k t a b s)
    (hf : ∀ t a b l', l'.stream.size < l.stream.size → z = k t a b l'.stream →
      (f t a b).Ends l' (z = .refused ·) Q) :
    (call (.word text) >>= fun t => call .expression >>= fun a => call .expression >>= fun b =>
      f t a b).Ends l (z = .refused ·) Q := by
  refine (h (.word text) l (hl.called le_rfl hp)).bind trivial hz fun t l₁ hlt₁ hz => ?_
  refine (h .expression l₁ (hl.called_behind hp hlt₁ _)).bind trivial hz fun a l₂ hlt₂ hz => ?_
  have hlt₂ := hlt₂.trans hlt₁
  refine (h .expression l₂ (hl.called_behind hp hlt₂ _)).bind trivial hz fun b l₃ hlt₃ hz => ?_
  exact hf t a b l₃ (hlt₃.trans hlt₂) hz

/-- A loop is performed as it is read. -/
theorem performs_loop (hl : Procedure.loop.Fits rounds (nested + 1) l) :
    Performs (Procedure.loop.body rounds call) .loop l :=
  wordAndTwo_ends h hl (by decide) (Procedure.reading_loop _) fun _ _ _ _ _ hz => .pure hz

/-- A `stuff` is performed as it is read. -/
theorem performs_stuff (hl : Procedure.stuff.Fits rounds (nested + 1) l) :
    Performs (Procedure.stuff.body rounds call) .stuff l :=
  wordAndTwo_ends h hl (by decide) (Procedure.reading_stuff _) fun _ _ _ _ _ hz => .pure hz

/-- A conditional is performed as it is read, with or without an alternative. -/
theorem performs_conditional (hl : Procedure.conditional.Fits rounds (nested + 1) l) :
    Performs (Procedure.conditional.body rounds call) .conditional l := by
  refine wordAndTwo_ends h hl (by decide) (Procedure.reading_conditional _) fun t c e l₁ hlt hz => ?_
  generalize Procedure.conditional.reading l.stream = z at hz ⊢
  cases hs : l₁.stream with
  | broken d =>
    refine .look_broken hs ?_
    rw [hz, hs, alternativeReading]
  | finish last =>
    obtain ⟨hnext, hkind⟩ := Lexer.next_of_finish hs
    refine .look hnext fun l₂ _ hl₂ => ?_
    rw [if_neg ((Token.tests_of_endOfInput hkind).2.1 _)]
    refine .pure ?_
    rw [hz, hl₂, hs, alternativeReading]
  | token u s =>
    refine .look (Lexer.next_of_token hs).1 fun l₂ hahead hl₂ => ?_
    by_cases hu : u.isKeyword "else"
    · rw [if_pos hu]
      rw [hs, alternativeReading, if_pos hu] at hz
      refine .bind (.pass hahead (hl₂.trans hs)) fun _ l₃ _ hl₃ => ?_
      subst hl₃
      have hlt₃ := (Stream.size_lt_of_token hs).trans hlt
      refine (h .expression l₃ (hl.called_behind (by decide) hlt₃ _)).bind trivial hz fun o l₄ _ hz => ?_
      exact .pure hz
    · rw [if_neg hu]
      refine .pure ?_
      rw [hz, hl₂, hs, alternativeReading, if_neg hu]

/-- An `unstuff` is performed as it is read. -/
theorem performs_unstuff (hl : Procedure.unstuff.Fits rounds (nested + 1) l) :
    Performs (Procedure.unstuff.body rounds call) .unstuff l := by
  refine (h (.word "unstuff") l (hl.called le_rfl (by decide))).bind trivial (Procedure.reading_unstuff _)
    fun t l₁ hlt hz => ?_
  refine (h .expression l₁ (hl.called_behind (by decide) hlt _)).bind trivial hz fun b l₂ _ hz => ?_
  exact .pure hz

/-- A function is performed as it is read. -/
theorem performs_function (hl : Procedure.function.Fits rounds (nested + 1) l) :
    Performs (Procedure.function.body rounds call) .function l := by
  refine (h (.word "fun") l (hl.called le_rfl (by decide))).bind trivial (Procedure.reading_function _)
    fun t l₁ hlt₁ hz => ?_
  refine (h (.list .parameters) l₁ (hl.called_behind (by decide) hlt₁ _)).bind trivial hz
    fun names l₂ hlt₂ hz => ?_
  refine (h .expression l₂ (hl.called_behind (by decide) (hlt₂.trans hlt₁) _)).bind trivial hz
    fun e l₃ _ hz => ?_
  exact .pure hz

/-- A primary expression is performed as it is read, whichever form its first token begins. -/
theorem performs_primary (hl : Procedure.primary.Fits rounds (nested + 1) l) :
    Performs (Procedure.primary.body rounds call) .primary l := by
  unfold Performs
  simp only [Procedure.reading]
  cases hs : l.stream with
  | broken d =>
    refine .look_broken hs ?_
    rw [parsePrimary]
    rfl
  | finish last =>
    obtain ⟨hnext, hkind⟩ := Lexer.next_of_finish hs
    obtain ⟨hsigns, hwords, _⟩ := Token.tests_of_endOfInput hkind
    refine .look hnext fun l₁ hahead _ => ?_
    -- No form starts here, so the end is passed over like a literal, and found to be none.
    simp only [hsigns, hwords, Bool.or_self, Bool.false_eq_true, if_false, literal, hkind]
    refine .pass_fail hahead ?_
    rw [parsePrimary]
    rfl
  | token t s =>
    have hlt := Stream.size_lt_of_token hs
    obtain ⟨hnext, hkind, _⟩ := Lexer.next_of_token hs
    refine .look hnext fun l₁ hahead hl₁ => ?_
    rw [hs] at hl₁
    -- A form is the same primary expression, and its own procedure is of lower rank.
    have hform (q : Procedure Expr) (hq : q.rank < Procedure.primary.rank)
        (hread : q.reading (.token t s) = reading (parsePrimary (.token t s))) :
        (call q).Ends l₁ (reading (parsePrimary (.token t s)) = .refused ·) fun e l' =>
          reading (parsePrimary (.token t s)) = .found e l'.stream := by
      refine (h q l₁ (hl.called ?_ hq)).last ?_
      · rw [hl₁, hs]
      · rw [hl₁, hread]
    by_cases hparen : t.isPunctuation "("
    · rw [if_pos hparen]
      refine .bind (.pass hahead hl₁) fun _ l₂ _ hl₂ => ?_
      subst hl₂
      refine (h .expression l₂ (hl.called_behind (by decide) hlt _)).bind trivial
        (reading_parsePrimary_parens hparen) fun e l₃ hlt₃ hz => ?_
      refine (h (.sign ")") l₃ (hl.called_behind (by decide) (hlt₃.trans hlt) _)).bind trivial hz
        fun _ l₄ _ hz => ?_
      exact .pure hz
    rw [if_neg hparen]
    by_cases hbracket : t.isPunctuation "["
    · rw [if_pos hbracket]
      refine hform .block (by decide) ?_
      rw [Procedure.reading, reading_takePunctuation hbracket]
      rfl
    rw [if_neg hbracket]
    by_cases hif : t.isKeyword "if"
    · rw [if_pos hif]
      exact hform .conditional (by decide) (takeWord_andThen hif _)
    rw [if_neg hif]
    by_cases hloop : t.isKeyword "loop"
    · rw [if_pos hloop]
      exact hform .loop (by decide) (takeWord_andThen hloop _)
    rw [if_neg hloop]
    by_cases hstuff : t.isKeyword "stuff"
    · rw [if_pos hstuff]
      exact hform .stuff (by decide) (takeWord_andThen hstuff _)
    rw [if_neg hstuff]
    by_cases hunstuff : t.isKeyword "unstuff"
    · rw [if_pos hunstuff]
      exact hform .unstuff (by decide) (takeWord_andThen hunstuff _)
    rw [if_neg hunstuff]
    by_cases hbool : t.isKeyword "true" || t.isKeyword "false"
    · rw [if_pos hbool, reading_parsePrimary_bool ((Bool.or_eq_true _ _).mp hbool)]
      refine .bind (.pass hahead hl₁) fun _ l₂ _ hl₂ => ?_
      exact .pure (by rw [hl₂])
    rw [if_neg hbool]
    by_cases hfun : t.isKeyword "fun"
    · rw [if_pos hfun]
      exact hform .function (by decide) (takeWord_andThen hfun _)
    rw [if_neg hfun, reading_parsePrimary_literal]
    · refine .bind (.pass hahead hl₁) fun _ l₂ _ hl₂ => ?_
      exact hl₂ ▸ literal_ends hkind
    · rw [Bool.or_eq_true, not_or] at hbool
      simp [Token.Plain, *]

end Forms

section Programs

variable {rounds nested : Nat} {call : {β : Type} → Procedure β → Pull β} {l : Lexer}

/-- One expression of a program, unless the program ends. -/
theorem programRound_ends (h : Calls rounds nested call) {items : List Expr} {z : Except Diagnostic (List Expr)}
    (hl : ∀ l', l'.stream.size ≤ l.stream.size → Procedure.expression.Fits rounds nested l')
    (hz : z = parseProgram items l.stream) :
    (programRound call items).Ends l (z = .error ·)
      (Turn.Advances (fun items l' => z = parseProgram items l'.stream) (fun items _ => z = .ok items) l) := by
  cases hs : l.stream with
  | broken d =>
    refine .atEnd_broken hs ?_
    rw [hz, hs, parseProgram]
  | finish last =>
    obtain ⟨hnext, hkind⟩ := Lexer.next_of_finish hs
    refine .atEnd hnext fun l₁ _ => ?_
    simp only [hkind, decide_true, if_true]
    refine .pure (show z = .ok items.reverse from ?_)
    rw [hz, hs, parseProgram]
  | token t s =>
    obtain ⟨hnext, hkind, _⟩ := Lexer.next_of_token hs
    refine .atEnd hnext fun l₁ hl₁ => ?_
    simp only [hkind, decide_false, Bool.false_eq_true, if_false]
    rw [hs] at hz hl₁
    have hexpr : (call .expression).Ends l₁ (z = .error ·) fun e l' =>
        reading (parseExpr (.token t s)) = .found e l'.stream := by
      have hperforms := h .expression l₁ (hl l₁ (by rw [hl₁, hs]))
      rw [Performs, Procedure.reading, hl₁] at hperforms
      exact hperforms.mono (fun d hd => hz.trans (parseProgram_refused hd)) fun _ _ he => he
    refine .bind hexpr fun e l₂ _ he => .pure ⟨hz.trans (parseProgram_found he), ?_⟩
    rw [hs]
    exact shorter_of_reading he

end Programs

section Runs

variable {rounds nested : Nat} {l : Lexer}

/-- What every procedure does, given that those it calls do what they are to do. -/
theorem performs_body {call : {β : Type} → Procedure β → Pull β} (h : Calls rounds nested call) {α : Type}
    (p : Procedure α) (hl : p.Fits rounds (nested + 1) l) : Performs (p.body rounds call) p l := by
  cases p with
  | expression => exact performs_expression h hl
  | operations left floor => exact performs_operations h hl
  | part => exact performs_part h hl
  | primary => exact performs_primary h hl
  | block => exact performs_block h hl
  | conditional => exact performs_conditional h hl
  | loop => exact performs_loop h hl
  | stuff => exact performs_stuff h hl
  | unstuff => exact performs_unstuff h hl
  | function => exact performs_function h hl
  | list kind => exact performs_list h hl
  | item kind =>
    cases kind with
    | arguments => exact h .expression l (hl.called le_rfl (by decide))
    | entries => exact h .expression l (hl.called le_rfl (by decide))
    | parameters => exact performs_parameter l
  | sign text => exact performs_sign l text
  | word text => exact performs_word l text

/-- Procedures are performed wherever the bounds are enough for them. -/
theorem calls_perform (rounds nested : Nat) : Calls rounds nested (Procedure.perform rounds nested) := by
  intro β q l hl
  -- By induction on how deep activations may nest: what a procedure calls may nest one less deep.
  induction nested generalizing β q l with
  | zero => exact absurd (q.rank_pos.trans_le (Nat.le_add_left _ _)) (Nat.not_lt.mpr hl.nested)
  | succ nested ih => exact (performs_body (fun q l hl => ih q l hl) q hl).returning

/-- With rounds and nesting enough for the stream, pulling a program ends with what parsing the stream gives.
-/
theorem pullProgram_ends (hrounds : l.stream.size < rounds) (hnested : 6 * l.stream.size + 6 ≤ nested) :
    (pullProgram rounds (nested + 1)).Ends l (parseProgram [] l.stream = .error ·) fun e _ =>
      ∃ items, parseProgram [] l.stream = .ok items ∧ e = .block ⟨1, 1⟩ items := by
  have hl : Procedure.expression.Fits rounds nested l := ⟨hrounds, hnested⟩
  have hround (items : List Expr) (l₁ : Lexer) (hle : l₁.stream.size ≤ l.stream.size)
      (hz : parseProgram [] l.stream = parseProgram items l₁.stream) :=
    programRound_ends (calls_perform rounds nested) (fun l₂ hle' => hl.of_le (hle'.trans hle) le_rfl) hz
  exact .bind (.loop hround hrounds rfl) fun items l₁ _ hz => .pure ⟨items, hz, rfl⟩

end Runs

section Conclusions

/-- What pulling tokens comes to, as a reading of the stream that the lexer had to give. -/
def Pulled.reading {α : Type} (r : Pulled α) : Reading α :=
  match r.result with
  | .ok a => .found a r.lexer.stream
  | .error d => .refused d

/-- A computation within bounds always comes to the same, and comes to it if each loop may go more rounds than
there are tokens and six activations for each token and seven more may be nested. All that it notes shows
progress. -/
structure Pull.Concludes {α : Type} (x : (rounds nested : Nat) → Pull α) (l : Lexer) (r : Pulled α) : Prop where
  enough : ∀ rounds nested, l.stream.size < rounds → 6 * l.stream.size + 7 ≤ nested → x rounds nested l = some r
  only : ∀ rounds nested r', x rounds nested l = some r' → r' = r
  notes : ∀ note ∈ r.notes, note.Holds

/-- What larger bounds do not change is settled by the least that are enough. -/
theorem Pull.Concludes.of_extends {α : Type} {x : (rounds nested : Nat) → Pull α} {l : Lexer} {r : Pulled α}
    (hx : ∀ {rounds rounds' nested nested' : Nat}, rounds ≤ rounds' → nested ≤ nested' →
      (x rounds nested).Extends (x rounds' nested'))
    (hr : x (l.stream.size + 1) (6 * l.stream.size + 7) l = some r) (hnotes : ∀ note ∈ r.notes, note.Holds) :
    Pull.Concludes x l r := by
  refine ⟨fun rounds nested hrounds hnested => hx hrounds hnested l r hr, fun rounds nested r' hr' => ?_, hnotes⟩
  have hmore := hx (le_max_left rounds (l.stream.size + 1)) (le_max_left nested (6 * l.stream.size + 7)) l r' hr'
  rw [hx (le_max_right _ _) (le_max_right _ _) l r hr] at hmore
  exact (Option.some.inj hmore).symm

/-- The parser makes progress. From a lexer in any state every procedure comes to an end, whatever the tokens
are, within bounds that are linear in their number; it comes to what the parsing of streams comes to; and if it
returns, it has taken a token, unless it is to read operations and there are none. On the way the same holds of
all that it calls, each round of a loop that leads to another has taken a token, and no token is passed over
that is not in the slot. So it is too with the parsing of a source text as a program. -/
theorem parser_makes_progress :
    (∀ (l : Lexer) {α : Type} (p : Procedure α), ∃ r, Pull.Concludes (Procedure.perform · · p) l r ∧
      r.reading = p.reading l.stream ∧
      (p.Consuming → ∀ a, r.result = .ok a → l.stream.Consumes r.lexer.stream)) ∧
    ∀ source : String, ∃ r, Pull.Concludes pullProgram (.ofString source) r ∧ r.result = parse source := by
  constructor
  · intro l α p
    have hfits : p.Fits (l.stream.size + 1) (6 * l.stream.size + 7) l :=
      ⟨Nat.lt_succ_self _, Nat.add_le_add_left p.rank_le _⟩
    have hends := calls_perform _ _ p l hfits
    cases hends with
    | refused hx hnotes hd =>
      refine ⟨_, .of_extends (fun h h' => p.perform_extends h h') hx hnotes, hd.symm, fun _ a ha => ?_⟩
      cases ha
    | found hx hnotes hleads ha =>
      refine ⟨_, .of_extends (fun h h' => p.perform_extends h h') hx hnotes, ha.symm, fun hp a _ => ?_⟩
      exact hleads.consumes (p.reading_shorter hp ha)
  · intro source
    have hparse : parse source = (parseProgram [] (Lexer.ofString source).stream >>= fun items =>
        .ok (.block ⟨1, 1⟩ items)) := rfl
    have hends := pullProgram_ends (l := .ofString source) (Nat.lt_succ_self _) le_rfl
    cases hends with
    | refused hx hnotes hd =>
      refine ⟨_, .of_extends pullProgram_extends hx hnotes, ?_⟩
      rw [hparse, hd]
      rfl
    | found hx hnotes _ ha =>
      obtain ⟨items, hitems, rfl⟩ := ha
      refine ⟨_, .of_extends pullProgram_extends hx hnotes, ?_⟩
      rw [hparse, hitems]
      rfl

/-- A call with a comma behind its last argument, its first token in the slot already; and a program with two
open brackets, a comma and then an operator that has no power. -/
theorem parser_makes_progress_unclosed :
    (∃ r e, Procedure.expression.perform 6 37 (Lexer.ofString "f(1,)").peek.2 = some r ∧ r.result = .ok e ∧
      (Lexer.ofString "f(1,)").peek.2.stream.Consumes r.lexer.stream) ∧
    ∃ r d, pullProgram 8 49 (.ofString "[f(1, |> 2") = some r ∧ r.result = .error d ∧
      parse "[f(1, |> 2" = .error d ∧ ∀ note ∈ r.notes, note.Holds := by
  constructor
  · obtain ⟨r, hr, _, hconsumes⟩ := parser_makes_progress.1 (Lexer.ofString "f(1,)").peek.2 .expression
    have hperform := hr.enough 6 37 (by decide +kernel) (by decide +kernel)
    have hok : ((Procedure.expression.perform 6 37 (Lexer.ofString "f(1,)").peek.2).map
        (·.result.toOption.isSome)) = some true := by decide +kernel
    rw [hperform] at hok
    cases hresult : r.result with
    | error d => simp [hresult, Except.toOption] at hok
    | ok e => exact ⟨r, e, hperform, hresult, hconsumes trivial e hresult⟩
  · obtain ⟨r, hr, hparse⟩ := parser_makes_progress.2 "[f(1, |> 2"
    have hprogram := hr.enough 8 49 (by decide +kernel) (by decide +kernel)
    have herror : ((pullProgram 8 49 (.ofString "[f(1, |> 2")).map (·.result.toOption.isSome)) = some false := by
      decide +kernel
    rw [hprogram] at herror
    cases hresult : r.result with
    | error d => exact ⟨r, d, hprogram, hresult, hparse.symm.trans hresult, hr.notes⟩
    | ok e => simp [hresult, Except.toOption] at herror

end Conclusions

end StuffScript
