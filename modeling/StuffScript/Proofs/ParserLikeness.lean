import StuffScript.Expr.Parser
import StuffScript.Proofs.Layout
import StuffScript.Proofs.Likeness

/-!
# Parsing streams alike but for their places

Two streams are alike when they hold the same tokens, at places that are related in a given way, and both
come to their end. A parser decides by the kinds and the lexemes of tokens, and takes their places over
into the expressions that it builds and into its complaints. So from alike streams each parsing function
gives alike expressions and leaves alike streams, or has the same complaint.

The main statements are `parseProgram_alike` and, for source texts with the same tokens, `parse_alike`.
-/

namespace StuffScript

/-- Any two places are related. -/
def Anywhere (_ _ : Span) : Prop := True

/-- The same tokens to the end, at places related by `P`. -/
inductive Stream.Alike (P : Span → Span → Prop) : Stream → Stream → Prop
  | token (kind : TokenKind) (lexeme : String) {p q : Position} (h : P p q) {s s' : Stream}
    (hs : Alike P s s') : Alike P (.token ⟨kind, lexeme, p⟩ s) (.token ⟨kind, lexeme, q⟩ s')
  | finish (t u : Token) : Alike P (.finish t) (.finish u)

/-- Streams without an error that hold the same tokens are alike, wherever the tokens stand. -/
theorem Stream.alike_of_words {s s' : Stream} (hs : s.error? = none) (hs' : s'.error? = none)
    (h : s.words.map Token.bare = s'.words.map Token.bare) : s.Alike Anywhere s' := by
  induction s generalizing s' with
  | broken d => cases hs
  | finish t =>
    cases s' with
    | broken d => cases hs'
    | finish u => exact .finish t u
    | token u s' => simp [words] at h
  | token t s ih =>
    cases s' with
    | broken d => cases hs'
    | finish u => simp [words] at h
    | token u s' =>
      obtain ⟨kind, lexeme, p⟩ := t
      obtain ⟨kind', lexeme', q⟩ := u
      simp only [words, List.map_cons, List.cons.injEq, Token.bare, Prod.mk.injEq] at h
      obtain ⟨⟨rfl, rfl⟩, hrest⟩ := h
      exact .token kind lexeme trivial (ih hs hs' hrest)

/-- The same complaint, wherever it is made. -/
def Diagnostic.Alike (d d' : Diagnostic) : Prop := d.kind = d'.kind ∧ d.message = d'.message

/-- The same complaint at two places differs in the place alone. -/
theorem Complaint.located_alike (c : Complaint) (p q : Position) :
    (c.located p).Alike (c.located q) := ⟨rfl, rfl⟩

/-- Two readings with related results, or with the same complaint. -/
inductive ReadAlike {α β : Type} (R : α → β → Prop) : Except Diagnostic α → Except Diagnostic β → Prop
  | ok {a : α} {b : β} (h : R a b) : ReadAlike R (.ok a) (.ok b)
  | error {d d' : Diagnostic} (h : d.Alike d') : ReadAlike R (.error d) (.error d')

/-- One step after another reads alike, if each of them does. -/
theorem ReadAlike.bind {α β γ δ : Type} {R : α → β → Prop} {S : γ → δ → Prop}
    {x : Except Diagnostic α} {y : Except Diagnostic β} {f : α → Except Diagnostic γ}
    {g : β → Except Diagnostic δ} (h : ReadAlike R x y) (hfg : ∀ a b, R a b → ReadAlike S (f a) (g b)) :
    ReadAlike S (x >>= f) (y >>= g) := by
  cases h with
  | ok h => exact hfg _ _ h
  | error h => exact .error h

/-- The same decision on both sides. -/
theorem ReadAlike.ite {α β : Type} {R : α → β → Prop} {c : Prop} [Decidable c]
    {x x' : Except Diagnostic α} {y y' : Except Diagnostic β} (hpos : c → ReadAlike R x y)
    (hneg : ¬ c → ReadAlike R x' y') : ReadAlike R (if c then x else x') (if c then y else y') := by
  by_cases hc : c
  · rw [if_pos hc, if_pos hc]
    exact hpos hc
  · rw [if_neg hc, if_neg hc]
    exact hneg hc

/-- What was parsed is related, and the streams after it are alike. -/
structure Parsed.Alike (P : Span → Span → Prop) {α β : Type} (R : α → β → Prop) {m n : Nat}
    (p : Parsed α m) (q : Parsed β n) : Prop where
  value : R p.value q.value
  rest : p.rest.Alike P q.rest

/-- A last step that only weakens the bounds. -/
theorem ReadAlike.widen {P : Span → Span → Prop} {α β : Type} {R : α → β → Prop} {m m' n n' : Nat}
    {x : Except Diagnostic (Parsed α m)} {y : Except Diagnostic (Parsed β n)}
    {hm : ∀ _ : Parsed α m, m ≤ m'} {hn : ∀ _ : Parsed β n, n ≤ n'}
    (h : ReadAlike (Parsed.Alike P R) x y) :
    ReadAlike (Parsed.Alike P R) (x >>= fun p => pure (p.widen (hm p)))
      (y >>= fun q => pure (q.widen (hn q))) :=
  h.bind fun _ _ hpq => .ok ⟨hpq.value, hpq.rest⟩

namespace Expr.Alike

variable {P : Span → Span → Prop}

/-- Alike expressions stand at corresponding places. -/
theorem span {e e' : Expr} (h : e.Alike P e') : P e.span e'.span := by
  cases h <;> assumption

/-- Joining alike operands gives alike expressions. -/
theorem joined {left left' right right' : Expr} (hleft : left.Alike P left') (op : String)
    (hright : right.Alike P right') : (left.joined op right).Alike P (left'.joined op right') := by
  unfold Expr.joined
  split
  · exact .assign hleft.span hleft hright
  · exact .binary hleft.span op hleft hright

end Expr.Alike

section Names

variable {P : Span → Span → Prop} {s s' : Stream}

-- Whether a token is a sign or a word does not depend on its place, so tokens alike are decided on once.

/-- A sign is taken from both streams or from neither. -/
theorem takePunctuation_alike (sign : String) (hs : s.Alike P s') :
    ReadAlike (Parsed.Alike P fun _ _ => True) (takePunctuation sign s) (takePunctuation sign s') := by
  unfold takePunctuation
  cases hs with
  | finish t u => exact .error (Complaint.located_alike _ _ _)
  | token kind lexeme _ hs =>
    refine .ite (fun _ => ?_) fun _ => ?_
    · exact .ok ⟨trivial, hs⟩
    · exact .error (Complaint.located_alike _ _ _)

/-- Further parameters are read alike. -/
theorem parseMoreNames_alike (names : List String) (hs : s.Alike P s') :
    ReadAlike (Parsed.Alike P Eq) (parseMoreNames names s) (parseMoreNames names s') := by
  suffices h : ∀ n names s s', s.size = n → s.Alike P s' →
      ReadAlike (Parsed.Alike P Eq) (parseMoreNames names s) (parseMoreNames names s') from
    h _ names s s' rfl hs
  intro n
  induction n using Nat.strongRecOn with
  | ind n ih =>
    intro names s s' hsize hs
    subst hsize
    rw [parseMoreNames.eq_def, parseMoreNames.eq_def]
    cases hs with
    | finish t u => exact .error (Complaint.located_alike _ _ _)
    | token kind lexeme _ hs =>
      refine .ite (fun _ => .ok ⟨rfl, hs⟩) fun _ => .ite (fun _ => ?_) fun _ => ?_
      · cases hs with
        | finish t u => exact .error (Complaint.located_alike _ _ _)
        | @token kind lexeme _ _ _ s s' hs =>
          refine .ite (fun _ => .ok ⟨rfl, hs⟩) fun _ => .ite (fun _ => ?_) fun _ => ?_
          · refine (ih s.size ?_ (lexeme :: names) s s' rfl hs).widen
            simp only [Stream.size]
            omega
          · exact .error (Complaint.located_alike _ _ _)
      · exact .error (Complaint.located_alike _ _ _)

/-- The parameters of a function are read alike. -/
theorem parseNames_alike (hs : s.Alike P s') :
    ReadAlike (Parsed.Alike P Eq) (parseNames s) (parseNames s') := by
  unfold parseNames
  refine (takePunctuation_alike "[" hs).bind fun p q hpq => ?_
  obtain ⟨_, rest, _⟩ := p
  obtain ⟨_, rest', _⟩ := q
  obtain ⟨-, hrest⟩ := hpq
  cases hrest with
  | finish t u => exact .error (Complaint.located_alike _ _ _)
  | token kind lexeme _ hs =>
    refine .ite (fun _ => .ok ⟨rfl, hs⟩) fun _ => .ite (fun _ => ?_) fun _ => ?_
    · exact (parseMoreNames_alike [lexeme] hs).widen
    · exact .error (Complaint.located_alike _ _ _)

end Names

/-- From these streams the parsing functions give alike expressions, or have the same complaint. -/
structure ParsesAlike (P : Span → Span → Prop) (s s' : Stream) : Prop where
  calls : ∀ {f f' : Expr}, f.Alike P f' →
    ReadAlike (Parsed.Alike P (Expr.Alike P)) (parseCalls f s) (parseCalls f' s')
  part : ReadAlike (Parsed.Alike P (Expr.Alike P)) (parsePart s) (parsePart s')
  chain : ∀ (floor : Nat) {left left' : Expr}, left.Alike P left' →
    ReadAlike (Parsed.Alike P (Expr.Alike P)) (parseInfix floor left s) (parseInfix floor left' s')
  expr : ReadAlike (Parsed.Alike P (Expr.Alike P)) (parseExpr s) (parseExpr s')
  moreItems : ∀ (close : String) {items items' : List Expr}, List.Forall₂ (Expr.Alike P) items items' →
    ReadAlike (Parsed.Alike P (List.Forall₂ (Expr.Alike P))) (parseMoreItems close items s)
      (parseMoreItems close items' s')
  items : ∀ close : String, ReadAlike (Parsed.Alike P (List.Forall₂ (Expr.Alike P)))
    (parseItems close s) (parseItems close s')

section Steps

variable {P : Span → Span → Prop} {s s' : Stream}
  (ih : ∀ r r' : Stream, r.size < s.size → r.Alike P r' → ParsesAlike P r r')
  (hs : s.Alike P s')
include ih

/-- Parts are read alike, if primary expressions are. -/
theorem parsePart_alike
    (hprimary : ReadAlike (Parsed.Alike P (Expr.Alike P)) (parsePrimary s) (parsePrimary s')) :
    ReadAlike (Parsed.Alike P (Expr.Alike P)) (parsePart s) (parsePart s') := by
  rw [parsePart, parsePart]
  refine hprimary.bind fun f f' hf => ?_
  exact ((ih _ _ f.shorter hf.rest).calls hf.value).widen

/-- Expressions are read alike, if parts are. -/
theorem parseExpr_alike
    (hpart : ReadAlike (Parsed.Alike P (Expr.Alike P)) (parsePart s) (parsePart s')) :
    ReadAlike (Parsed.Alike P (Expr.Alike P)) (parseExpr s) (parseExpr s') := by
  rw [parseExpr, parseExpr]
  refine hpart.bind fun first first' hfirst => ?_
  exact ((ih _ _ first.shorter hfirst.rest).chain 0 hfirst.value).widen

include hs

/-- Calls of alike callees are read alike. -/
theorem parseCalls_alike {f f' : Expr} (hf : f.Alike P f') :
    ReadAlike (Parsed.Alike P (Expr.Alike P)) (parseCalls f s) (parseCalls f' s') := by
  cases hs with
  | finish t u =>
    rw [parseCalls, parseCalls]
    exact .ok ⟨hf, .finish t u⟩
  | @token kind lexeme _ _ hpq s s' hs =>
    rw [parseCalls, parseCalls]
    refine .ite (fun _ => ?_) fun _ => ?_
    · refine ((ih s s' (Nat.lt_succ_self _) hs).items ")").bind fun args args' hargs => ?_
      have hlt : args.rest.size < s.size + 1 := Nat.lt_succ_of_lt args.shorter
      exact ((ih _ _ hlt hargs.rest).calls (.call hf.span hf hargs.value)).widen
    · exact .ok ⟨hf, .token kind lexeme hpq hs⟩

/-- The operators behind alike operands are read alike. -/
theorem parseInfix_alike (floor : Nat) {left left' : Expr} (hleft : left.Alike P left') :
    ReadAlike (Parsed.Alike P (Expr.Alike P)) (parseInfix floor left s) (parseInfix floor left' s') := by
  cases hs with
  | finish t u =>
    rw [parseInfix, parseInfix]
    exact .ok ⟨hleft, .finish t u⟩
  | @token kind lexeme p q hpq s s' hs =>
    have hsame : (Token.mk kind lexeme q).infixPower? = (Token.mk kind lexeme p).infixPower? := rfl
    rw [parseInfix, parseInfix, hsame]
    cases (Token.mk kind lexeme p).infixPower? with
    | none => exact .ok ⟨hleft, .token kind lexeme hpq hs⟩
    | some power =>
      refine .ite (fun _ => .ok ⟨hleft, .token kind lexeme hpq hs⟩) fun _ => ?_
      refine (ih s s' (Nat.lt_succ_self _) hs).part.bind fun next next' hnext => ?_
      have hlt : next.rest.size < s.size + 1 := Nat.lt_succ_of_lt next.shorter
      refine ((ih _ _ hlt hnext.rest).chain _ hnext.value).bind fun right right' hright => ?_
      have hlt' : right.rest.size < s.size + 1 :=
        Nat.lt_of_lt_of_le right.shorter (Nat.succ_le_of_lt hlt)
      exact ((ih _ _ hlt' hright.rest).chain floor (hleft.joined lexeme hright.value)).widen

/-- The items behind alike ones are read alike. -/
theorem parseMoreItems_alike (close : String) {items items' : List Expr}
    (hitems : List.Forall₂ (Expr.Alike P) items items') :
    ReadAlike (Parsed.Alike P (List.Forall₂ (Expr.Alike P))) (parseMoreItems close items s)
      (parseMoreItems close items' s') := by
  have hdone := List.rel_reverse hitems
  rw [parseMoreItems.eq_def, parseMoreItems.eq_def]
  cases hs with
  | finish t u => exact .error (Complaint.located_alike _ _ _)
  | @token kind lexeme _ _ _ s s' hs =>
    refine .ite (fun _ => .ok ⟨hdone, hs⟩) fun _ => .ite (fun _ => ?_) fun _ => ?_
    · have hlt : s.size < s.size + 1 := Nat.lt_succ_self _
      have hnext := (ih s s' hlt hs).expr
      cases hs with
      | finish t u => exact .error (Complaint.located_alike _ _ _)
      | token kind lexeme _ hs =>
        refine .ite (fun _ => .ok ⟨hdone, hs⟩) fun _ => hnext.bind fun item item' hitem => ?_
        have hrest := ih _ _ (Nat.lt_trans item.shorter hlt) hitem.rest
        exact (hrest.moreItems close (.cons hitem.value hitems)).widen
    · exact .error (Complaint.located_alike _ _ _)

/-- Lists are read alike, if expressions are. -/
theorem parseItems_alike (close : String)
    (hexpr : ReadAlike (Parsed.Alike P (Expr.Alike P)) (parseExpr s) (parseExpr s')) :
    ReadAlike (Parsed.Alike P (List.Forall₂ (Expr.Alike P))) (parseItems close s)
      (parseItems close s') := by
  rw [parseItems.eq_def, parseItems.eq_def]
  cases hs with
  | finish t u => exact .error (Complaint.located_alike _ _ _)
  | token kind lexeme _ hs =>
    refine .ite (fun _ => .ok ⟨.nil, hs⟩) fun _ => hexpr.bind fun item item' hitem => ?_
    exact ((ih _ _ item.shorter hitem.rest).moreItems close (.cons hitem.value .nil)).widen

/-- The first token decides what is parsed, and its place is the place of the whole. -/
theorem parsePrimary_alike :
    ReadAlike (Parsed.Alike P (Expr.Alike P)) (parsePrimary s) (parsePrimary s') := by
  cases hs with
  | finish t u =>
    rw [parsePrimary, parsePrimary]
    exact .error (Complaint.located_alike _ _ _)
  | @token kind lexeme p q hpq s s' hs =>
    have ihs := ih s s' (Nat.lt_succ_self _) hs
    have ihp {α β : Type} {R : α → β → Prop} {x : Parsed α s.size} {y : Parsed β s'.size}
        (h : Parsed.Alike P R x y) : ParsesAlike P x.rest y.rest :=
      ih _ _ (Nat.lt_succ_of_lt x.shorter) h.rest
    rw [parsePrimary, parsePrimary]
    refine .ite (fun _ => ?round) fun _ => .ite (fun _ => ?square) fun _ => .ite (fun _ => ?ifs) fun _ =>
      .ite (fun _ => ?loop) fun _ => .ite (fun _ => ?stuff) fun _ => .ite (fun _ => ?unstuff) fun _ =>
      .ite (fun _ => ?yes) fun _ => .ite (fun _ => ?no) fun _ => .ite (fun _ => ?function) fun _ => ?other
    case round =>
      refine ihs.expr.bind fun x y hxy => ?_
      exact (takePunctuation_alike ")" hxy.rest).bind fun _ _ hclose => .ok ⟨hxy.value, hclose.rest⟩
    case square => exact (ihs.items "]").bind fun _ _ hxy => .ok ⟨.block hpq hxy.value, hxy.rest⟩
    case ifs =>
      refine ihs.expr.bind fun cond cond' hcond => (ihp hcond).expr.bind fun body body' hbody => ?_
      have hlt : body.rest.size < s.size + 1 :=
        Nat.lt_trans body.shorter (Nat.lt_succ_of_lt cond.shorter)
      obtain ⟨body, rest, _⟩ := body
      obtain ⟨body', rest', _⟩ := body'
      obtain ⟨hbody, hrest⟩ := hbody
      cases hrest with
      | finish t u => exact .ok ⟨.ifThen hpq hcond.value hbody, .finish t u⟩
      | @token kind lexeme _ _ hpq' after after' hafter =>
        refine .ite (fun _ => ?_) fun _ => ?_
        · refine (ih after after' (Nat.lt_trans (Nat.lt_succ_self _) hlt) hafter).expr.bind ?_
          exact fun _ _ hother => .ok ⟨.ifElse hpq hcond.value hbody hother.value, hother.rest⟩
        · exact .ok ⟨.ifThen hpq hcond.value hbody, .token kind lexeme hpq' hafter⟩
    case loop =>
      refine ihs.expr.bind fun cond cond' hcond => (ihp hcond).expr.bind fun body body' hbody => ?_
      exact .ok ⟨.loop hpq hcond.value hbody.value, hbody.rest⟩
    case stuff =>
      refine ihs.expr.bind fun base base' hbase => (ihp hbase).expr.bind fun value value' hvalue => ?_
      exact .ok ⟨.stuff hpq hbase.value hvalue.value, hvalue.rest⟩
    case unstuff => exact ihs.expr.bind fun _ _ hbase => .ok ⟨.unstuff hpq hbase.value, hbase.rest⟩
    case yes => exact .ok ⟨.bool hpq true, hs⟩
    case no => exact .ok ⟨.bool hpq false, hs⟩
    case function =>
      refine (parseNames_alike hs).bind fun params params' hparams => ?_
      refine (ihp hparams).expr.bind fun body body' hbody => .ok ⟨?_, hbody.rest⟩
      rw [hparams.value]
      exact .function hpq params'.value hbody.value
    case other =>
      cases kind with
      | number =>
        dsimp only
        cases Number.read? lexeme with
        | some value => exact .ok ⟨.number hpq lexeme value, hs⟩
        | none => exact .error (Complaint.located_alike _ _ _)
      | string => exact .ok ⟨.string hpq lexeme, hs⟩
      | identifier => exact .ok ⟨.ident hpq lexeme, hs⟩
      | _ => exact .error (Complaint.located_alike _ _ _)

end Steps

/-- From alike streams every parsing function reads alike, by induction on the length of the stream. -/
theorem parsesAlike {P : Span → Span → Prop} {s s' : Stream} (hs : s.Alike P s') :
    ParsesAlike P s s' := by
  induction hsize : s.size using Nat.strongRecOn generalizing s s' with
  | ind n ih =>
    subst hsize
    have ih (r r' : Stream) (hlt : r.size < s.size) (hr : r.Alike P r') : ParsesAlike P r r' :=
      ih _ hlt hr rfl
    have hpart := parsePart_alike ih (parsePrimary_alike ih hs)
    have hexpr := parseExpr_alike ih hpart
    exact {
      calls := parseCalls_alike ih hs
      part := hpart
      chain := parseInfix_alike ih hs
      expr := hexpr
      moreItems := parseMoreItems_alike ih hs
      items := fun close => parseItems_alike ih hs close hexpr }

/-- Parsing alike streams to their ends gives alike expressions, or the same complaint. -/
theorem parseProgram_alike {P : Span → Span → Prop} {s s' : Stream} (hs : s.Alike P s')
    {items items' : List Expr} (hitems : List.Forall₂ (Expr.Alike P) items items') :
    ReadAlike (List.Forall₂ (Expr.Alike P)) (parseProgram items s) (parseProgram items' s') := by
  induction hsize : s.size using Nat.strongRecOn generalizing s s' items items' with
  | ind n ih =>
    subst hsize
    have hexpr := (parsesAlike hs).expr
    cases hs with
    | finish t u =>
      rw [parseProgram, parseProgram]
      exact .ok (List.rel_reverse hitems)
    | token kind lexeme _ hs =>
      rw [parseProgram, parseProgram]
      refine hexpr.bind fun e e' he => ?_
      exact ih _ e.shorter he.rest (.cons he.value hitems) rfl

/-- Source texts with the same tokens give programs that differ in places only, or the same complaint. -/
theorem parse_alike {source source' : String} (h : (Stream.ofString source).error? = none)
    (h' : (Stream.ofString source').error? = none) (htokens : tokensOf source = tokensOf source') :
    ReadAlike (Expr.Alike Anywhere) (parse source) (parse source') := by
  have hstreams := Stream.alike_of_words h h' htokens
  exact (parseProgram_alike hstreams .nil).bind fun _ _ hitems => .ok (.block trivial hitems)

end StuffScript
