import StuffScript.Proofs.Acceptance

/-!
# Which tokens belong to which expression

Every node of a tree has tokens of its own and, between them, the tokens of its parts. `Frame` tells for
each form of expression how they stand, and knows nothing of the places that nodes carry. `Part.Consumed`
puts frames together: an expression with the tokens that were consumed for it, and all its parts with theirs.
Parentheses for grouping belong to the expression inside of them.

The main statement is `Reads.held`: what a derivation by the grammar reads can be divided in that way, and
whatever frames and parentheses respect then holds throughout.
-/

namespace StuffScript

/-- Stretches of tokens with commas between them, and perhaps one more comma. -/
inductive Separated : List (List Token) → List Token → Prop
  | none : Separated [] []
  | last (seg : List Token) : Separated [seg] seg
  | lastComma {t : Token} (seg : List Token) (ht : t.isPunctuation ",") : Separated [seg] (seg ++ [t])
  | cons {t : Token} {seg : List Token} {next : List Token} {segs : List (List Token)} {ts : List Token}
    (ht : t.isPunctuation ",") (hmore : Separated (next :: segs) ts) :
    Separated (seg :: next :: segs) (seg ++ t :: ts)

/-- How the tokens of an expression are made up of its own ones and the stretches for its children. -/
inductive Frame : Expr → List (List Token) → List Token → Prop
  | number {t : Token} {n : Float} (s : Span) (ht : t.kind = .number)
    (hn : Number.read? t.lexeme = some n) : Frame (.number s t.lexeme n) [] [t]
  | string {t : Token} (s : Span) (ht : t.kind = .string) : Frame (.string s t.lexeme) [] [t]
  | yes {t : Token} (s : Span) (ht : t.isKeyword "true") : Frame (.bool s true) [] [t]
  | no {t : Token} (s : Span) (ht : t.isKeyword "false") : Frame (.bool s false) [] [t]
  | ident {t : Token} (s : Span) (ht : t.kind = .identifier) : Frame (.ident s t.lexeme) [] [t]
  | assign {op : Token} (s : Span) (target value : Expr) (a b : List Token) (hop : op.infixPower?.isSome)
    (heq : op.lexeme = "=") : Frame (.assign s target value) [a, b] (a ++ op :: b)
  | binary {op : Token} (s : Span) (left right : Expr) (a b : List Token) (hop : op.infixPower?.isSome)
    (hne : op.lexeme ≠ "=") : Frame (.binary s left op.lexeme right) [a, b] (a ++ op :: b)
  | call {t u : Token} (s : Span) (callee : Expr) (args : List Expr) (a : List Token)
    {segs : List (List Token)} {inner : List Token} (ht : t.isPunctuation "(")
    (hargs : Separated segs inner) (hu : u.isPunctuation ")") :
    Frame (.call s callee args) (a :: segs) (a ++ t :: (inner ++ [u]))
  | function {t u v : Token} (s : Span) {names : List String} {inner : List Token} (body : Expr)
    (a : List Token) (ht : t.isKeyword "fun") (hu : u.isPunctuation "[")
    (hnames : ReadsNames names inner []) (hv : v.isPunctuation "]") :
    Frame (.function s names body) [a] (t :: u :: (inner ++ v :: a))
  | ifThen {t : Token} (s : Span) (cond body : Expr) (a b : List Token) (ht : t.isKeyword "if") :
    Frame (.ifThen s cond body) [a, b] (t :: (a ++ b))
  | ifElse {t u : Token} (s : Span) (cond body other : Expr) (a b c : List Token) (ht : t.isKeyword "if")
    (hu : u.isKeyword "else") : Frame (.ifElse s cond body other) [a, b, c] (t :: (a ++ (b ++ u :: c)))
  | loop {t : Token} (s : Span) (cond body : Expr) (a b : List Token) (ht : t.isKeyword "loop") :
    Frame (.loop s cond body) [a, b] (t :: (a ++ b))
  | stuff {t : Token} (s : Span) (base value : Expr) (a b : List Token) (ht : t.isKeyword "stuff") :
    Frame (.stuff s base value) [a, b] (t :: (a ++ b))
  | unstuff {t : Token} (s : Span) (base : Expr) (a : List Token) (ht : t.isKeyword "unstuff") :
    Frame (.unstuff s base) [a] (t :: a)
  | block {t u : Token} (s : Span) (items : List Expr) {segs : List (List Token)} {inner : List Token}
    (ht : t.isPunctuation "[") (hitems : Separated segs inner) (hu : u.isPunctuation "]") :
    Frame (.block s items) segs (t :: (inner ++ [u]))

/-- An expression with the tokens consumed for it, and the parts below it with theirs, each before its own
parts. -/
structure Part where
  expr : Expr
  tokens : List Token
  below : List (Expr × List Token)

/-- A part and those below it. -/
def Part.listing (p : Part) : List (Expr × List Token) := (p.expr, p.tokens) :: p.below

/-- The tokens of a part are its own and those of its children, perhaps with parentheses around them. -/
inductive Part.Consumed : Part → Prop
  | node {e : Expr} {ts : List Token} {parts : List Part} (hchildren : parts.map Part.expr = e.children)
    (hframe : Frame e (parts.map Part.tokens) ts) (hparts : ∀ p ∈ parts, Consumed p) :
    Consumed ⟨e, ts, parts.flatMap Part.listing⟩
  | parens {t u : Token} {p : Part} (ht : t.isPunctuation "(") (hp : Consumed p)
    (hu : u.isPunctuation ")") : Consumed ⟨p.expr, t :: (p.tokens ++ [u]), p.below⟩

section Frames

/-- The tokens of the parts are among those of the node, in the same order. -/
theorem Separated.sublist {segs : List (List Token)} {ts : List Token} (h : Separated segs ts) :
    segs.flatten.Sublist ts := by
  induction h with
  | none => exact .refl []
  | last seg => simp
  | lastComma seg _ => simp
  | cons _ _ ih => simpa using ih.cons _

/-- The stretches for the children lie one behind the other in a frame. -/
theorem Frame.sublist {e : Expr} {segs : List (List Token)} {ts : List Token} (h : Frame e segs ts) :
    segs.flatten.Sublist ts := by
  cases h with
  | number | string | yes | no | ident => exact List.nil_sublist _
  | assign | binary => simp
  | call _ _ _ a _ hargs _ =>
    apply (List.Sublist.refl a).append
    exact (hargs.sublist.trans (List.sublist_append_left _ _)).cons _
  | function _ _ a =>
    have hbody : [a].flatten.Sublist a := by simp
    exact ((hbody.cons _).trans (List.sublist_append_right _ _)).cons _ |>.cons _
  | ifThen | loop | stuff | unstuff | ifElse => simp
  | block _ _ _ hitems _ => exact (hitems.sublist.trans (List.sublist_append_left _ [_])).cons _

end Frames

/-- The place that a node is given: that of its left side, or that of its first token. -/
def Expr.SpanRule (ts : List Token) : Expr → Prop
  | .assign s target _ => s = target.span
  | .binary s left _ _ => s = left.span
  | .call s callee _ => s = callee.span
  | e => ∃ t, ts.head? = some t ∧ e.span = t.position

/-- What holds of a node with the tokens and the place that parsing gives it, if it holds of its children, and
still holds with parentheses around it. -/
structure Respected (H : Part → Prop) : Prop where
  node : ∀ {e : Expr} {ts : List Token} {parts : List Part}, parts.map Part.expr = e.children →
    Frame e (parts.map Part.tokens) ts → e.SpanRule ts → (∀ p ∈ parts, H p) →
    H ⟨e, ts, parts.flatMap Part.listing⟩
  parens : ∀ {t u : Token} {p : Part}, t.isPunctuation "(" → H p → u.isPunctuation ")" →
    H ⟨p.expr, t :: (p.tokens ++ [u]), p.below⟩

/-- The tokens of the first list up to the second are divided among the expressions of a phrase. -/
def Phrase.Held (H : Part → Prop) (input rest : List Token) : Phrase → Prop
  | .expr e => ∃ p, H p ∧ p.expr = e ∧ input = p.tokens ++ rest
  | .part e => ∃ p, H p ∧ p.expr = e ∧ input = p.tokens ++ rest
  | .primary e => ∃ p, H p ∧ p.expr = e ∧ input = p.tokens ++ rest
  | .chain ops => ∃ qs : List (Token × Part), qs.map (fun q => (q.1, q.2.expr)) = ops ∧
    (∀ q ∈ qs, q.1.infixPower?.isSome ∧ H q.2) ∧ input = qs.flatMap (fun q => q.1 :: q.2.tokens) ++ rest
  | .calls f e => ∀ p, H p → p.expr = f →
    ∃ q ts, H q ∧ q.expr = e ∧ q.tokens = p.tokens ++ ts ∧ input = ts ++ rest
  | .list es => ∃ (parts : List Part) (ts : List Token), parts.map Part.expr = es ∧ (∀ p ∈ parts, H p) ∧
    Separated (parts.map Part.tokens) ts ∧ input = ts ++ rest
  | .tail es => ∃ (parts : List Part) (ts : List Token), parts.map Part.expr = es ∧ (∀ p ∈ parts, H p) ∧
    (∀ seg, Separated (seg :: parts.map Part.tokens) (seg ++ ts)) ∧ input = ts ++ rest
  | .program es => ∃ parts : List Part, parts.map Part.expr = es ∧ (∀ p ∈ parts, H p) ∧
    input = parts.flatMap Part.tokens ++ rest

section Names

/-- Parameters are read alike with nothing behind them. -/
theorem ReadsMoreNames.inner {names : List String} {input rest : List Token}
    (h : ReadsMoreNames names input rest) : ∃ ts, input = ts ++ rest ∧ ReadsMoreNames names ts [] := by
  induction h with
  | none rest => exact ⟨[], rfl, .none []⟩
  | @comma t rest ht => exact ⟨[t], rfl, .comma [] ht⟩
  | @next t u names input rest ht hu _ ih =>
    obtain ⟨ts, rfl, hts⟩ := ih
    exact ⟨t :: u :: ts, rfl, .next ht hu hts⟩

/-- Which tokens form parameter names does not depend on what follows them. -/
theorem ReadsNames.inner {names : List String} {input rest : List Token}
    (h : ReadsNames names input rest) : ∃ ts, input = ts ++ rest ∧ ReadsNames names ts [] := by
  cases h with
  | none => exact ⟨[], rfl, .none []⟩
  | @first t _ _ _ ht hmore =>
    obtain ⟨ts, rfl, hts⟩ := hmore.inner
    exact ⟨t :: ts, rfl, .first ht hts⟩

end Names

section Held

variable {H : Part → Prop} (hH : Respected H)
include hH

/-- Two operands and the operator between them. -/
theorem Respected.joined {p q : Part} (hp : H p) (hq : H q) {op : Token} (hop : op.infixPower?.isSome) :
    H ⟨p.expr.joined op.lexeme q.expr, p.tokens ++ op :: q.tokens, p.listing ++ q.listing⟩ := by
  have hboth : ∀ r ∈ [p, q], H r := by simpa using ⟨hp, hq⟩
  have hlisting : [p, q].flatMap Part.listing = p.listing ++ q.listing := by simp
  unfold Expr.joined
  split
  · next heq =>
    rw [← hlisting]
    exact hH.node rfl (.assign _ _ _ _ _ hop heq) rfl hboth
  · next hne =>
    rw [← hlisting]
    exact hH.node rfl (.binary _ _ _ _ _ hop hne) rfl hboth

/-- A chain of parts is one expression, however it is grouped. -/
theorem Groups.held {first e : Expr} {ops : List (Token × Expr)} (h : Groups first ops e) {p : Part}
    (hp : H p) (hfirst : p.expr = first) {qs : List (Token × Part)}
    (hops : qs.map (fun q => (q.1, q.2.expr)) = ops)
    (hqs : ∀ q ∈ qs, q.1.infixPower?.isSome ∧ H q.2) :
    ∃ r, H r ∧ r.expr = e ∧ r.tokens = p.tokens ++ qs.flatMap (fun q => q.1 :: q.2.tokens) := by
  induction h generalizing p qs with
  | part e =>
    obtain rfl := List.map_eq_nil_iff.mp hops
    exact ⟨p, hp, hfirst, by simp⟩
  | @join first next left right before after op _ _ ihleft ihright =>
    obtain ⟨qbefore, qrest, rfl, hbefore, hrest⟩ := List.map_eq_append_iff.mp hops
    obtain ⟨q, qafter, rfl, hq, hafter⟩ := List.map_eq_cons_iff.mp hrest
    obtain ⟨rfl, hnext⟩ := Prod.mk.inj hq
    obtain ⟨l, hl, rfl, hltokens⟩ := ihleft hp hfirst hbefore fun x hx => hqs x (by simp [hx])
    obtain ⟨r, hr, rfl, hrtokens⟩ :=
      ihright (hqs q (by simp)).2 hnext hafter fun x hx => hqs x (by simp [hx])
    refine ⟨_, hH.joined hl hr (hqs q (by simp)).1, rfl, ?_⟩
    simp [hltokens, hrtokens]

/-- A token that is an expression by itself. -/
theorem Respected.atom {e : Expr} {t : Token} (rest : List Token) (hchildren : e.children = [])
    (hframe : Frame e [] [t]) (hspan : e.SpanRule [t]) : (Phrase.primary e).Held H (t :: rest) rest := by
  have hnone : ∀ p ∈ ([] : List Part), H p := List.forall_mem_nil _
  exact ⟨⟨e, [t], [].flatMap Part.listing⟩, hH.node hchildren.symm hframe hspan hnone, rfl, rfl⟩

/-- The expressions with two parts behind a keyword. -/
theorem Respected.pair {e c b : Expr} {t : Token} {input s rest : List Token} (hchildren : [c, b] = e.children)
    (hframe : ∀ a b, Frame e [a, b] (t :: (a ++ b))) (hspan : ∀ ts, e.SpanRule (t :: ts))
    (hc : (Phrase.expr c).Held H input s) (hb : (Phrase.expr b).Held H s rest) :
    (Phrase.primary e).Held H (t :: input) rest := by
  obtain ⟨p, hp, rfl, rfl⟩ := hc
  obtain ⟨q, hq, rfl, rfl⟩ := hb
  have hboth : ∀ r ∈ [p, q], H r := by simpa using ⟨hp, hq⟩
  have hnode : H ⟨e, t :: (p.tokens ++ q.tokens), [p, q].flatMap Part.listing⟩ :=
    hH.node hchildren (hframe p.tokens q.tokens) (hspan _) hboth
  exact ⟨_, hnode, rfl, by simp⟩

/-- What a derivation reads is divided among the expressions that it makes. -/
theorem Reads.held {G : Grouping} (hG : ∀ first ops e, G first ops e → Groups first ops e) {φ : Phrase}
    {input rest : List Token} (h : Reads G φ input rest) : φ.Held H input rest := by
  induction h with
  | expr _ _ _ hgroup ihfirst ihops =>
    obtain ⟨p, hp, hfirst, rfl⟩ := ihfirst
    obtain ⟨qs, hops, hqs, rfl⟩ := ihops
    obtain ⟨r, hr, hre, htokens⟩ := (hG _ _ _ hgroup).held hH hp hfirst hops hqs
    exact ⟨r, hr, hre, by simp [htokens]⟩
  | chainEnd rest => exact ⟨[], rfl, List.forall_mem_nil _, rfl⟩
  | operator hop _ _ ihpart ihops =>
    obtain ⟨p, hp, rfl, rfl⟩ := ihpart
    obtain ⟨qs, rfl, hqs, rfl⟩ := ihops
    exact ⟨(_, p) :: qs, rfl, List.forall_mem_cons.mpr ⟨⟨hop, hp⟩, hqs⟩, by simp⟩
  | part _ _ ihprimary ihcalls =>
    obtain ⟨p, hp, hf, rfl⟩ := ihprimary
    obtain ⟨q, ts, hq, hqe, htokens, rfl⟩ := ihcalls p hp hf
    exact ⟨q, hq, hqe, by simp [htokens]⟩
  | callsEnd e _ => exact fun p hp hpe => ⟨p, [], hp, hpe, by simp, rfl⟩
  | @call t u _ _ _ _ _ _ ht _ hu _ ihargs ihcalls =>
    intro p hp hf
    subst hf
    obtain ⟨args, ts, rfl, hargs, hsep, rfl⟩ := ihargs
    have hcall := hH.node (e := .call p.expr.span p.expr (args.map Part.expr)) rfl
      (.call _ _ _ p.tokens ht hsep hu) rfl (List.forall_mem_cons.mpr ⟨hp, hargs⟩)
    obtain ⟨q, us, hq, hqe, htokens, rfl⟩ := ihcalls _ hcall rfl
    exact ⟨q, t :: (ts ++ u :: us), hq, hqe, by simp [htokens], by simp⟩
  | parens ht _ hu ihe =>
    obtain ⟨p, hp, rfl, rfl⟩ := ihe
    exact ⟨_, hH.parens ht hp hu, rfl, by simp⟩
  | @block t u _ _ _ ht _ hu ihes =>
    obtain ⟨parts, ts, rfl, hparts, hsep, rfl⟩ := ihes
    have hblock := hH.node (e := .block t.position (parts.map Part.expr)) rfl (.block _ _ ht hsep hu)
      ⟨t, rfl, rfl⟩ hparts
    exact ⟨_, hblock, rfl, by simp⟩
  | ifThen ht _ _ _ ihc ihe =>
    exact hH.pair rfl (fun a b => .ifThen _ _ _ a b ht) (fun _ => ⟨_, rfl, rfl⟩) ihc ihe
  | @ifElse t u _ _ _ _ _ _ _ ht _ _ hu _ ihc ihe iho =>
    obtain ⟨c, hc, rfl, rfl⟩ := ihc
    obtain ⟨b, hb, rfl, hbody⟩ := ihe
    obtain ⟨o, ho, rfl, rfl⟩ := iho
    subst hbody
    have hall : ∀ p ∈ [c, b, o], H p := by simpa using ⟨hc, hb, ho⟩
    have hnode := hH.node (e := .ifElse t.position c.expr b.expr o.expr) rfl
      (.ifElse _ _ _ _ c.tokens b.tokens o.tokens ht hu) ⟨t, rfl, rfl⟩ hall
    exact ⟨_, hnode, rfl, by simp⟩
  | loop ht _ _ ihc ihe =>
    exact hH.pair rfl (fun a b => .loop _ _ _ a b ht) (fun _ => ⟨_, rfl, rfl⟩) ihc ihe
  | stuff ht _ _ ihb ihv =>
    exact hH.pair rfl (fun a b => .stuff _ _ _ a b ht) (fun _ => ⟨_, rfl, rfl⟩) ihb ihv
  | @unstuff t _ _ _ ht _ ihb =>
    obtain ⟨p, hp, rfl, rfl⟩ := ihb
    have hone : ∀ q ∈ [p], H q := by simpa using hp
    have hnode := hH.node (e := .unstuff t.position p.expr) rfl (.unstuff _ _ p.tokens ht) ⟨t, rfl, rfl⟩ hone
    exact ⟨_, hnode, rfl, rfl⟩
  | yes rest ht => exact hH.atom rest rfl (.yes _ ht) ⟨_, rfl, rfl⟩
  | no rest ht => exact hH.atom rest rfl (.no _ ht) ⟨_, rfl, rfl⟩
  | @function t u v names _ _ _ _ ht hu hnames hv _ ihe =>
    obtain ⟨p, hp, rfl, rfl⟩ := ihe
    obtain ⟨inner, rfl, hinner⟩ := hnames.inner
    have hone : ∀ q ∈ [p], H q := by simpa using hp
    have hnode := hH.node (e := .function t.position names p.expr) rfl
      (.function _ _ p.tokens ht hu hinner hv) ⟨t, rfl, rfl⟩ hone
    exact ⟨_, hnode, rfl, by simp⟩
  | number rest ht hn => exact hH.atom rest rfl (.number _ ht hn) ⟨_, rfl, rfl⟩
  | string rest ht => exact hH.atom rest rfl (.string _ ht) ⟨_, rfl, rfl⟩
  | ident rest ht => exact hH.atom rest rfl (.ident _ ht) ⟨_, rfl, rfl⟩
  | noItems rest => exact ⟨[], [], rfl, List.forall_mem_nil _, .none, rfl⟩
  | items _ _ ihe ihes =>
    obtain ⟨p, hp, rfl, rfl⟩ := ihe
    obtain ⟨parts, ts, rfl, hparts, hsep, rfl⟩ := ihes
    exact ⟨p :: parts, p.tokens ++ ts, rfl, List.forall_mem_cons.mpr ⟨hp, hparts⟩, hsep p.tokens, by simp⟩
  | tailEnd rest =>
    exact ⟨[], [], rfl, List.forall_mem_nil _, fun seg => by simpa using Separated.last seg, rfl⟩
  | @lastComma t rest ht => exact ⟨[], [t], rfl, List.forall_mem_nil _, fun seg => .lastComma seg ht, rfl⟩
  | @comma t _ _ _ _ _ ht _ _ ihe ihes =>
    obtain ⟨p, hp, rfl, rfl⟩ := ihe
    obtain ⟨parts, ts, rfl, hparts, hsep, rfl⟩ := ihes
    exact ⟨p :: parts, t :: (p.tokens ++ ts), rfl, List.forall_mem_cons.mpr ⟨hp, hparts⟩,
      fun seg => .cons ht (hsep p.tokens), by simp⟩
  | programEnd => exact ⟨[], rfl, List.forall_mem_nil _, rfl⟩
  | next _ _ ihe ihes =>
    obtain ⟨p, hp, rfl, rfl⟩ := ihe
    obtain ⟨parts, rfl, hparts, rfl⟩ := ihes
    exact ⟨p :: parts, rfl, List.forall_mem_cons.mpr ⟨hp, hparts⟩, by simp⟩

end Held

end StuffScript
