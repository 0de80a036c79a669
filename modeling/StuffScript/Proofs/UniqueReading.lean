import StuffScript.Proofs.Consumption
import StuffScript.Proofs.EarliestError
import StuffScript.Proofs.ParserLikeness
import StuffScript.Proofs.Quoting

/-!
# What trees are shown as

A tree is shown on one line, as the name of a form with its parts in parentheses. Texts from the source stand
in there as they are, only string literals are quoted. Nothing is lost in this but the places: the texts that
come out of a source do not hold the signs that are written behind them, and wherever the parts of a form
end, the next sign tells how it goes on.

So what a tree is shown as can be read in one way only, whatever follows it. The main statement is
`render_tells_tree`, about all trees that parsing gives.
-/

namespace StuffScript

section Legibility

/-- Parameter names are not empty, and hold neither commas nor brackets. -/
def Nameable (params : List String) : Prop :=
  ∀ name ∈ params, name.toList ≠ [] ∧ ',' ∉ name.toList ∧ ']' ∉ name.toList

/-- The texts in a node do not hold the signs that they are followed by when it is shown. -/
def Expr.Legible : Expr → Prop
  | .number _ lexeme value => ')' ∉ lexeme.toList ∧ Number.read? lexeme = some value
  | .ident _ name => ')' ∉ name.toList
  | .binary _ _ op _ => ' ' ∉ op.toList
  | .function _ params _ => Nameable params
  | _ => True

/-- Every node of a tree is legible. -/
def Expr.AllLegible (e : Expr) : Prop := ∀ x ∈ e.preorder, x.Legible

/-- What holds of all nodes of a tree holds of its root and of all nodes of the trees below it. -/
theorem Expr.forall_preorder_iff {Q : Expr → Prop} {e : Expr} :
    (∀ x ∈ e.preorder, Q x) ↔ Q e ∧ ∀ c ∈ e.children, ∀ x ∈ c.preorder, Q x := by
  simp only [preorder_eq e, List.forall_mem_cons, List.mem_flatMap]
  constructor
  · rintro ⟨hself, hparts⟩
    exact ⟨hself, fun c hc x hx => hparts x ⟨c, hc, hx⟩⟩
  · rintro ⟨hself, hparts⟩
    refine ⟨hself, ?_⟩
    rintro x ⟨c, hc, hx⟩
    exact hparts c hc x hx

/-- A tree is legible if its root is and its parts are. -/
theorem Expr.allLegible_iff {e : Expr} :
    e.AllLegible ↔ e.Legible ∧ ∀ c ∈ e.children, c.AllLegible := forall_preorder_iff

/-- The lexeme of a token that is no string literal has the shape of its class. -/
def Token.Shaped (t : Token) : Prop := t.kind ≠ .string → t.kind.Shape t.lexeme.toList

/-- A token other than a string literal has only characters of its kind. -/
theorem Token.Shaped.not_mem {t : Token} (h : t.Shaped) (hkind : t.kind ≠ .string) {c : Char}
    (hc : t.kind.holds c = false) : c ∉ t.lexeme.toList :=
  (h hkind).not_mem hc

/-- The tokens of a source are shaped as their classes say. -/
theorem words_shaped (source : String) : ∀ t ∈ (Stream.ofString source).words, t.Shaped := by
  intro t ht hkind
  obtain ⟨tokens, unread, h⟩ := exists_layout source.toList
  have hmem : t.bare ∈ tokens := by
    rw [← h.ofString.1]
    exact List.mem_map_of_mem ht
  obtain ⟨raw, rest, hspelled⟩ := h.spelled _ hmem
  change Spelled t.kind t.lexeme raw rest at hspelled
  generalize t.kind = kind at hspelled hkind
  generalize t.lexeme = lexeme at hspelled
  cases hspelled with
  | plain longest _ _ =>
    rw [String.toList_ofList]
    exact longest.1
  | closed | unclosed | unclosedEscape => exact absurd rfl hkind

/-- Each of some names is the lexeme of an identifier among some tokens. -/
def NamedIn (names : List String) (tokens : List Token) : Prop :=
  ∀ name ∈ names, ∃ t ∈ tokens, t.kind = .identifier ∧ t.lexeme = name

/-- An identifier adds its lexeme to the names. -/
theorem NamedIn.cons {names : List String} {tokens more : List Token} {t : Token} (h : NamedIn names tokens)
    (ht : t.kind = .identifier) (hmem : t ∈ more) (hsub : tokens ⊆ more) :
    NamedIn (t.lexeme :: names) more := by
  refine List.forall_mem_cons.mpr ⟨⟨t, hmem, ht, rfl⟩, fun name hname => ?_⟩
  obtain ⟨u, hu, hnamed⟩ := h name hname
  exact ⟨u, hsub hu, hnamed⟩

/-- The names behind the first parameter are the lexemes of identifiers. -/
theorem ReadsMoreNames.namedIn {names : List String} {input rest : List Token}
    (h : ReadsMoreNames names input rest) : NamedIn names input := by
  induction h with
  | none | comma => exact List.forall_mem_nil _
  | next _ hu _ ih => exact ih.cons hu (by simp) (by simp)

/-- Parameter names are the lexemes of identifiers. -/
theorem ReadsNames.namedIn {names : List String} {input rest : List Token}
    (h : ReadsNames names input rest) : NamedIn names input := by
  cases h with
  | none => exact List.forall_mem_nil _
  | first ht hmore => exact hmore.namedIn.cons ht (by simp) (by simp)

/-- A node with well-shaped tokens is legible. -/
theorem Frame.legible {e : Expr} {segs : List (List Token)} {ts : List Token} (h : Frame e segs ts)
    (hts : ∀ t ∈ ts, t.Shaped) : e.Legible := by
  cases h with
  | @number t _ _ ht hn =>
    have hshaped := hts t (by simp)
    exact ⟨hshaped.not_mem (by simp [ht]) (by rw [ht]; rfl), hn⟩
  | @ident t _ ht =>
    have hshaped := hts t (by simp)
    exact hshaped.not_mem (by simp [ht]) (by rw [ht]; rfl)
  | @binary op _ _ _ _ _ hop _ =>
    have hkind : op.kind = .operator := by
      by_contra hnot
      simp [Token.infixPower?, hnot] at hop
    have hshaped := hts op (by simp)
    exact hshaped.not_mem (by simp [hkind]) (by rw [hkind]; rfl)
  | @function t u v _ names inner _ _ _ _ hnames _ =>
    intro name hname
    obtain ⟨w, hw, hkind, rfl⟩ := hnames.namedIn name hname
    have hshaped := hts w (by simp [hw])
    refine ⟨?_, hshaped.not_mem (by simp [hkind]) (by rw [hkind]; rfl),
      hshaped.not_mem (by simp [hkind]) (by rw [hkind]; rfl)⟩
    have hshape := hshaped (by simp [hkind])
    rw [hkind] at hshape
    obtain ⟨⟨c, hc, -⟩, -⟩ := hshape
    intro hnil
    rw [hnil] at hc
    cases hc
  | _ => trivial

section Throughout

variable {Q : Expr → Prop}
  (hQ : ∀ {e : Expr} {segs : List (List Token)} {ts : List Token}, Frame e segs ts →
    (∀ t ∈ ts, t.Shaped) → Q e)

include hQ

/-- What is told of a node by its tokens is told of all nodes of a part by its tokens. -/
theorem throughout_respected :
    Respected fun p => (∀ t ∈ p.tokens, t.Shaped) → ∀ x ∈ p.expr.preorder, Q x where
  node := by
    intro e ts parts hchildren hframe _ hparts hts
    refine Expr.forall_preorder_iff.mpr ⟨hQ hframe hts, fun c hc => ?_⟩
    rw [← hchildren] at hc
    obtain ⟨p, hp, rfl⟩ := List.mem_map.mp hc
    refine hparts p hp fun t ht => hts t (hframe.sublist.subset ?_)
    exact List.mem_flatten.mpr ⟨p.tokens, List.mem_map_of_mem hp, ht⟩
  parens := by
    intro t u p _ hp _ hts
    exact hp fun w hw => hts w (by simp [hw])

/-- What is told of a node by its tokens, and holds of blocks, holds of all nodes of a tree that parsing
gives. -/
theorem throughout_of_parse (hblock : ∀ span items, Q (.block span items)) {source : String} {e : Expr}
    (h : parse source = .ok e) : ∀ x ∈ e.preorder, Q x := by
  obtain ⟨items, rfl, hparse⟩ := parse_iff.mp h
  have hreads := (parseProgram_iff.mp hparse).2
  obtain ⟨parts, rfl, hparts, hwords⟩ :=
    hreads.held (throughout_respected hQ) fun _ _ _ hgroup => hgroup.1
  refine Expr.forall_preorder_iff.mpr ⟨hblock _ _, fun c hc => ?_⟩
  obtain ⟨p, hp, rfl⟩ := List.mem_map.mp hc
  refine hparts p hp fun t ht => words_shaped source t ?_
  rw [hwords]
  exact List.mem_append_left _ (List.mem_flatMap.mpr ⟨p, hp, ht⟩)

end Throughout

/-- All nodes of a tree that parsing gives are legible. -/
theorem allLegible_of_parse {source : String} {e : Expr} (h : parse source = .ok e) : e.AllLegible :=
  throughout_of_parse Frame.legible (fun _ _ => trivial) h

end Legibility

section Texts

/-- What stands in front of the first sign of some kind is told by the whole, and so is the sign. -/
theorem append_sign_injective {α : Type} {p : α → Prop} {c c' : α} {xs xs' ys ys' : List α}
    (hxs : ∀ x ∈ xs, ¬ p x) (hxs' : ∀ x ∈ xs', ¬ p x) (hc : p c) (hc' : p c')
    (h : xs ++ c :: ys = xs' ++ c' :: ys') : xs = xs' ∧ c = c' ∧ ys = ys' := by
  induction xs generalizing xs' with
  | nil =>
    cases xs' with
    | nil => exact ⟨rfl, List.cons.inj h⟩
    | cons x' xs' =>
      obtain ⟨rfl, -⟩ := List.cons.inj h
      exact absurd hc (hxs' c List.mem_cons_self)
  | cons x xs ih =>
    cases xs' with
    | nil =>
      obtain ⟨rfl, -⟩ := List.cons.inj h
      exact absurd hc' (hxs x List.mem_cons_self)
    | cons x' xs' =>
      obtain ⟨rfl, hmore⟩ := List.cons.inj h
      obtain ⟨rfl, hrest⟩ := ih (fun y hy => hxs y (List.mem_cons_of_mem _ hy))
        (fun y hy => hxs' y (List.mem_cons_of_mem _ hy)) hmore
      exact ⟨rfl, hrest⟩

/-- What stands in front of the first occurrence of a sign is told by the whole. -/
theorem append_cons_injective {α : Type} {c : α} {xs xs' ys ys' : List α} (hxs : c ∉ xs) (hxs' : c ∉ xs')
    (h : xs ++ c :: ys = xs' ++ c :: ys') : xs = xs' ∧ ys = ys' := by
  have hnot {zs : List α} (hzs : c ∉ zs) : ∀ x ∈ zs, ¬ x = c := by
    rintro x hx rfl
    exact hzs hx
  obtain ⟨hsame, -, hrest⟩ := append_sign_injective (p := (· = c)) (hnot hxs) (hnot hxs') rfl rfl h
  exact ⟨hsame, hrest⟩

section Commas

variable {α : Type} {f : α → List Char}

/-- An item of a list is followed by the bracket, or by a comma and the other items. -/
theorem commas_cons (f : α → List Char) (x : α) (xs : List α) (rest : List Char) :
    ∃ c more, [',', ' '].intercalate ((x :: xs).map f) ++ ']' :: rest = f x ++ c :: more ∧
      (xs = [] ∧ c = ']' ∧ more = rest ∨
        xs ≠ [] ∧ c = ',' ∧ more = ' ' :: ([',', ' '].intercalate (xs.map f) ++ ']' :: rest)) := by
  cases xs with
  | nil => exact ⟨']', rest, by simp, .inl ⟨rfl, rfl, rfl⟩⟩
  | cons next xs => exact ⟨',', _, by simp, .inr ⟨by simp, rfl, rfl⟩⟩

/-- Items with commas between them, up to the bracket behind them, are told by the whole, if each of them is
told up to the sign behind it and none starts with the bracket. -/
theorem commas_injective {R : α → α → Prop} {xs xs' : List α} {rest rest' : List Char}
    (hstart : ∀ x, x ∈ xs ∨ x ∈ xs' → ∀ more more', f x ++ more ≠ ']' :: more')
    (htold : ∀ x ∈ xs, ∀ x' ∈ xs', ∀ {c c' : Char} {more more' : List Char}, (c = ',' ∨ c = ']') →
      (c' = ',' ∨ c' = ']') → f x ++ c :: more = f x' ++ c' :: more' → R x x' ∧ c = c' ∧ more = more')
    (h : [',', ' '].intercalate (xs.map f) ++ ']' :: rest =
      [',', ' '].intercalate (xs'.map f) ++ ']' :: rest') : List.Forall₂ R xs xs' ∧ rest = rest' := by
  induction xs generalizing xs' with
  | nil =>
    cases xs' with
    | nil => exact ⟨.nil, (List.cons.inj h).2⟩
    | cons x' xs' =>
      obtain ⟨c', more', hsplit', -⟩ := commas_cons f x' xs' rest'
      exact absurd (hsplit'.symm.trans h.symm) (hstart x' (by simp) _ _)
  | cons x xs ih =>
    obtain ⟨c, more, hsplit, hcase⟩ := commas_cons f x xs rest
    cases xs' with
    | nil => exact absurd (hsplit.symm.trans h) (hstart x (by simp) _ _)
    | cons x' xs' =>
      obtain ⟨c', more', hsplit', hcase'⟩ := commas_cons f x' xs' rest'
      have hc : c = ',' ∨ c = ']' := by tauto
      have hc' : c' = ',' ∨ c' = ']' := by tauto
      rw [hsplit, hsplit'] at h
      obtain ⟨hx, rfl, rfl⟩ := htold x (by simp) x' (by simp) hc hc' h
      rcases hcase with ⟨rfl, rfl, rfl⟩ | ⟨-, rfl, rfl⟩
      · rcases hcase' with ⟨rfl, -, rfl⟩ | ⟨-, hsign, -⟩
        · exact ⟨.cons hx .nil, rfl⟩
        · cases hsign
      · rcases hcase' with ⟨-, hsign, -⟩ | ⟨-, -, hmore⟩
        · cases hsign
        · obtain ⟨hxs, hrest⟩ := ih (fun y hy => hstart y (by simp; tauto))
            (fun y hy y' hy' => htold y (by simp [hy]) y' (by simp [hy'])) (List.cons.inj hmore).2
          exact ⟨.cons hx hxs, hrest⟩

/-- Parameter names are told up to the bracket behind them. -/
theorem params_injective {params params' : List String} {rest rest' : List Char}
    (hparams : Nameable params) (hparams' : Nameable params')
    (h : (", ".intercalate params).toList ++ ']' :: rest =
      (", ".intercalate params').toList ++ ']' :: rest') : params = params' ∧ rest = rest' := by
  have hsigns {name : String} (hname : ',' ∉ name.toList ∧ ']' ∉ name.toList) :
      ∀ x ∈ name.toList, ¬ (x = ',' ∨ x = ']') := by
    rintro x hx (rfl | rfl)
    · exact hname.1 hx
    · exact hname.2 hx
  simp only [String.toList_intercalate] at h
  rw [← List.forall₂_eq_eq_eq]
  refine commas_injective ?_ ?_ h
  · intro name hname more more' heq
    obtain ⟨hne, -, hbracket⟩ := hname.elim (hparams name) (hparams' name)
    obtain ⟨first, others, htext⟩ := List.exists_cons_of_ne_nil hne
    rw [htext] at heq hbracket
    exact hbracket ((List.cons.inj heq).1 ▸ List.mem_cons_self)
  · intro name hname name' hname' c c' more more' hc hc' heq
    obtain ⟨hsame, hrest⟩ :=
      append_sign_injective (hsigns (hparams name hname).2) (hsigns (hparams' name' hname').2) hc hc' heq
    exact ⟨String.toList_inj.mp hsame, hrest⟩

end Commas

end Texts

namespace Expr

section Rendering

/-- The name of an expression's form in what it is shown as. -/
def title : Expr → String
  | number .. => "Number"
  | string .. => "String"
  | bool .. => "Bool"
  | ident .. => "Ident"
  | assign .. => "Assign"
  | binary .. => "Binary"
  | call .. => "Call"
  | function .. => "Fun"
  | ifThen .. | ifElse .. => "If"
  | loop .. => "Loop"
  | stuff .. => "Stuff"
  | unstuff .. => "Unstuff"
  | block .. => "Block"

/-- What an expression is shown as. -/
def shown (e : Expr) : List Char := e.render.toList

/-- Several expressions as they are shown. -/
def shownItems (es : List Expr) : List Char := (renderItems es).toList

/-- What stands in the parentheses when an expression is shown. -/
def inside : Expr → List Char
  | number _ lexeme _ => lexeme.toList
  | string _ value => (Text.quote value).toList
  | bool _ value => if value then ['t', 'r', 'u', 'e'] else ['f', 'a', 'l', 's', 'e']
  | ident _ name => name.toList
  | assign _ target value => target.shown ++ ([' ', '=', ' '] ++ value.shown)
  | binary _ left op right => left.shown ++ ' ' :: (op.toList ++ ' ' :: right.shown)
  | call _ callee args => callee.shown ++ ([',', ' ', '['] ++ (shownItems args ++ [']']))
  | function _ params body =>
    '[' :: ((", ".intercalate params).toList ++ ']' :: ([',', ' '] ++ body.shown))
  | ifThen _ cond body => cond.shown ++ ([',', ' '] ++ body.shown)
  | ifElse _ cond body other => cond.shown ++ ([',', ' '] ++ (body.shown ++ ([',', ' '] ++ other.shown)))
  | loop _ cond body => cond.shown ++ ([',', ' '] ++ body.shown)
  | stuff _ base value => base.shown ++ ([',', ' '] ++ value.shown)
  | unstuff _ base => base.shown
  | block _ items => '[' :: (shownItems items ++ [']'])

/-- The text of a tree is the title of its root and, in parentheses, what is inside. -/
theorem shown_eq (e : Expr) : e.shown = e.title.toList ++ '(' :: (e.inside ++ [')']) := by
  cases e <;> simp [shown, shownItems, render, title, inside]
  split <;> rfl

/-- The texts of several trees are separated by commas. -/
theorem shownItems_eq (es : List Expr) : shownItems es = [',', ' '].intercalate (es.map shown) := by
  induction es with
  | nil => rfl
  | cons e es ih =>
    cases es with
    | nil => simp [shownItems, shown, renderItems]
    | cons next es =>
      rw [List.map_cons, List.map_cons, List.intercalate_cons_cons, ← List.map_cons, ← ih]
      simp [shownItems, shown, renderItems]

/-- The name of a form is a word. -/
theorem title_letters (e : Expr) : e.title.toList ≠ [] ∧ ∀ c ∈ e.title.toList, c.isAlpha = true := by
  cases e <;> simp [title]

/-- The text of a tree begins with a letter. -/
theorem shown_append_ne (e : Expr) {c : Char} (hc : c.isAlpha = false) (rest rest' : List Char) :
    e.shown ++ rest ≠ c :: rest' := by
  obtain ⟨hne, hletters⟩ := e.title_letters
  obtain ⟨first, more, htitle⟩ := List.exists_cons_of_ne_nil hne
  rw [shown_eq, htitle]
  intro h
  have hfirst := hletters first (by simp [htitle])
  rw [(List.cons.inj h).1, hc] at hfirst
  cases hfirst

end Rendering

/-- Where two expressions are shown in the same way, they have one form and the same inside it. -/
theorem shown_append_eq {e e' : Expr} {rest rest' : List Char} (h : e.shown ++ rest = e'.shown ++ rest') :
    e.title = e'.title ∧ e.inside ++ ')' :: rest = e'.inside ++ ')' :: rest' := by
  have hopen (x : Expr) : '(' ∉ x.title.toList := by
    intro hmem
    have hletter := x.title_letters.2 '(' hmem
    cases hletter
  simp only [shown_eq, List.append_assoc, List.cons_append, List.nil_append] at h
  obtain ⟨htitle, hinside⟩ := append_cons_injective (hopen e) (hopen e') h
  exact ⟨String.toList_inj.mp htitle, hinside⟩

/-- What an expression is shown as, with something behind it, tells the expression up to places, and what is
behind it. -/
def ReadsBack (e : Expr) : Prop :=
  ∀ {e' : Expr} {rest rest' : List Char}, e'.AllLegible → e.shown ++ rest = e'.shown ++ rest' →
    e.Alike Anywhere e' ∧ rest = rest'

section Parts

/-- Two parts with a text between them. -/
theorem ReadsBack.pair {a b a' b' : Expr} (hboth : a.ReadsBack ∧ b.ReadsBack)
    (hboth' : a'.AllLegible ∧ b'.AllLegible) {between rest rest' : List Char}
    (h : a.shown ++ (between ++ (b.shown ++ rest)) = a'.shown ++ (between ++ (b'.shown ++ rest'))) :
    a.Alike Anywhere a' ∧ b.Alike Anywhere b' ∧ rest = rest' := by
  obtain ⟨hleft, hmore⟩ := hboth.1 hboth'.1 h
  obtain ⟨hright, hrest⟩ := hboth.2 hboth'.2 (List.append_cancel_left hmore)
  exact ⟨hleft, hright, hrest⟩

/-- Several parts with commas between them, up to the bracket behind them. -/
theorem ReadsBack.items {es es' : List Expr} (hes : ∀ e ∈ es, e.ReadsBack)
    (hes' : ∀ e ∈ es', e.AllLegible) {rest rest' : List Char}
    (h : shownItems es ++ ']' :: rest = shownItems es' ++ ']' :: rest') :
    List.Forall₂ (Alike Anywhere) es es' ∧ rest = rest' := by
  rw [shownItems_eq, shownItems_eq] at h
  refine commas_injective (fun e _ => e.shown_append_ne (by decide)) ?_ h
  intro e he e' he' c c' more more' _ _ heq
  obtain ⟨halike, hrest⟩ := hes e he (hes' e' he') heq
  exact ⟨halike, List.cons.inj hrest⟩

end Parts

/-- What holds of all parts of a node with two holds of both. -/
theorem forall_mem_two {P : Expr → Prop} {a b : Expr} (h : ∀ c ∈ [a, b], P c) : P a ∧ P b := by
  simpa using h

/-- Every legible expression can be read back. -/
theorem readsBack {e : Expr} (h : e.AllLegible) : e.ReadsBack := by
  induction e using Expr.induction_on_children with
  | step e ih =>
    obtain ⟨hself, hchildren⟩ := allLegible_iff.mp h
    have hparts : ∀ c ∈ e.children, c.ReadsBack := fun c hc => ih c hc (hchildren c hc)
    intro e' rest rest' h' heq
    obtain ⟨hself', hparts'⟩ := allLegible_iff.mp h'
    obtain ⟨htitle, hinside⟩ := shown_append_eq heq
    -- Forms of another name are shown otherwise from the start.
    cases e with
    | number p lexeme value =>
      cases e' with
      | number p' lexeme' value' =>
        obtain ⟨hsame, hrest⟩ := append_cons_injective hself.1 hself'.1 hinside
        obtain rfl := String.toList_inj.mp hsame
        obtain rfl := Option.some.inj (hself.2.symm.trans hself'.2)
        exact ⟨.number trivial lexeme value, hrest⟩
      | _ => simp [title] at htitle
    | string p value =>
      cases e' with
      | string p' value' =>
        obtain ⟨rfl, hrest⟩ := Text.quote_append_injective hinside
        exact ⟨.string trivial value, (List.cons.inj hrest).2⟩
      | _ => simp [title] at htitle
    | bool p value =>
      cases e' with
      | bool p' value' =>
        cases value <;> cases value' <;> simp [inside] at hinside
        · exact ⟨.bool trivial false, hinside⟩
        · exact ⟨.bool trivial true, hinside⟩
      | _ => simp [title] at htitle
    | ident p name =>
      cases e' with
      | ident p' name' =>
        obtain ⟨hsame, hrest⟩ := append_cons_injective hself hself' hinside
        obtain rfl := String.toList_inj.mp hsame
        exact ⟨.ident trivial name, hrest⟩
      | _ => simp [title] at htitle
    | assign p target value =>
      cases e' with
      | assign p' target' value' =>
        simp only [inside, List.append_assoc] at hinside
        obtain ⟨htarget, hvalue, hrest⟩ :=
          ReadsBack.pair (forall_mem_two hparts) (forall_mem_two hparts') hinside
        exact ⟨.assign trivial htarget hvalue, (List.cons.inj hrest).2⟩
      | _ => simp [title] at htitle
    | binary p left op right =>
      cases e' with
      | binary p' left' op' right' =>
        simp only [inside, List.append_assoc, List.cons_append] at hinside
        obtain ⟨hleft, hright⟩ := forall_mem_two hparts
        obtain ⟨hleft', hright'⟩ := forall_mem_two hparts'
        obtain ⟨hleft, hmore⟩ := hleft hleft' hinside
        obtain ⟨hsame, hafter⟩ := append_cons_injective hself hself' (List.cons.inj hmore).2
        obtain rfl := String.toList_inj.mp hsame
        obtain ⟨hright, hrest⟩ := hright hright' hafter
        exact ⟨.binary trivial op hleft hright, (List.cons.inj hrest).2⟩
      | _ => simp [title] at htitle
    | call p callee args =>
      cases e' with
      | call p' callee' args' =>
        simp only [inside, List.append_assoc] at hinside
        obtain ⟨hcallee, hargs⟩ := List.forall_mem_cons.mp hparts
        obtain ⟨hcallee', hargs'⟩ := List.forall_mem_cons.mp hparts'
        obtain ⟨hcallee, hmore⟩ := hcallee hcallee' hinside
        obtain ⟨hargs, hrest⟩ := ReadsBack.items hargs hargs' (List.append_cancel_left hmore)
        exact ⟨.call trivial hcallee hargs, (List.cons.inj hrest).2⟩
      | _ => simp [title] at htitle
    | function p params body =>
      cases e' with
      | function p' params' body' =>
        simp only [inside, List.append_assoc, List.cons_append] at hinside
        obtain ⟨rfl, hmore⟩ := params_injective hself hself' (List.cons.inj hinside).2
        obtain ⟨hbody, hrest⟩ := hparts body List.mem_cons_self (hparts' body' List.mem_cons_self)
          (List.cons.inj (List.cons.inj hmore).2).2
        exact ⟨.function trivial params hbody, (List.cons.inj hrest).2⟩
      | _ => simp [title] at htitle
    | ifThen p cond body =>
      cases e' with
      | ifThen p' cond' body' =>
        simp only [inside, List.append_assoc] at hinside
        obtain ⟨hcond, hbody, hrest⟩ :=
          ReadsBack.pair (forall_mem_two hparts) (forall_mem_two hparts') hinside
        exact ⟨.ifThen trivial hcond hbody, (List.cons.inj hrest).2⟩
      | ifElse p' cond' body' other' =>
        -- Behind the second part one of them ends, and the other has a comma.
        simp only [inside, List.append_assoc] at hinside
        have hboth' : cond'.AllLegible ∧ body'.AllLegible :=
          forall_mem_two fun c hc => hparts' c (List.mem_append_left [other'] hc)
        obtain ⟨-, -, hrest⟩ := ReadsBack.pair (forall_mem_two hparts) hboth' hinside
        simp at hrest
      | _ => simp [title] at htitle
    | ifElse p cond body other =>
      have hboth : cond.ReadsBack ∧ body.ReadsBack :=
        forall_mem_two fun c hc => hparts c (List.mem_append_left [other] hc)
      cases e' with
      | ifThen p' cond' body' =>
        simp only [inside, List.append_assoc] at hinside
        obtain ⟨-, -, hrest⟩ := ReadsBack.pair hboth (forall_mem_two hparts') hinside
        simp at hrest
      | ifElse p' cond' body' other' =>
        simp only [inside, List.append_assoc] at hinside
        have hboth' : cond'.AllLegible ∧ body'.AllLegible :=
          forall_mem_two fun c hc => hparts' c (List.mem_append_left [other'] hc)
        obtain ⟨hcond, hbody, hmore⟩ := ReadsBack.pair hboth hboth' hinside
        obtain ⟨hother, hrest⟩ := hparts other (by simp [children]) (hparts' other' (by simp [children]))
          (List.append_cancel_left hmore)
        exact ⟨.ifElse trivial hcond hbody hother, (List.cons.inj hrest).2⟩
      | _ => simp [title] at htitle
    | loop p cond body =>
      cases e' with
      | loop p' cond' body' =>
        simp only [inside, List.append_assoc] at hinside
        obtain ⟨hcond, hbody, hrest⟩ :=
          ReadsBack.pair (forall_mem_two hparts) (forall_mem_two hparts') hinside
        exact ⟨.loop trivial hcond hbody, (List.cons.inj hrest).2⟩
      | _ => simp [title] at htitle
    | stuff p base value =>
      cases e' with
      | stuff p' base' value' =>
        simp only [inside, List.append_assoc] at hinside
        obtain ⟨hbase, hvalue, hrest⟩ :=
          ReadsBack.pair (forall_mem_two hparts) (forall_mem_two hparts') hinside
        exact ⟨.stuff trivial hbase hvalue, (List.cons.inj hrest).2⟩
      | _ => simp [title] at htitle
    | unstuff p base =>
      cases e' with
      | unstuff p' base' =>
        obtain ⟨hbase, hrest⟩ :=
          hparts base List.mem_cons_self (hparts' base' List.mem_cons_self) hinside
        exact ⟨.unstuff trivial hbase, (List.cons.inj hrest).2⟩
      | _ => simp [title] at htitle
    | block p items =>
      cases e' with
      | block p' items' =>
        simp only [inside, List.append_assoc, List.cons_append] at hinside
        obtain ⟨hitems, hrest⟩ := ReadsBack.items hparts hparts' (List.cons.inj hinside).2
        exact ⟨.block trivial hitems, (List.cons.inj hrest).2⟩
      | _ => simp [title] at htitle

end Expr

/-- **What a tree is shown as tells the tree.** Two trees that parsing gives for two sources are shown as the
same text exactly if they are alike in everything but their places: in their forms, names, operators, number
lexemes, string contents, parameter lists, and in which conditionals have an alternative. -/
theorem render_tells_tree {source source' : String} {e e' : Expr} (h : parse source = .ok e)
    (h' : parse source' = .ok e') : e.render = e'.render ↔ e.Alike Anywhere e' := by
  constructor
  · intro hrender
    have hshown : e.shown ++ [] = e'.shown ++ [] := congrArg (·.toList ++ []) hrender
    exact (Expr.readsBack (allLegible_of_parse h) (allLegible_of_parse h') hshown).1
  · exact fun halike => halike.render_eq

/-- A string literal that holds a closing parenthesis, and the same one in parentheses. -/
theorem render_tells_tree_parens :
    let tree : Expr := .block ⟨1, 1⟩ [.string ⟨1, 1⟩ "a)"]
    let tree' : Expr := .block ⟨1, 1⟩ [.string ⟨1, 2⟩ "a)"]
    parse "\"a)\"" = .ok tree ∧ parse "(\"a)\")" = .ok tree' ∧ tree.render = tree'.render ∧
      tree.Alike Anywhere tree' := by
  have hend : (Stream.ofString "\"a)\"").error? = none := by decide +kernel
  have hwords : (Stream.ofString "\"a)\"").words = [⟨.string, "a)", ⟨1, 1⟩⟩] := by decide +kernel
  have hend' : (Stream.ofString "(\"a)\")").error? = none := by decide +kernel
  have hwords' : (Stream.ofString "(\"a)\")").words =
      [⟨.punctuation, "(", ⟨1, 1⟩⟩, ⟨.string, "a)", ⟨1, 2⟩⟩, ⟨.punctuation, ")", ⟨1, 6⟩⟩] := by
    decide +kernel
  intro tree tree'
  have hsingle {e : Expr} {input rest : List Token} (he : Reads GroupsByPower (.primary e) input rest)
      (hcall : Stops (·.isPunctuation "(") rest) (hrest : Stops (·.infixPower?.isSome) rest) :
      Reads GroupsByPower (.expr e) input rest :=
    .expr (.part he (.callsEnd e hcall)) (.chainEnd rest) hrest ⟨.part e, .stop 0 e⟩
  have hparse : parse "\"a)\"" = .ok tree := by
    refine parse_iff.mpr ⟨_, rfl, parseProgram_iff.mpr ⟨hend, ?_⟩⟩
    rw [hwords]
    have hstring : Reads GroupsByPower (.primary (.string ⟨1, 1⟩ "a)")) [⟨.string, "a)", ⟨1, 1⟩⟩] [] :=
      .string (t := ⟨.string, "a)", ⟨1, 1⟩⟩) [] rfl
    exact .next (hsingle hstring (.nil _) (.nil _)) .programEnd
  have hparse' : parse "(\"a)\")" = .ok tree' := by
    refine parse_iff.mpr ⟨_, rfl, parseProgram_iff.mpr ⟨hend', ?_⟩⟩
    rw [hwords']
    have hstring := hsingle (.string (t := ⟨.string, "a)", ⟨1, 2⟩⟩) [⟨.punctuation, ")", ⟨1, 6⟩⟩] rfl)
      (.cons rfl []) (.cons rfl [])
    exact .next (hsingle (.parens rfl hstring rfl) (.nil _) (.nil _)) .programEnd
  have hrender : tree.render = tree'.render := rfl
  exact ⟨hparse, hparse', hrender, (render_tells_tree hparse hparse').mp hrender⟩

end StuffScript
