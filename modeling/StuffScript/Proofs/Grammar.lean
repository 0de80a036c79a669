import StuffScript.Expr.Parser

/-!
# The grammar of programs

The grammar as a relation: `Reads G φ input rest` says that the tokens of `input` up to `rest` form the
phrase `φ`. Each token that a rule names is taken from the front, once, so that what is read is exactly
what lies between the two. Wherever an expression could go on it does: a part does not end before an
opening parenthesis, an expression does not end before an infix operator, and a conditional without
alternative does not end before `else`.

The grammar leaves open how a chain of parts with operators between them is grouped into a tree. It takes
a grouping as a parameter. `Groups` allows every grouping that keeps the parts and the operators in
order, and `Climbs` is the one that goes by how tightly the operators bind.

The main statement here is `Reads.regroup`: which tokens form a program does not depend on the grouping.
-/

namespace StuffScript

/-- Which trees may stand for a chain: the first part, and each operator with the part after it. -/
abbrev Grouping := Expr → List (Token × Expr) → Expr → Prop

/-- Any grouping that keeps the parts and the operators in order. -/
inductive Groups : Expr → List (Token × Expr) → Expr → Prop
  | part (e : Expr) : Groups e [] e
  | join {first next left right : Expr} {before after : List (Token × Expr)} (op : Token)
    (hleft : Groups first before left) (hright : Groups next after right) :
    Groups first (before ++ (op, next) :: after) (left.joined op.lexeme right)

/-- What the tokens start with, if anything, is not of a kind. -/
def Stops (p : Token → Bool) (rest : List Token) : Prop := ∀ t ∈ rest.head?, p t = false

/-- Where nothing is left there is nothing of a kind. -/
theorem Stops.nil (p : Token → Bool) : Stops p [] := by
  intro t ht
  cases ht

/-- A token that is not of a kind stands first. -/
theorem Stops.cons {p : Token → Bool} {t : Token} (h : p t = false) (rest : List Token) :
    Stops p (t :: rest) := by
  intro u hu
  cases hu
  exact h

/-- Only the first token matters. -/
theorem Stops.of_append {p : Token → Bool} {a b : List Token} (h : Stops p (a ++ b)) : Stops p a := by
  cases a with
  | nil => exact .nil p
  | cons t a => exact h

/-- Whether a token is an infix operator that binds more tightly than a floor. -/
def Token.bindsAbove (floor : Nat) (t : Token) : Bool := t.infixPower?.any (floor < ·)

/-- To bind above a floor is to have a power above it. -/
theorem Token.bindsAbove_iff {floor : Nat} {t : Token} :
    t.bindsAbove floor ↔ ∃ power, t.infixPower? = some power ∧ floor < power := by
  unfold Token.bindsAbove
  cases t.infixPower? <;> simp

/-- The floor for the right side of an operator. An assignment takes further assignments into it. -/
def Token.rightFloor (op : Token) (power : Nat) : Nat := if op.lexeme = "=" then power - 1 else power

/-- The grouping by how tightly operators bind: the right side of an operator extends over the longest
run of operators above its floor, and the whole is the left side of the next operator. -/
inductive Climbs : Nat → Expr → List (Token × Expr) → Expr → Prop
  | stop (floor : Nat) (left : Expr) : Climbs floor left [] left
  | step {floor power : Nat} {left next right e : Expr} {op : Token}
    {inner outer : List (Token × Expr)} (hpower : op.infixPower? = some power) (hfloor : floor < power)
    (hinner : Climbs (op.rightFloor power) next inner right)
    (hend : Stops (Token.bindsAbove (op.rightFloor power)) (outer.map (·.1)))
    (houter : Climbs floor (left.joined op.lexeme right) outer e) :
    Climbs floor left ((op, next) :: (inner ++ outer)) e

/-- Grouping in order, by how tightly operators bind. -/
def GroupsByPower (first : Expr) (ops : List (Token × Expr)) (e : Expr) : Prop :=
  Groups first ops e ∧ Climbs 0 first ops e

/-- What follows a parameter name: commas with names after them, and perhaps one more comma. -/
inductive ReadsMoreNames : List String → List Token → List Token → Prop
  | none (rest : List Token) : ReadsMoreNames [] rest rest
  | comma {t : Token} (rest : List Token) (ht : t.isPunctuation ",") :
    ReadsMoreNames [] (t :: rest) rest
  | next {t u : Token} {names : List String} {input rest : List Token} (ht : t.isPunctuation ",")
    (hu : u.kind = .identifier) (hmore : ReadsMoreNames names input rest) :
    ReadsMoreNames (u.lexeme :: names) (t :: u :: input) rest

/-- Parameter names: none, or a first one and what follows it. -/
inductive ReadsNames : List String → List Token → List Token → Prop
  | none (rest : List Token) : ReadsNames [] rest rest
  | first {t : Token} {names : List String} {input rest : List Token} (ht : t.kind = .identifier)
    (hmore : ReadsMoreNames names input rest) : ReadsNames (t.lexeme :: names) (t :: input) rest

/-- What tokens can form. `chain` is a sequence of operators, each with the part after it; `calls` is
argument lists, with the expression that they are applied to and the calls that result; `tail` is what
follows the first item of a list. -/
inductive Phrase where
  | expr (e : Expr)
  | chain (ops : List (Token × Expr))
  | part (e : Expr)
  | calls (callee e : Expr)
  | primary (e : Expr)
  | list (es : List Expr)
  | tail (es : List Expr)
  | program (es : List Expr)

/-- The tokens of the first list up to the second form a phrase. -/
inductive Reads (G : Grouping) : Phrase → List Token → List Token → Prop
  | expr {first e : Expr} {ops : List (Token × Expr)} {input s rest : List Token}
    (hfirst : Reads G (.part first) input s) (hops : Reads G (.chain ops) s rest)
    (hend : Stops (·.infixPower?.isSome) rest) (hgroup : G first ops e) :
    Reads G (.expr e) input rest
  | chainEnd (rest : List Token) : Reads G (.chain []) rest rest
  | operator {op : Token} {e : Expr} {ops : List (Token × Expr)} {input s rest : List Token}
    (hop : op.infixPower?.isSome) (hpart : Reads G (.part e) input s)
    (hops : Reads G (.chain ops) s rest) : Reads G (.chain ((op, e) :: ops)) (op :: input) rest
  | part {f e : Expr} {input s rest : List Token} (hprimary : Reads G (.primary f) input s)
    (hcalls : Reads G (.calls f e) s rest) : Reads G (.part e) input rest
  | callsEnd (e : Expr) {rest : List Token} (hend : Stops (·.isPunctuation "(") rest) :
    Reads G (.calls e e) rest rest
  | call {t u : Token} {f e : Expr} {args : List Expr} {input s rest : List Token}
    (ht : t.isPunctuation "(") (hargs : Reads G (.list args) input (u :: s))
    (hu : u.isPunctuation ")") (hcalls : Reads G (.calls (.call f.span f args) e) s rest) :
    Reads G (.calls f e) (t :: input) rest
  | parens {t u : Token} {e : Expr} {input rest : List Token} (ht : t.isPunctuation "(")
    (he : Reads G (.expr e) input (u :: rest)) (hu : u.isPunctuation ")") :
    Reads G (.primary e) (t :: input) rest
  | block {t u : Token} {es : List Expr} {input rest : List Token} (ht : t.isPunctuation "[")
    (hes : Reads G (.list es) input (u :: rest)) (hu : u.isPunctuation "]") :
    Reads G (.primary (.block t.position es)) (t :: input) rest
  | ifThen {t : Token} {c e : Expr} {input s rest : List Token} (ht : t.isKeyword "if")
    (hc : Reads G (.expr c) input s) (he : Reads G (.expr e) s rest)
    (hend : Stops (·.isKeyword "else") rest) :
    Reads G (.primary (.ifThen t.position c e)) (t :: input) rest
  | ifElse {t u : Token} {c e o : Expr} {input s s' rest : List Token} (ht : t.isKeyword "if")
    (hc : Reads G (.expr c) input s) (he : Reads G (.expr e) s (u :: s')) (hu : u.isKeyword "else")
    (ho : Reads G (.expr o) s' rest) :
    Reads G (.primary (.ifElse t.position c e o)) (t :: input) rest
  | loop {t : Token} {c e : Expr} {input s rest : List Token} (ht : t.isKeyword "loop")
    (hc : Reads G (.expr c) input s) (he : Reads G (.expr e) s rest) :
    Reads G (.primary (.loop t.position c e)) (t :: input) rest
  | stuff {t : Token} {b v : Expr} {input s rest : List Token} (ht : t.isKeyword "stuff")
    (hb : Reads G (.expr b) input s) (hv : Reads G (.expr v) s rest) :
    Reads G (.primary (.stuff t.position b v)) (t :: input) rest
  | unstuff {t : Token} {b : Expr} {input rest : List Token} (ht : t.isKeyword "unstuff")
    (hb : Reads G (.expr b) input rest) : Reads G (.primary (.unstuff t.position b)) (t :: input) rest
  | yes {t : Token} (rest : List Token) (ht : t.isKeyword "true") :
    Reads G (.primary (.bool t.position true)) (t :: rest) rest
  | no {t : Token} (rest : List Token) (ht : t.isKeyword "false") :
    Reads G (.primary (.bool t.position false)) (t :: rest) rest
  | function {t u v : Token} {names : List String} {e : Expr} {input s rest : List Token}
    (ht : t.isKeyword "fun") (hu : u.isPunctuation "[") (hnames : ReadsNames names input (v :: s))
    (hv : v.isPunctuation "]") (he : Reads G (.expr e) s rest) :
    Reads G (.primary (.function t.position names e)) (t :: u :: input) rest
  | number {t : Token} {n : Float} (rest : List Token) (ht : t.kind = .number)
    (hn : Number.read? t.lexeme = some n) :
    Reads G (.primary (.number t.position t.lexeme n)) (t :: rest) rest
  | string {t : Token} (rest : List Token) (ht : t.kind = .string) :
    Reads G (.primary (.string t.position t.lexeme)) (t :: rest) rest
  | ident {t : Token} (rest : List Token) (ht : t.kind = .identifier) :
    Reads G (.primary (.ident t.position t.lexeme)) (t :: rest) rest
  | noItems (rest : List Token) : Reads G (.list []) rest rest
  | items {e : Expr} {es : List Expr} {input s rest : List Token} (he : Reads G (.expr e) input s)
    (hes : Reads G (.tail es) s rest) : Reads G (.list (e :: es)) input rest
  | tailEnd (rest : List Token) : Reads G (.tail []) rest rest
  | lastComma {t : Token} (rest : List Token) (ht : t.isPunctuation ",") :
    Reads G (.tail []) (t :: rest) rest
  | comma {t : Token} {e : Expr} {es : List Expr} {input s rest : List Token}
    (ht : t.isPunctuation ",") (he : Reads G (.expr e) input s) (hes : Reads G (.tail es) s rest) :
    Reads G (.tail (e :: es)) (t :: input) rest
  | programEnd : Reads G (.program []) [] []
  | next {e : Expr} {es : List Expr} {input s rest : List Token} (he : Reads G (.expr e) input s)
    (hes : Reads G (.program es) s rest) : Reads G (.program (e :: es)) input rest

/-- Tokens form a phrase of the same kind as the given one, with trees of a grouping's own. -/
def Phrase.Recognized (G : Grouping) (input rest : List Token) : Phrase → Prop
  | .expr _ => ∃ e, Reads G (.expr e) input rest
  | .chain _ => ∃ ops, (∀ op ∈ ops, op.1.infixPower?.isSome) ∧ Reads G (.chain ops) input rest
  | .part _ => ∃ e, Reads G (.part e) input rest
  | .calls _ _ => ∀ f, ∃ e, Reads G (.calls f e) input rest
  | .primary _ => ∃ e, Reads G (.primary e) input rest
  | .list _ => ∃ es, Reads G (.list es) input rest
  | .tail _ => ∃ es, Reads G (.tail es) input rest
  | .program _ => ∃ es, Reads G (.program es) input rest

/-- What tokens form under one grouping they also form under every other one that has a tree for each
chain. -/
theorem Reads.regroup {G G' : Grouping} {φ : Phrase} {input rest : List Token}
    (htotal : ∀ first ops, (∀ op ∈ ops, op.1.infixPower?.isSome) → ∃ e, G' first ops e)
    (h : Reads G φ input rest) : φ.Recognized G' input rest := by
  induction h with
  | expr _ _ hend _ ihfirst ihops =>
    obtain ⟨first, hfirst⟩ := ihfirst
    obtain ⟨ops, hall, hops⟩ := ihops
    obtain ⟨e, he⟩ := htotal first ops hall
    exact ⟨e, .expr hfirst hops hend he⟩
  | chainEnd rest => exact ⟨[], List.forall_mem_nil _, .chainEnd rest⟩
  | @operator op _ _ _ _ _ hop _ _ ihpart ihops =>
    obtain ⟨e, hpart⟩ := ihpart
    obtain ⟨ops, hall, hops⟩ := ihops
    exact ⟨(op, e) :: ops, List.forall_mem_cons.mpr ⟨hop, hall⟩, .operator hop hpart hops⟩
  | part _ _ ihprimary ihcalls =>
    obtain ⟨f, hprimary⟩ := ihprimary
    obtain ⟨e, hcalls⟩ := ihcalls f
    exact ⟨e, .part hprimary hcalls⟩
  | callsEnd _ hend => exact fun f => ⟨f, .callsEnd f hend⟩
  | call ht _ hu _ ihargs ihcalls =>
    intro f
    obtain ⟨args, hargs⟩ := ihargs
    obtain ⟨e, hcalls⟩ := ihcalls (.call f.span f args)
    exact ⟨e, .call ht hargs hu hcalls⟩
  | parens ht _ hu ihe =>
    obtain ⟨e, he⟩ := ihe
    exact ⟨e, .parens ht he hu⟩
  | block ht _ hu ihes =>
    obtain ⟨es, hes⟩ := ihes
    exact ⟨_, .block ht hes hu⟩
  | ifThen ht _ _ hend ihc ihe =>
    obtain ⟨c, hc⟩ := ihc
    obtain ⟨e, he⟩ := ihe
    exact ⟨_, .ifThen ht hc he hend⟩
  | ifElse ht _ _ hu _ ihc ihe iho =>
    obtain ⟨c, hc⟩ := ihc
    obtain ⟨e, he⟩ := ihe
    obtain ⟨o, ho⟩ := iho
    exact ⟨_, .ifElse ht hc he hu ho⟩
  | loop ht _ _ ihc ihe =>
    obtain ⟨c, hc⟩ := ihc
    obtain ⟨e, he⟩ := ihe
    exact ⟨_, .loop ht hc he⟩
  | stuff ht _ _ ihb ihv =>
    obtain ⟨b, hb⟩ := ihb
    obtain ⟨v, hv⟩ := ihv
    exact ⟨_, .stuff ht hb hv⟩
  | unstuff ht _ ihb =>
    obtain ⟨b, hb⟩ := ihb
    exact ⟨_, .unstuff ht hb⟩
  | yes rest ht => exact ⟨_, .yes rest ht⟩
  | no rest ht => exact ⟨_, .no rest ht⟩
  | function ht hu hnames hv _ ihe =>
    obtain ⟨e, he⟩ := ihe
    exact ⟨_, .function ht hu hnames hv he⟩
  | number rest ht hn => exact ⟨_, .number rest ht hn⟩
  | string rest ht => exact ⟨_, .string rest ht⟩
  | ident rest ht => exact ⟨_, .ident rest ht⟩
  | noItems rest => exact ⟨[], .noItems rest⟩
  | items _ _ ihe ihes =>
    obtain ⟨e, he⟩ := ihe
    obtain ⟨es, hes⟩ := ihes
    exact ⟨e :: es, .items he hes⟩
  | tailEnd rest => exact ⟨[], .tailEnd rest⟩
  | lastComma rest ht => exact ⟨[], .lastComma rest ht⟩
  | comma ht _ _ ihe ihes =>
    obtain ⟨e, he⟩ := ihe
    obtain ⟨es, hes⟩ := ihes
    exact ⟨e :: es, .comma ht he hes⟩
  | programEnd => exact ⟨[], .programEnd⟩
  | next _ _ ihe ihes =>
    obtain ⟨e, he⟩ := ihe
    obtain ⟨es, hes⟩ := ihes
    exact ⟨e :: es, .next he hes⟩

/-- A chain whose first part is itself a group of parts is a longer chain. -/
theorem Groups.trans {first left e : Expr} {before after : List (Token × Expr)}
    (hleft : Groups first before left) (h : Groups left after e) : Groups first (before ++ after) e := by
  induction h generalizing first before with
  | part e =>
    rw [List.append_nil]
    exact hleft
  | join op _ hright ihleft _ =>
    rw [← List.append_assoc]
    exact .join op (ihleft hleft) hright

/-- Going by how tightly operators bind keeps everything in order. -/
theorem Climbs.groups {floor : Nat} {left e : Expr} {ops : List (Token × Expr)}
    (h : Climbs floor left ops e) : Groups left ops e := by
  induction h with
  | stop floor left => exact .part left
  | @step _ _ left _ _ _ op _ _ _ _ _ _ _ ihinner ihouter =>
    exact (Groups.join op (.part left) ihinner).trans ihouter

/-- Every chain can be grouped in order, for example from the left. -/
theorem Groups.exists (first : Expr) (ops : List (Token × Expr)) : ∃ e, Groups first ops e := by
  induction ops generalizing first with
  | nil => exact ⟨first, .part first⟩
  | cons op ops ih =>
    obtain ⟨e, he⟩ := ih (first.joined op.1.lexeme op.2)
    exact ⟨e, (Groups.join op.1 (.part first) (.part op.2)).trans he⟩

/-- From every floor the operators above it, up to the first that is not, have a grouping. -/
theorem Climbs.exists_run (floor : Nat) (left : Expr) (ops : List (Token × Expr)) :
    ∃ run others e, ops = run ++ others ∧ Climbs floor left run e ∧
      Stops (Token.bindsAbove floor) (others.map (·.1)) := by
  induction hlen : ops.length using Nat.strongRecOn generalizing floor left ops with
  | ind n ih =>
    subst hlen
    cases ops with
    | nil => exact ⟨[], [], left, rfl, .stop floor left, .nil _⟩
    | cons op ops =>
      obtain ⟨op, next⟩ := op
      by_cases habove : op.bindsAbove floor
      · obtain ⟨power, hpower, hfloor⟩ := Token.bindsAbove_iff.mp habove
        obtain ⟨inner, others, right, rfl, hinner, hend⟩ :=
          ih ops.length (Nat.lt_succ_self _) (op.rightFloor power) next ops rfl
        have hshorter : others.length < (inner ++ others).length + 1 := by
          rw [List.length_append]
          omega
        obtain ⟨outer, rest, e, rfl, houter, hstop⟩ :=
          ih others.length hshorter floor (left.joined op.lexeme right) others rfl
        rw [List.map_append] at hend
        refine ⟨(op, next) :: (inner ++ outer), rest, e, ?_, ?_, hstop⟩
        · rw [List.cons_append, List.append_assoc]
        · exact .step hpower hfloor hinner hend.of_append houter
      · refine ⟨[], (op, next) :: ops, left, rfl, .stop floor left, fun t ht => ?_⟩
        cases ht
        exact Bool.eq_false_iff.mpr habove

/-- Infix operators bind more tightly than the lowest floor. -/
theorem Token.infixPower?_pos {t : Token} {power : Nat} (h : t.infixPower? = some power) :
    0 < power := by
  unfold Token.infixPower? StuffScript.infixPower? at h
  split at h
  · split at h <;> cases h <;> decide
  · cases h

/-- What binds above the lowest floor is what is an infix operator. -/
theorem Token.bindsAbove_zero : Token.bindsAbove 0 = (·.infixPower?.isSome) := by
  funext t
  unfold Token.bindsAbove
  cases h : t.infixPower? with
  | none => rfl
  | some power => simpa using Token.infixPower?_pos h

/-- Every chain of infix operators can be grouped by how tightly they bind. -/
theorem GroupsByPower.exists (first : Expr) (ops : List (Token × Expr))
    (hops : ∀ op ∈ ops, op.1.infixPower?.isSome) : ∃ e, GroupsByPower first ops e := by
  obtain ⟨run, others, e, rfl, hrun, hend⟩ := Climbs.exists_run 0 first ops
  cases others with
  | nil =>
    rw [List.append_nil]
    exact ⟨e, hrun.groups, hrun⟩
  | cons op others =>
    -- An operator stands above the lowest floor, so none can be left over.
    have hop := hops op (List.mem_append_right _ List.mem_cons_self)
    rw [Token.bindsAbove_zero] at hend
    exact absurd hop (Bool.eq_false_iff.mp (hend op.1 rfl))

end StuffScript
