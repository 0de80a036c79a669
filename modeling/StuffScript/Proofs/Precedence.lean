import StuffScript.Proofs.ParserCompleteness

/-!
# The tree of a chain

An expression is read as a chain of parts with infix operators between them, and the chain is then grouped
into a tree. A tree over a chain is proper if every operator stands over operands that bind tightly enough:
operators that bind equally tightly are grouped from the left, and assignments from the right. The left
side of an assignment may be anything that binds more tightly, its right side anything at all.

Operators of the chain are told from those inside its parts: a part may well be an operation in
parentheses, so trees over a chain are a type of their own.

The main statement is `parseExpr_builds_proper_tree`: parsing takes the longest chain there is and returns
its proper tree, and no other tree over that chain is proper.
-/

namespace StuffScript

/-- A tree over a chain: a single part, or an operator between two trees. -/
inductive OperatorTree where
  | part (e : Expr)
  | node (left : OperatorTree) (op : Token) (right : OperatorTree)

namespace OperatorTree

/-- The expression that a tree stands for. -/
def expr : OperatorTree → Expr
  | part e => e
  | node left op right => left.expr.joined op.lexeme right.expr

/-- The part that a tree begins with. -/
def first : OperatorTree → Expr
  | part e => e
  | node left _ _ => left.first

/-- The operators of a tree from left to right, each with the part after it. -/
def ops : OperatorTree → List (Token × Expr)
  | part _ => []
  | node left op right => left.ops ++ (op, right.first) :: right.ops

/-- Read from left to right, the tree is a given chain. -/
def Over (tree : OperatorTree) (first : Expr) (ops : List (Token × Expr)) : Prop :=
  tree.first = first ∧ tree.ops = ops

/-- The tree is a part, or the operator at its top binds at least so tightly. -/
def AtLeast (power : Nat) : OperatorTree → Prop
  | part _ => True
  | node _ op _ => ∃ p, op.infixPower? = some p ∧ power ≤ p

/-- All operators are infix operators. To the left of an assignment stands a part or what binds more
tightly, to its right anything; to the left of every other operator a part or what binds at least as
tightly, to its right a part or what binds more tightly. -/
def Proper : OperatorTree → Prop
  | part _ => True
  | node left op right => left.Proper ∧ right.Proper ∧ ∃ power, op.infixPower? = some power ∧
    if op.lexeme = "=" then left.AtLeast (power + 1)
    else left.AtLeast power ∧ right.AtLeast (power + 1)

end OperatorTree

/-- Only the assignment sign binds as loosely as an assignment. -/
theorem Token.infixPower?_eq_one_iff {t : Token} {power : Nat} (h : t.infixPower? = some power) :
    power = 1 ↔ t.lexeme = "=" := by
  unfold Token.infixPower? StuffScript.infixPower? at h
  split at h
  · split at h <;> cases h <;> simp_all
  · cases h

namespace OperatorTree

/-- In a proper tree no operator binds less tightly than the one at the top. -/
theorem Proper.atLeast_of_mem {tree : OperatorTree} (h : tree.Proper) {low : Nat}
    (hlow : tree.AtLeast low) {op : Token} {e : Expr} (hop : (op, e) ∈ tree.ops) {power : Nat}
    (hpower : op.infixPower? = some power) : low ≤ power := by
  induction tree generalizing low with
  | part e => cases hop
  | node left top right ihleft ihright =>
    obtain ⟨hleft, hright, p, hp, hsides⟩ := h
    obtain ⟨p', hp', hle⟩ := hlow
    obtain rfl : p = p' := Option.some.inj (hp.symm.trans hp')
    have hpos := Token.infixPower?_pos hpower
    rcases List.mem_append.mp hop with hmem | hmem
    · split at hsides
      · have := ihleft hleft hsides hmem
        omega
      · have := ihleft hleft hsides.1 hmem
        omega
    · rcases List.mem_cons.mp hmem with heq | hmem
      · cases heq
        obtain rfl : p = power := Option.some.inj (hp.symm.trans hpower)
        exact hle
      · split at hsides
        · next heq =>
          -- The right side of an assignment is not bounded, but nothing binds less tightly.
          have := (Token.infixPower?_eq_one_iff hp).mpr heq
          omega
        · have := ihright hright hsides.2 hmem
          omega

/-- Where one proper tree has an operator at the top, no proper tree over the same chain has it to the
left of its own top. -/
theorem Proper.not_left_of {left right left' right' : OperatorTree} {op op' : Token} {e e' : Expr}
    (h : (node left op right).Proper) (h' : (node left' op' right').Proper)
    (hop : (op, e) ∈ left'.ops) (hop' : (op', e') ∈ right.ops) : False := by
  obtain ⟨_, hright, p, hp, hsides⟩ := h
  obtain ⟨hleft', _, p', hp', hsides'⟩ := h'
  have hone := Token.infixPower?_eq_one_iff hp
  have hone' := Token.infixPower?_eq_one_iff hp'
  have hpos := Token.infixPower?_pos hp
  have hpos' := Token.infixPower?_pos hp'
  split at hsides
  · next heq =>
    have hp1 := hone.mpr heq
    split at hsides'
    · have := hleft'.atLeast_of_mem hsides' hop hp
      omega
    · next hne =>
      have := hleft'.atLeast_of_mem hsides'.1 hop hp
      exact hne (hone'.mp (by omega))
  · have hlt := hright.atLeast_of_mem hsides.2 hop' hp'
    split at hsides'
    · next heq =>
      have := hone'.mpr heq
      omega
    · have := hleft'.atLeast_of_mem hsides'.1 hop hp
      omega

/-- A chain has at most one proper tree. -/
theorem Proper.unique {tree tree' : OperatorTree} (h : tree.Proper) (h' : tree'.Proper)
    (hfirst : tree.first = tree'.first) (hops : tree.ops = tree'.ops) : tree = tree' := by
  induction tree generalizing tree' with
  | part e =>
    cases tree' with
    | part e' => exact congrArg part hfirst
    | node left' op' right' => simp [ops] at hops
  | node left op right ihleft ihright =>
    cases tree' with
    | part e' => simp [ops] at hops
    | node left' op' right' =>
      -- The two tops stand at the same place in the chain, so both sides are over the same chains.
      simp only [ops] at hops
      have hsame : left.ops = left'.ops ∧
          (op, right.first) :: right.ops = (op', right'.first) :: right'.ops := by
        rcases List.append_eq_append_iff.mp hops with ⟨mid, hleft, hright⟩ | ⟨mid, hleft, hright⟩
        · cases mid with
          | nil => exact ⟨by rw [hleft, List.append_nil], hright⟩
          | cons x mid =>
            obtain ⟨rfl, hafter⟩ := List.cons.inj hright
            have hop : (op, right.first) ∈ left'.ops := hleft ▸ List.mem_append_cons_self
            have hop' : (op', right'.first) ∈ right.ops := hafter ▸ List.mem_append_cons_self
            exact (h.not_left_of h' hop hop').elim
        · cases mid with
          | nil => exact ⟨by rw [hleft, List.append_nil], hright.symm⟩
          | cons x mid =>
            obtain ⟨rfl, hafter⟩ := List.cons.inj hright
            have hop' : (op', right'.first) ∈ left.ops := hleft ▸ List.mem_append_cons_self
            have hop : (op, right.first) ∈ right'.ops := hafter ▸ List.mem_append_cons_self
            exact (h'.not_left_of h hop' hop).elim
      obtain ⟨hleft, hcons⟩ := hsame
      obtain ⟨hop, hright⟩ := List.cons.inj hcons
      obtain ⟨rfl, hnext⟩ := Prod.mk.inj hop
      rw [ihleft h.1 h'.1 hfirst hleft, ihright h.2.1 h'.2.1 hnext hright]

/-- An operator that goes on after a tree does not belong to the right side of the operator at its top. -/
def Yields (ops : List (Token × Expr)) : OperatorTree → Prop
  | part _ => True
  | node _ op _ => ∀ power, op.infixPower? = some power →
    Stops (Token.bindsAbove (op.rightFloor power)) (ops.map (·.1))

/-- A proper tree that yields to an operator may stand to its left. -/
theorem Yields.left_side {tree : OperatorTree} {op : Token} {next : Expr} {ops : List (Token × Expr)}
    {power : Nat} (h : tree.Yields ((op, next) :: ops)) (htree : tree.Proper)
    (hpower : op.infixPower? = some power) :
    if op.lexeme = "=" then tree.AtLeast (power + 1) else tree.AtLeast power := by
  cases tree with
  | part e =>
    split <;> trivial
  | node left top right =>
    obtain ⟨_, _, p, hp, _⟩ := htree
    have hpos := Token.infixPower?_pos hpower
    have hfloor : power ≤ top.rightFloor p := Nat.not_lt.mp fun hlt =>
      Bool.eq_false_iff.mp (h p hp op rfl) (Token.bindsAbove_iff.mpr ⟨power, hpower, hlt⟩)
    -- The top is no assignment, as nothing is left over by the right side of one.
    have hne : top.lexeme ≠ "=" := by
      intro heq
      have := (Token.infixPower?_eq_one_iff hp).mpr heq
      rw [Token.rightFloor, if_pos heq] at hfloor
      omega
    have hne1 : p ≠ 1 := fun h1 => hne ((Token.infixPower?_eq_one_iff hp).mp h1)
    rw [Token.rightFloor, if_neg hne] at hfloor
    split
    · next heq =>
      have := (Token.infixPower?_eq_one_iff hpower).mpr heq
      exact ⟨p, hp, by omega⟩
    · exact ⟨p, hp, hfloor⟩

end OperatorTree

/-- Grouping by how tightly operators bind comes to a proper tree. What was grouped so far, itself a proper
tree, is its beginning. -/
theorem Climbs.proper {floor : Nat} {left e : Expr} {ops : List (Token × Expr)}
    (h : Climbs floor left ops e) (start : OperatorTree) (hexpr : start.expr = left)
    (hproper : start.Proper) (hfloor : start.AtLeast (floor + 1)) (hyields : start.Yields ops) :
    ∃ tree : OperatorTree, tree.Over start.first (start.ops ++ ops) ∧ tree.Proper ∧
      tree.AtLeast (floor + 1) ∧ tree.expr = e := by
  induction h generalizing start with
  | stop floor left => exact ⟨start, ⟨rfl, (List.append_nil _).symm⟩, hproper, hfloor, hexpr⟩
  | @step floor power left next right e op inner outer hpower hlt _ hend _ ihinner ihouter =>
    obtain ⟨side, ⟨hfirst, hops⟩, hside, habove, hright⟩ :=
      ihinner (.part next) rfl trivial trivial trivial
    have hleft := hyields.left_side hproper hpower
    have hsides : if op.lexeme = "=" then start.AtLeast (power + 1)
        else start.AtLeast power ∧ side.AtLeast (power + 1) := by
      split
      · next heq => rwa [if_pos heq] at hleft
      · next hne =>
        rw [if_neg hne] at hleft
        rw [Token.rightFloor, if_neg hne] at habove
        exact ⟨hleft, habove⟩
    obtain ⟨tree, ⟨hfirst', hops'⟩, htree, hatLeast, htreeExpr⟩ :=
      ihouter (.node start op side)
        (by rw [OperatorTree.expr, hexpr, hright])
        ⟨hproper, hside, power, hpower, hsides⟩
        ⟨power, hpower, hlt⟩
        (fun p hp => by rwa [Option.some.inj (hp.symm.trans hpower)])
    refine ⟨tree, ⟨hfirst', ?_⟩, htree, hatLeast, htreeExpr⟩
    rw [hops']
    simp only [OperatorTree.ops, OperatorTree.first] at hfirst hops ⊢
    rw [hfirst, hops]
    simp

/-- Parsing has one result. -/
theorem Gives.unique {α : Type} {n : Nat} {x : Except Diagnostic (Parsed α n)} {v v' : α}
    {rest rest' : Stream} (h : Gives x v rest) (h' : Gives x v' rest') : v = v' ∧ rest = rest' := by
  obtain ⟨p, rfl, rfl, rfl⟩ := h
  exact (Gives.ok_iff.mp h').imp Eq.symm Eq.symm

namespace Stream

/-- All the operators taken are infix operators. -/
theorem Takes.isSome {s rest : Stream} {ops : List (Token × Expr)} (h : s.Takes ops rest) :
    ∀ op ∈ ops, op.1.infixPower?.isSome := by
  induction h with
  | nothing s => exact List.forall_mem_nil _
  | operator hop _ _ ih => exact List.forall_mem_cons.mpr ⟨hop, ih⟩

/-- A part and the infix operators that follow, each with a part after it, as many as there are. -/
def Chain (s : Stream) (first : Expr) (ops : List (Token × Expr)) (rest : Stream) : Prop :=
  (∃ s₁, Gives (parsePart s) first s₁ ∧ s₁.Takes ops rest) ∧ rest.Stops (·.infixPower?.isSome)

/-- Taking as many operators as there are can be done in one way. -/
theorem Takes.unique {s rest rest' : Stream} {ops ops' : List (Token × Expr)} (h : s.Takes ops rest)
    (h' : s.Takes ops' rest') (hend : rest.Stops (·.infixPower?.isSome))
    (hend' : rest'.Stops (·.infixPower?.isSome)) : ops = ops' ∧ rest = rest' := by
  induction h generalizing ops' with
  | nothing s =>
    cases h' with
    | nothing => exact ⟨rfl, rfl⟩
    | operator hop => exact absurd hop (Bool.eq_false_iff.mp hend)
  | operator hop hpart _ ih =>
    cases h' with
    | nothing => exact absurd hop (Bool.eq_false_iff.mp hend')
    | operator _ hpart' hmore' =>
      obtain ⟨rfl, rfl⟩ := hpart.unique hpart'
      obtain ⟨rfl, rfl⟩ := ih hmore' hend
      exact ⟨rfl, rfl⟩

/-- There is at most one chain at the front of a stream. -/
theorem Chain.unique {s rest rest' : Stream} {first first' : Expr} {ops ops' : List (Token × Expr)}
    (h : s.Chain first ops rest) (h' : s.Chain first' ops' rest') :
    first = first' ∧ ops = ops' ∧ rest = rest' := by
  obtain ⟨⟨s₁, hfirst, htakes⟩, hend⟩ := h
  obtain ⟨⟨s₂, hfirst', htakes'⟩, hend'⟩ := h'
  obtain ⟨rfl, rfl⟩ := hfirst.unique hfirst'
  exact ⟨rfl, htakes.unique htakes' hend hend'⟩

end Stream

/-- An expression is parsed from a chain, which is grouped by how tightly operators bind. -/
theorem gives_parseExpr_chain {s rest : Stream} {e : Expr} :
    Gives (parseExpr s) e rest ↔ ∃ first ops, s.Chain first ops rest ∧ Climbs 0 first ops e := by
  rw [gives_parseExpr]
  constructor
  · rintro ⟨first, s₁, hfirst, hmore⟩
    obtain ⟨ops, htakes, hclimbs, hend⟩ := parseInfix_takes hmore
    rw [Token.bindsAbove_zero] at hend
    exact ⟨first, ops, ⟨⟨s₁, hfirst, htakes⟩, hend⟩, hclimbs⟩
  · rintro ⟨first, ops, ⟨⟨s₁, hfirst, htakes⟩, hend⟩, hclimbs⟩
    rw [← Token.bindsAbove_zero] at hend
    exact ⟨first, s₁, hfirst, hclimbs.parsed htakes hend⟩

/-- Grouping a chain by how tightly operators bind comes to the expression of its proper tree. -/
theorem climbs_iff_proper {first e : Expr} {ops : List (Token × Expr)}
    (hops : ∀ op ∈ ops, op.1.infixPower?.isSome) :
    Climbs 0 first ops e ↔
      ∃ tree : OperatorTree, tree.Over first ops ∧ tree.Proper ∧ tree.expr = e := by
  have htree {e : Expr} (h : Climbs 0 first ops e) :
      ∃ tree : OperatorTree, tree.Over first ops ∧ tree.Proper ∧ tree.expr = e := by
    obtain ⟨tree, hover, hproper, _, hexpr⟩ :=
      h.proper (.part first) rfl trivial trivial trivial
    exact ⟨tree, hover, hproper, hexpr⟩
  refine ⟨htree, ?_⟩
  rintro ⟨tree, hover, hproper, rfl⟩
  obtain ⟨e, _, hclimbs⟩ := GroupsByPower.exists first ops hops
  obtain ⟨other, hover', hproper', rfl⟩ := htree hclimbs
  have hsame := hproper.unique hproper' (hover.1.trans hover'.1.symm) (hover.2.trans hover'.2.symm)
  rw [hsame]
  exact hclimbs

/-- **The tree of an expression.** Parsing an expression succeeds exactly if there is a chain at the front
of the stream; it leaves what follows the chain, which goes on with no infix operator, and returns the
expression of the proper tree over the chain. There is one such chain and one proper tree over it. -/
theorem parseExpr_builds_proper_tree (s : Stream) :
    (∀ e rest, Gives (parseExpr s) e rest ↔ ∃ first ops, s.Chain first ops rest ∧
      ∃ tree : OperatorTree, tree.Over first ops ∧ tree.Proper ∧ tree.expr = e) ∧
    (∀ first ops rest, s.Chain first ops rest →
      (∀ first' ops' rest', s.Chain first' ops' rest' → first = first' ∧ ops = ops' ∧ rest = rest') ∧
      ∃ tree : OperatorTree, (tree.Over first ops ∧ tree.Proper) ∧
        ∀ other : OperatorTree, other.Over first ops → other.Proper → other = tree) := by
  have hproper {first e : Expr} {ops : List (Token × Expr)} {rest : Stream}
      (h : s.Chain first ops rest) : Climbs 0 first ops e ↔
        ∃ tree : OperatorTree, tree.Over first ops ∧ tree.Proper ∧ tree.expr = e := by
    obtain ⟨⟨_, _, htakes⟩, _⟩ := h
    exact climbs_iff_proper htakes.isSome
  constructor
  · intro e rest
    rw [gives_parseExpr_chain]
    constructor
    · rintro ⟨first, ops, hchain, hclimbs⟩
      exact ⟨first, ops, hchain, (hproper hchain).mp hclimbs⟩
    · rintro ⟨first, ops, hchain, htree⟩
      exact ⟨first, ops, hchain, (hproper hchain).mpr htree⟩
  · intro first ops rest hchain
    refine ⟨fun first' ops' rest' hchain' => hchain.unique hchain', ?_⟩
    obtain ⟨⟨_, _, htakes⟩, _⟩ := id hchain
    obtain ⟨e, _, hclimbs⟩ := GroupsByPower.exists first ops htakes.isSome
    obtain ⟨tree, hover, htree, _⟩ := (hproper hchain).mp hclimbs
    refine ⟨tree, ⟨hover, htree⟩, fun other hover' hother => ?_⟩
    exact hother.unique htree (hover'.1.trans hover.1.symm) (hover'.2.trans hover.2.symm)

/-- A variable that no argument list follows is a part. -/
theorem gives_parsePart_ident {t : Token} {s : Stream} (ht : t.kind = .identifier)
    (hs : s.Stops (·.isPunctuation "(")) :
    Gives (parsePart (.token t s)) (.ident t.position t.lexeme) s := by
  have hprimary : Gives (parsePrimary (.token t s)) (.ident t.position t.lexeme) s :=
    (gives_parsePrimary_literal (by rw [ht]; decide) (by rw [ht]; decide)).mpr
      ⟨rfl, Or.inr (Or.inr ⟨ht, rfl⟩)⟩
  exact gives_parsePart.mpr ⟨_, s, hprimary, (gives_parseCalls_stop hs).mpr ⟨rfl, rfl⟩⟩

/-- A word or an operator on the first line. -/
def tokenAt (kind : TokenKind) (lexeme : String) (col : Nat) : Token := ⟨kind, lexeme, ⟨1, col⟩⟩

/-- In `a = b - c - d` the differences are grouped from the left, to the right of the assignment. -/
theorem parseExpr_builds_proper_tree_mixed :
    let a : Expr := .ident ⟨1, 1⟩ "a"
    let b : Expr := .ident ⟨1, 5⟩ "b"
    let c : Expr := .ident ⟨1, 9⟩ "c"
    let d : Expr := .ident ⟨1, 13⟩ "d"
    let rest : Stream := .finish (tokenAt .endOfInput "" 14)
    let s : Stream := .token (tokenAt .identifier "a" 1) (.token (tokenAt .operator "=" 3)
      (.token (tokenAt .identifier "b" 5) (.token (tokenAt .operator "-" 7)
        (.token (tokenAt .identifier "c" 9) (.token (tokenAt .operator "-" 11)
          (.token (tokenAt .identifier "d" 13) rest))))))
    let ops := [(tokenAt .operator "=" 3, b), (tokenAt .operator "-" 7, c), (tokenAt .operator "-" 11, d)]
    s.Chain a ops rest ∧ (∃ tree : OperatorTree, tree.Over a ops ∧ tree.Proper) ∧
      Gives (parseExpr s) (.assign ⟨1, 1⟩ a (.binary ⟨1, 5⟩ (.binary ⟨1, 5⟩ b "-" c) "-" d)) rest := by
  intro a b c d rest s ops
  have hchain : s.Chain a ops rest := by
    refine ⟨⟨_, gives_parsePart_ident rfl rfl, ?_⟩, trivial⟩
    refine .operator rfl (gives_parsePart_ident rfl rfl) ?_
    refine .operator rfl (gives_parsePart_ident rfl rfl) ?_
    exact .operator rfl (gives_parsePart_ident rfl trivial) (.nothing rest)
  obtain ⟨hiff, hunique⟩ := parseExpr_builds_proper_tree s
  obtain ⟨_, tree, htree, _⟩ := hunique a ops rest hchain
  refine ⟨hchain, ⟨tree, htree⟩, (hiff _ rest).mpr ⟨a, ops, hchain, ?_⟩⟩
  refine ⟨.node (.part a) (tokenAt .operator "=" 3) (.node (.node (.part b) (tokenAt .operator "-" 7)
    (.part c)) (tokenAt .operator "-" 11) (.part d)), ⟨rfl, rfl⟩, ?_, rfl⟩
  have hdifference : (OperatorTree.node (.part b) (tokenAt .operator "-" 7) (.part c)).Proper :=
    ⟨trivial, trivial, 10, rfl, trivial, trivial⟩
  exact ⟨trivial, ⟨hdifference, trivial, 10, rfl, ⟨10, rfl, Nat.le_refl _⟩, trivial⟩, 1, rfl, trivial⟩

end StuffScript
