import StuffScript.Proofs.ParserSoundness

/-!
# What a parser waits for

At every token a parser is somewhere inside of the phrases that it has begun. What those still need is a
stack of goals, and one token decides how the stack goes on: the goal on top takes it, or is done without
it, or refuses it. No goal is ever given up for another, so a refused token cannot be mended by what
follows it.

The main statement is `parse_follows`: parsing succeeds or fails as following the tokens with a stack of
goals does, and fails where they get stuck.
-/

namespace StuffScript

/-- The brackets around lists. -/
inductive Bracket where
  | round
  | square
deriving DecidableEq, Repr

/-- The sign that ends a list. -/
def Bracket.close : Bracket → String
  | round => ")"
  | square => "]"

/-- What a phrase that has begun still needs: a primary expression, argument lists, infix operations, the
other branch of a condition, the end of a parenthesis, a list without its first bracket, the rest of a
list behind an item, and the same for the parameters of a function. -/
inductive Goal where
  | primary
  | calls
  | chain
  | alternative
  | close
  | items (b : Bracket)
  | moreItems (b : Bracket)
  | parameters
  | names
  | moreNames
deriving DecidableEq, Repr

/-- The goals of an expression. -/
def expression : List Goal := [.primary, .calls, .chain]

/-- What a goal does about a token. -/
inductive Move where
  | take (next : List Goal)
  | skip
  | refuse
deriving DecidableEq, Repr

/-- A token that must be taken if it can. -/
def Move.ofOption : Option (List Goal) → Move
  | some next => take next
  | none => refuse

/-- What a primary expression needs after its first token, if it can start with it. -/
def Token.opens? (t : Token) : Option (List Goal) :=
  if t.isPunctuation "(" then some (expression ++ [.close])
  else if t.isPunctuation "[" then some [.items .square]
  else if t.isKeyword "if" then some (expression ++ expression ++ [.alternative])
  else if t.isKeyword "loop" then some (expression ++ expression)
  else if t.isKeyword "stuff" then some (expression ++ expression)
  else if t.isKeyword "unstuff" then some expression
  else if t.isKeyword "true" then some []
  else if t.isKeyword "false" then some []
  else if t.isKeyword "fun" then some (.parameters :: expression)
  else
    match t.kind with
    | .number => if (Number.read? t.lexeme).isSome then some [] else none
    | .string => some []
    | .identifier => some []
    | _ => none

/-- What each goal does about a token. -/
def Goal.meets (t : Token) : Goal → Move
  | primary => .ofOption t.opens?
  | calls => if t.isPunctuation "(" then .take [.items .round, .calls] else .skip
  | chain => if t.bindsAbove 0 then .take expression else .skip
  | alternative => if t.isKeyword "else" then .take expression else .skip
  | close => if t.isPunctuation ")" then .take [] else .refuse
  | items b =>
    if t.isPunctuation b.close then .take []
    else .ofOption (t.opens?.map (· ++ [.calls, .chain, .moreItems b]))
  | moreItems b =>
    if t.isPunctuation b.close then .take []
    else if t.isPunctuation "," then .take [.items b] else .refuse
  | parameters => if t.isPunctuation "[" then .take [.names] else .refuse
  | names =>
    if t.isPunctuation "]" then .take []
    else if t.kind = .identifier then .take [.moreNames] else .refuse
  | moreNames =>
    if t.isPunctuation "]" then .take []
    else if t.isPunctuation "," then .take [.names] else .refuse

/-- Whether a phrase may end without this. -/
def Goal.optional : Goal → Bool
  | calls => true
  | chain => true
  | alternative => true
  | _ => false

/-- How a stack of goals goes on with a token. With all goals met, a program goes on with one more
expression. -/
def expect (t : Token) : List Goal → Option (List Goal)
  | [] => t.opens?.map (· ++ [.calls, .chain])
  | g :: gs =>
    match g.meets t with
    | .take next => some (next ++ gs)
    | .skip => expect t gs
    | .refuse => none

/-- How following a stream ends: all is met, or something does not fit. -/
inductive Verdict where
  | accepted
  | stuck (s : Stream)

/-- Follow a stream with a stack of goals. -/
def follow : List Goal → Stream → Verdict
  | gs, .token t s => (expect t gs).elim (.stuck (.token t s)) fun next => follow next s
  | gs, .finish last => if gs.all Goal.optional then .accepted else .stuck (.finish last)
  | _, .broken d => .stuck (.broken d)

section Following

variable {g : Goal} {gs next : List Goal} {t : Token} {s : Stream} {d : Diagnostic}

/-- Where the scanner has failed, every stack is stuck. -/
theorem follow_broken : follow gs (.broken d) = .stuck (.broken d) := rfl

/-- At the end of the tokens a stack is accepted if all its goals can be done without. -/
theorem follow_finish (gs : List Goal) (last : Token) : follow gs (.finish last) =
    if gs.all Goal.optional then .accepted else .stuck (.finish last) := rfl

/-- A token leads to the next stack, or the stack is stuck. -/
theorem follow_token (gs : List Goal) (t : Token) (s : Stream) : follow gs (.token t s) =
    (expect t gs).elim (.stuck (.token t s)) fun next => follow next s := rfl

/-- At the end of the tokens an optional goal is dropped. -/
theorem follow_optional (h : g.optional) (last : Token) :
    follow (g :: gs) (.finish last) = follow gs (.finish last) := by
  rw [follow_finish, follow_finish, List.all_cons, h, Bool.true_and]

/-- At the end of the tokens a goal that is needed is stuck. -/
theorem follow_needed (h : g.optional = false) (last : Token) :
    follow (g :: gs) (.finish last) = .stuck (.finish last) := by
  rw [follow_finish, List.all_cons, h, Bool.false_and, if_neg Bool.false_ne_true]

/-- A goal that is done without the token leaves it to the goals below. -/
theorem follow_skip (h : g.meets t = .skip) :
    follow (g :: gs) (.token t s) = follow gs (.token t s) := by
  rw [follow_token, follow_token, expect, h]

/-- A goal that takes the token is replaced by what it then needs. -/
theorem follow_take (h : g.meets t = .take next) :
    follow (g :: gs) (.token t s) = follow (next ++ gs) s := by
  rw [follow_token, expect, h, Option.elim_some]

/-- A goal that refuses the token is stuck there. -/
theorem follow_refuse (h : g.meets t = .refuse) :
    follow (g :: gs) (.token t s) = .stuck (.token t s) := by
  rw [follow_token, expect, h, Option.elim_none]

/-- A primary expression takes the token that opens it, or is stuck. -/
theorem follow_primary : follow (.primary :: gs) (.token t s) =
    t.opens?.elim (.stuck (.token t s)) fun next => follow (next ++ gs) s := by
  have hmeets : Goal.primary.meets t = .ofOption t.opens? := rfl
  cases hopens : t.opens? with
  | none => exact follow_refuse (hmeets.trans (congrArg _ hopens))
  | some next => exact follow_take (hmeets.trans (congrArg _ hopens))

/-- A program goes on with an expression. -/
theorem follow_program : follow [] (.token t s) = follow expression (.token t s) := by
  have hexpect : expect t [] = t.opens?.map (· ++ [.calls, .chain]) := rfl
  rw [expression, follow_primary, follow_token, hexpect]
  cases t.opens? with
  | none => rfl
  | some next => rfl

/-- A list that is not at its end goes on with an item. -/
theorem follow_item {b : Bracket} (h : ¬ t.isPunctuation b.close) :
    follow (.items b :: gs) (.token t s) = follow (expression ++ .moreItems b :: gs) (.token t s) := by
  have hmeets : (Goal.items b).meets t =
      .ofOption (t.opens?.map (· ++ [.calls, .chain, .moreItems b])) := if_neg h
  rw [expression, List.cons_append, follow_primary]
  cases hopens : t.opens? with
  | none =>
    rw [hopens] at hmeets
    exact follow_refuse hmeets
  | some next =>
    rw [hopens] at hmeets
    rw [follow_take hmeets, List.append_assoc]
    rfl

/-- Infix operations end where no infix operator stands. -/
theorem follow_chain (h : s.Stops (Token.bindsAbove 0)) : follow (.chain :: gs) s = follow gs s := by
  cases s with
  | token t s => exact follow_skip (if_neg (Bool.eq_false_iff.mp h))
  | finish last => exact follow_optional rfl last
  | broken d => exact h.elim

end Following

/-- A diagnostic is about the place where a stream goes on. -/
def Diagnostic.ArisesAt (d : Diagnostic) : Stream → Prop
  | .token t _ => d.kind = .syntactic ∧ d.position = t.position
  | .finish last => d.kind = .syntactic ∧ d.position = last.position
  | .broken d' => d = d'

/-- A parsing step goes along with a verdict: what it leaves has the same verdict to come, and it fails
where the verdict says. -/
structure Tracks {α : Type} {n : Nat} (x : Except Diagnostic (Parsed α n)) (v : Verdict)
    (k : Stream → Verdict) : Prop where
  ok : ∀ p, x = .ok p → v = k p.rest
  error : ∀ d, x = .error d → ∃ s, v = .stuck s ∧ d.ArisesAt s

namespace Tracks

variable {α β : Type} {m n : Nat} {v : Verdict} {k k' : Stream → Verdict}

/-- A success tracks what follows if the verdict is that of what it leaves. -/
theorem of_ok {p : Parsed α n} (h : v = k p.rest) : Tracks (.ok p) v k := by
  constructor
  · intro q hq
    cases hq
    exact h
  · intro d hd
    cases hd

/-- A failure tracks what follows if the verdict is to be stuck where the failure arises. -/
theorem of_error {d : Diagnostic} {s : Stream} (h : v = .stuck s) (hd : d.ArisesAt s) :
    Tracks (.error d : Except Diagnostic (Parsed α n)) v k := by
  constructor
  · intro q hq
    cases hq
  · intro d' hd'
    cases hd'
    exact ⟨s, h, hd⟩

/-- One step after another: the second goes on with the verdict to come. -/
theorem bind {x : Except Diagnostic (Parsed α m)} {f : Parsed α m → Except Diagnostic (Parsed β n)}
    (hx : Tracks x v k) (hf : ∀ p, x = .ok p → Tracks (f p) (k p.rest) k') : Tracks (x >>= f) v k' := by
  cases x with
  | error d =>
    obtain ⟨s, hs, hd⟩ := hx.error d rfl
    exact of_error hs hd
  | ok p =>
    rw [hx.ok p rfl]
    exact hf p rfl

/-- A last step that only builds the result. -/
theorem map {x : Except Diagnostic (Parsed α m)} {f : Parsed α m → Except Diagnostic (Parsed β n)}
    (hx : Tracks x v k) (hf : ∀ p, ∃ q, f p = .ok q ∧ q.rest = p.rest) : Tracks (x >>= f) v k := by
  refine hx.bind fun p _ => ?_
  obtain ⟨q, hq, hrest⟩ := hf p
  rw [hq, ← hrest]
  exact of_ok rfl

end Tracks

/-- Parsing functions go along with the goals for what they parse. -/
structure ParsesAlong (s : Stream) : Prop where
  primary : ∀ gs, Tracks (parsePrimary s) (follow (.primary :: gs) s) (follow gs)
  calls : ∀ f gs, Tracks (parseCalls f s) (follow (.calls :: gs) s) (follow gs)
  part : ∀ gs, Tracks (parsePart s) (follow (.primary :: .calls :: gs) s) (follow gs)
  chain : ∀ floor left gs,
    Tracks (parseInfix floor left s) (follow (.chain :: gs) s) (follow (.chain :: gs))
  expr : ∀ gs, Tracks (parseExpr s) (follow (expression ++ gs) s) (follow gs)
  moreItems : ∀ b items gs,
    Tracks (parseMoreItems (Bracket.close b) items s) (follow (.moreItems b :: gs) s) (follow gs)
  items : ∀ b gs, Tracks (parseItems (Bracket.close b) s) (follow (.items b :: gs) s) (follow gs)

/-- A sign is taken by a goal that waits for it and for nothing else. -/
theorem takePunctuation_tracks {g : Goal} {sign : String} {next : List Goal} (hneeded : g.optional = false)
    (hmeets : ∀ t, g.meets t = if t.isPunctuation sign then .take next else .refuse) (s : Stream)
    (gs : List Goal) :
    Tracks (takePunctuation sign s) (follow (g :: gs) s) (follow (next ++ gs)) := by
  unfold takePunctuation
  cases s with
  | broken d => exact .of_error follow_broken rfl
  | finish last => exact .of_error (follow_needed hneeded last) ⟨rfl, rfl⟩
  | token t s =>
    by_cases ht : t.isPunctuation sign
    · simp only [if_pos ht]
      exact .of_ok (follow_take ((hmeets t).trans (if_pos ht)))
    · simp only [if_neg ht]
      exact .of_error (follow_refuse ((hmeets t).trans (if_neg ht))) ⟨rfl, rfl⟩

/-- Parsing further parameters follows their goal. -/
theorem parseMoreNames_tracks (names : List String) (s : Stream) (gs : List Goal) :
    Tracks (parseMoreNames names s) (follow (.moreNames :: gs) s) (follow gs) := by
  suffices h : ∀ n names s, s.size = n →
      Tracks (parseMoreNames names s) (follow (.moreNames :: gs) s) (follow gs) from h _ names s rfl
  intro n
  induction n using Nat.strongRecOn with
  | ind n ih =>
    intro names s hsize
    subst hsize
    rw [parseMoreNames.eq_def]
    cases s with
    | broken d => exact .of_error follow_broken rfl
    | finish last => exact .of_error (follow_needed rfl last) ⟨rfl, rfl⟩
    | token t s =>
      by_cases hclose : t.isPunctuation "]"
      · have hmeets : Goal.moreNames.meets t = .take [] := if_pos hclose
        simp only [if_pos hclose]
        exact .of_ok (follow_take hmeets)
      · by_cases ht : t.isPunctuation ","
        · have hmeets : Goal.moreNames.meets t = .take [.names] := by
            simp only [Goal.meets, if_neg hclose, if_pos ht]
          simp only [if_neg hclose, if_pos ht]
          rw [follow_take hmeets]
          cases s with
          | broken d => exact .of_error follow_broken rfl
          | finish last => exact .of_error (follow_needed rfl last) ⟨rfl, rfl⟩
          | token u s =>
            by_cases hu : u.isPunctuation "]"
            · have hend : Goal.names.meets u = .take [] := if_pos hu
              simp only [if_pos hu]
              exact .of_ok (follow_take hend)
            · by_cases hname : u.kind = .identifier
              · have hnext : Goal.names.meets u = .take [.moreNames] := by
                  simp only [Goal.meets, if_neg hu, if_pos hname]
                simp only [if_neg hu, if_pos hname]
                rw [List.singleton_append, follow_take hnext]
                have hs : s.size < (Stream.token t (.token u s)).size := by
                  simp only [Stream.size]
                  omega
                exact (ih _ hs _ s rfl).map fun q => ⟨_, rfl, rfl⟩
              · have hend : Goal.names.meets u = .refuse := by
                  simp only [Goal.meets, if_neg hu, if_neg hname]
                simp only [if_neg hu, if_neg hname]
                exact .of_error (follow_refuse hend) ⟨rfl, rfl⟩
        · have hmeets : Goal.moreNames.meets t = .refuse := by
            simp only [Goal.meets, if_neg hclose, if_neg ht]
          simp only [if_neg hclose, if_neg ht]
          exact .of_error (follow_refuse hmeets) ⟨rfl, rfl⟩

/-- Parsing the parameters of a function follows their goal. -/
theorem parseNames_tracks (s : Stream) (gs : List Goal) :
    Tracks (parseNames s) (follow (.parameters :: gs) s) (follow gs) := by
  unfold parseNames
  refine (takePunctuation_tracks rfl (fun _ => rfl) s gs).bind fun p _ => ?_
  obtain ⟨_, s₁, h₁⟩ := p
  cases s₁ with
  | broken d => exact .of_error follow_broken rfl
  | finish last => exact .of_error (follow_needed rfl last) ⟨rfl, rfl⟩
  | token t rest =>
    by_cases ht : t.isPunctuation "]"
    · have hmeets : Goal.names.meets t = .take [] := if_pos ht
      simp only [if_pos ht]
      exact .of_ok (follow_take hmeets)
    · by_cases hname : t.kind = .identifier
      · have hmeets : Goal.names.meets t = .take [.moreNames] := by
          simp only [Goal.meets, if_neg ht, if_pos hname]
        simp only [if_neg ht, if_pos hname, List.singleton_append, follow_take hmeets]
        exact (parseMoreNames_tracks _ rest gs).map fun q => ⟨_, rfl, rfl⟩
      · have hmeets : Goal.names.meets t = .refuse := by
          simp only [Goal.meets, if_neg ht, if_neg hname]
        simp only [if_neg ht, if_neg hname]
        exact .of_error (follow_refuse hmeets) ⟨rfl, rfl⟩

section Steps

variable {s : Stream} (ih : ∀ s' : Stream, s'.size < s.size → ParsesAlong s')
include ih

/-- Parsing calls follows their goal. -/
theorem parseCalls_tracks (f : Expr) (gs : List Goal) :
    Tracks (parseCalls f s) (follow (.calls :: gs) s) (follow gs) := by
  cases s with
  | broken d =>
    rw [parseCalls]
    exact .of_error follow_broken rfl
  | finish last =>
    rw [parseCalls]
    exact .of_ok (follow_optional rfl last)
  | token t s =>
    rw [parseCalls]
    by_cases ht : t.isPunctuation "("
    · have hmeets : Goal.calls.meets t = .take [.items .round, .calls] := if_pos ht
      rw [if_pos ht, follow_take hmeets]
      refine ((ih s (Nat.lt_succ_self _)).items .round (.calls :: gs)).bind fun p _ => ?_
      exact ((ih p.rest (Nat.lt_succ_of_lt p.shorter)).calls _ gs).map fun q => ⟨_, rfl, rfl⟩
    · rw [if_neg ht]
      exact .of_ok (follow_skip (if_neg ht))

/-- Climbing follows the goal of infix operations, whatever the floor, and leaves that goal to what is behind.
-/
theorem parseInfix_tracks (floor : Nat) (left : Expr) (gs : List Goal) :
    Tracks (parseInfix floor left s) (follow (.chain :: gs) s) (follow (.chain :: gs)) := by
  cases s with
  | broken d =>
    rw [parseInfix]
    exact .of_error follow_broken rfl
  | finish last =>
    rw [parseInfix]
    exact .of_ok rfl
  | token t s =>
    rw [parseInfix]
    cases hpower : t.infixPower? with
    | none => exact .of_ok rfl
    | some power =>
      by_cases hfloor : power ≤ floor
      · simp only [if_pos hfloor]
        exact .of_ok rfl
      · simp only [if_neg hfloor]
        have hmeets : Goal.chain.meets t = .take expression :=
          if_pos (Token.bindsAbove_iff.mpr ⟨power, hpower, Nat.zero_lt_of_lt (Nat.not_le.mp hfloor)⟩)
        rw [follow_take hmeets]
        refine ((ih s (Nat.lt_succ_self _)).part (.chain :: gs)).bind fun p _ => ?_
        have hp : p.rest.size < (Stream.token t s).size := Nat.lt_succ_of_lt p.shorter
        refine ((ih p.rest hp).chain _ _ gs).bind fun q _ => ?_
        have hq : q.rest.size < (Stream.token t s).size :=
          Nat.lt_of_lt_of_le q.shorter (Nat.succ_le_of_lt hp)
        exact ((ih q.rest hq).chain _ _ gs).map fun r => ⟨_, rfl, rfl⟩

/-- Parsing further items follows their goal. -/
theorem parseMoreItems_tracks (b : Bracket) (items : List Expr) (gs : List Goal) :
    Tracks (parseMoreItems b.close items s) (follow (.moreItems b :: gs) s) (follow gs) := by
  rw [parseMoreItems.eq_def]
  cases s with
  | broken d => exact .of_error follow_broken rfl
  | finish last => exact .of_error (follow_needed rfl last) ⟨rfl, rfl⟩
  | token t s =>
    by_cases hclose : t.isPunctuation b.close
    · have hmeets : (Goal.moreItems b).meets t = .take [] := if_pos hclose
      simp only [if_pos hclose]
      exact .of_ok (follow_take hmeets)
    · by_cases ht : t.isPunctuation ","
      · have hmeets : (Goal.moreItems b).meets t = .take [.items b] := by
          simp only [Goal.meets, if_neg hclose, if_pos ht]
        simp only [if_neg hclose, if_pos ht]
        rw [follow_take hmeets]
        cases s with
        | broken d => exact .of_error follow_broken rfl
        | finish last => exact .of_error (follow_needed rfl last) ⟨rfl, rfl⟩
        | token u s =>
          by_cases hu : u.isPunctuation b.close
          · have hend : (Goal.items b).meets u = .take [] := if_pos hu
            simp only [if_pos hu]
            exact .of_ok (follow_take hend)
          · simp only [if_neg hu, List.cons_append, List.nil_append, follow_item hu]
            have hs : (Stream.token u s).size < (Stream.token t (.token u s)).size := Nat.lt_succ_self _
            refine ((ih _ hs).expr (.moreItems b :: gs)).bind fun p _ => ?_
            exact ((ih p.rest (Nat.lt_trans p.shorter hs)).moreItems b _ gs).map fun q => ⟨_, rfl, rfl⟩
      · have hmeets : (Goal.moreItems b).meets t = .refuse := by
          simp only [Goal.meets, if_neg hclose, if_neg ht]
        simp only [if_neg hclose, if_neg ht]
        exact .of_error (follow_refuse hmeets) ⟨rfl, rfl⟩

/-- Parsing a primary expression follows its goal. -/
theorem parsePrimary_tracks (gs : List Goal) :
    Tracks (parsePrimary s) (follow (.primary :: gs) s) (follow gs) := by
  cases s with
  | broken d =>
    rw [parsePrimary]
    exact .of_error follow_broken rfl
  | finish last =>
    rw [parsePrimary]
    exact .of_error (follow_needed rfl last) ⟨rfl, rfl⟩
  | token t s =>
    have ihs := ih s (Nat.lt_succ_self _)
    have ihp {α : Type} (p : Parsed α s.size) : ParsesAlong p.rest :=
      ih p.rest (Nat.lt_succ_of_lt p.shorter)
    rw [parsePrimary, follow_primary, Token.opens?]
    by_cases hround : t.isPunctuation "("
    · rw [if_pos hround, if_pos hround]
      show Tracks _ (follow (expression ++ .close :: gs) s) _
      refine (ihs.expr _).bind fun p _ => ?_
      have hclose : Tracks (takePunctuation ")" p.rest) (follow (.close :: gs) p.rest) (follow gs) :=
        takePunctuation_tracks (g := .close) rfl (fun _ => rfl) p.rest gs
      exact hclose.map fun q => ⟨_, rfl, rfl⟩
    rw [if_neg hround, if_neg hround]
    by_cases hsquare : t.isPunctuation "["
    · rw [if_pos hsquare, if_pos hsquare]
      show Tracks _ (follow (.items .square :: gs) s) _
      exact (ihs.items .square gs).map fun p => ⟨_, rfl, rfl⟩
    rw [if_neg hsquare, if_neg hsquare]
    by_cases hif : t.isKeyword "if"
    · rw [if_pos hif, if_pos hif]
      show Tracks _ (follow (expression ++ (expression ++ .alternative :: gs)) s) _
      refine (ihs.expr _).bind fun p _ => ((ihp p).expr _).bind fun q _ => ?_
      have hq : q.rest.size < (Stream.token t s).size :=
        Nat.lt_trans q.shorter (Nat.lt_succ_of_lt p.shorter)
      split
      · next d hrest =>
        rw [hrest]
        exact .of_error follow_broken rfl
      · next u after hrest =>
        by_cases helse : u.isKeyword "else"
        · have hmeets : Goal.alternative.meets u = .take expression := if_pos helse
          have hfollow : follow (.alternative :: gs) q.rest = follow (expression ++ gs) after := by
            rw [hrest, follow_take hmeets]
          have hafter : after.size < (Stream.token t s).size := by
            rw [hrest] at hq
            exact Nat.lt_trans (Nat.lt_succ_self _) hq
          rw [if_pos helse, hfollow]
          exact ((ih after hafter).expr gs).map fun r => ⟨_, rfl, rfl⟩
        · have hmeets : Goal.alternative.meets u = .skip := if_neg helse
          rw [if_neg helse]
          apply Tracks.of_ok
          rw [hrest, follow_skip hmeets]
      · next last hrest =>
        apply Tracks.of_ok
        rw [hrest, follow_optional rfl]
    rw [if_neg hif, if_neg hif]
    by_cases hloop : t.isKeyword "loop"
    · rw [if_pos hloop, if_pos hloop]
      show Tracks _ (follow (expression ++ (expression ++ gs)) s) _
      exact (ihs.expr _).bind fun p _ => ((ihp p).expr gs).map fun q => ⟨_, rfl, rfl⟩
    rw [if_neg hloop, if_neg hloop]
    by_cases hstuff : t.isKeyword "stuff"
    · rw [if_pos hstuff, if_pos hstuff]
      show Tracks _ (follow (expression ++ (expression ++ gs)) s) _
      exact (ihs.expr _).bind fun p _ => ((ihp p).expr gs).map fun q => ⟨_, rfl, rfl⟩
    rw [if_neg hstuff, if_neg hstuff]
    by_cases hunstuff : t.isKeyword "unstuff"
    · rw [if_pos hunstuff, if_pos hunstuff]
      show Tracks _ (follow (expression ++ gs) s) _
      exact (ihs.expr gs).map fun p => ⟨_, rfl, rfl⟩
    rw [if_neg hunstuff, if_neg hunstuff]
    by_cases htrue : t.isKeyword "true"
    · rw [if_pos htrue, if_pos htrue]
      exact .of_ok rfl
    rw [if_neg htrue, if_neg htrue]
    by_cases hfalse : t.isKeyword "false"
    · rw [if_pos hfalse, if_pos hfalse]
      exact .of_ok rfl
    rw [if_neg hfalse, if_neg hfalse]
    by_cases hfun : t.isKeyword "fun"
    · rw [if_pos hfun, if_pos hfun]
      show Tracks _ (follow (.parameters :: (expression ++ gs)) s) _
      exact (parseNames_tracks s _).bind fun p _ => ((ihp p).expr gs).map fun q => ⟨_, rfl, rfl⟩
    rw [if_neg hfun, if_neg hfun]
    cases hkind : t.kind with
    | number =>
      cases Number.read? t.lexeme with
      | some value => exact .of_ok rfl
      | none => exact .of_error rfl ⟨rfl, rfl⟩
    | string => exact .of_ok rfl
    | identifier => exact .of_ok rfl
    | keyword => exact .of_error rfl ⟨rfl, rfl⟩
    | operator => exact .of_error rfl ⟨rfl, rfl⟩
    | punctuation => exact .of_error rfl ⟨rfl, rfl⟩
    | endOfInput => exact .of_error rfl ⟨rfl, rfl⟩
    | other name => exact .of_error rfl ⟨rfl, rfl⟩

/-- Parsing a list follows its goal. -/
theorem parseItems_tracks (hexpr : ∀ gs, Tracks (parseExpr s) (follow (expression ++ gs) s) (follow gs))
    (b : Bracket) (gs : List Goal) :
    Tracks (parseItems b.close s) (follow (.items b :: gs) s) (follow gs) := by
  rw [parseItems.eq_def]
  cases s with
  | broken d => exact .of_error follow_broken rfl
  | finish last => exact .of_error (follow_needed rfl last) ⟨rfl, rfl⟩
  | token t s =>
    by_cases ht : t.isPunctuation b.close
    · have hmeets : (Goal.items b).meets t = .take [] := if_pos ht
      simp only [if_pos ht]
      exact .of_ok (follow_take hmeets)
    · simp only [if_neg ht, follow_item ht]
      refine (hexpr (.moreItems b :: gs)).bind fun p _ => ?_
      exact ((ih p.rest p.shorter).moreItems b _ gs).map fun q => ⟨_, rfl, rfl⟩

/-- Parsing a primary expression with its calls follows their goals. -/
theorem parsePart_tracks
    (hprimary : ∀ gs, Tracks (parsePrimary s) (follow (.primary :: gs) s) (follow gs)) (gs : List Goal) :
    Tracks (parsePart s) (follow (.primary :: .calls :: gs) s) (follow gs) := by
  rw [parsePart]
  refine (hprimary (.calls :: gs)).bind fun p _ => ?_
  exact ((ih p.rest p.shorter).calls _ gs).map fun q => ⟨_, rfl, rfl⟩

/-- At the lowest floor the infix operations go on as long as there are any. -/
theorem parseExpr_tracks
    (hpart : ∀ gs, Tracks (parsePart s) (follow (.primary :: .calls :: gs) s) (follow gs))
    (gs : List Goal) : Tracks (parseExpr s) (follow (expression ++ gs) s) (follow gs) := by
  rw [parseExpr]
  refine (hpart (.chain :: gs)).bind fun p _ => ?_
  refine ((ih p.rest p.shorter).chain 0 p.value gs).bind fun q hq => ?_
  obtain ⟨_, _, _, hstops⟩ := (parsesSoundly p.rest).chain ⟨q, hq, rfl, rfl⟩
  exact .of_ok (follow_chain hstops)

end Steps

/-- All parsing functions follow their goals, by induction on the length of the stream. -/
theorem parsesAlong (s : Stream) : ParsesAlong s := by
  induction hsize : s.size using Nat.strongRecOn generalizing s with
  | ind n ih =>
    subst hsize
    have ih (s' : Stream) (hs' : s'.size < s.size) : ParsesAlong s' := ih _ hs' s' rfl
    have hprimary := parsePrimary_tracks ih
    have hpart := parsePart_tracks ih hprimary
    have hexpr := parseExpr_tracks ih hpart
    exact {
      primary := hprimary
      calls := parseCalls_tracks ih
      part := hpart
      chain := parseInfix_tracks ih
      expr := hexpr
      moreItems := parseMoreItems_tracks ih
      items := parseItems_tracks ih hexpr }

/-- A program is parsed exactly if all goals are met, and fails where they get stuck. -/
theorem parseProgram_follows (items : List Expr) (s : Stream) :
    (∃ es, parseProgram items s = .ok es) ∧ follow [] s = .accepted ∨
    ∃ d s', parseProgram items s = .error d ∧ follow [] s = .stuck s' ∧ d.ArisesAt s' := by
  induction hsize : s.size using Nat.strongRecOn generalizing s items with
  | ind n ih =>
    subst hsize
    cases s with
    | broken d =>
      rw [parseProgram, follow_broken]
      exact .inr ⟨d, _, rfl, rfl, rfl⟩
    | finish last =>
      rw [parseProgram]
      exact .inl ⟨⟨_, rfl⟩, rfl⟩
    | token t s =>
      have htracks := (parsesAlong (.token t s)).expr []
      rw [List.append_nil, ← follow_program] at htracks
      rw [parseProgram]
      cases hexpr : parseExpr (.token t s) with
      | error d =>
        obtain ⟨s', hs', hd⟩ := htracks.error d hexpr
        exact .inr ⟨d, s', rfl, hs', hd⟩
      | ok p =>
        rw [htracks.ok p hexpr]
        exact ih _ p.shorter (p.value :: items) p.rest rfl

/-- A source is parsed exactly if its tokens meet all goals, and fails where they get stuck. -/
theorem parse_follows (source : String) :
    (∃ e, parse source = .ok e) ∧ follow [] (.ofString source) = .accepted ∨
    ∃ d s, parse source = .error d ∧ follow [] (.ofString source) = .stuck s ∧ d.ArisesAt s := by
  unfold parse
  obtain ⟨⟨es, hes⟩, haccepted⟩ | ⟨d, s, hd, hstuck, harises⟩ :=
    parseProgram_follows [] (.ofString source)
  · rw [hes]
    exact .inl ⟨⟨_, rfl⟩, haccepted⟩
  · rw [hd]
    exact .inr ⟨d, s, rfl, hstuck, harises⟩

end StuffScript
