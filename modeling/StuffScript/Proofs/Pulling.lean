import StuffScript.Proofs.Grammar
import StuffScript.Proofs.Lookahead

/-!
# Parsing that pulls its tokens from a lexer

A parser of streams has all tokens before it, and cannot but end, since every step is handed a shorter
stream. Here the same parser has a lexer with one slot of lookahead instead. Its procedures look at a token,
take it, or pass over it without looking at whether there is one, and they call each other and go round in
loops for as long as they see fit. Nothing in this makes them end.

So a procedure is performed under two bounds: how many rounds each loop may go, and how many activations of
procedures may be nested. It is given up where they are not enough. What it does is noted: each token that it
passes over, each round of a loop that leads to another, each return of a procedure. The main statement here
is `Procedure.perform_extends`: if it is not given up, larger bounds change nothing.
-/

namespace StuffScript

/-- The tokens that a lexer has still to give: the one in its slot, and those from its cursor on. -/
def Lexer.stream (l : Lexer) : Stream :=
  match l.ahead with
  | none => .ofCursor l.cursor
  | some t => if t.kind = .endOfInput then .finish t else .token t (.ofCursor l.cursor)

/-- The lists between brackets, by what their items are: the arguments of a call, the entries of a block, the
parameters of a function. -/
inductive Listing : Type → Type where
  | arguments : Listing Expr
  | entries : Listing Expr
  | parameters : Listing String

/-- The bracket that a list starts with. -/
def Listing.opening {α : Type} : Listing α → String
  | arguments => "("
  | entries => "["
  | parameters => "["

/-- The bracket that a list ends with. -/
def Listing.closing {α : Type} : Listing α → String
  | arguments => ")"
  | entries => "]"
  | parameters => "]"

/-- The procedures of the parser, by what they give: an expression, the infix operations after one, a primary
expression with and without its calls, the forms with a first token of their own, a list and one of its
items, and a sign or a reserved word to be taken. -/
inductive Procedure : Type → Type 1 where
  | expression : Procedure Expr
  | operations (left : Expr) (floor : Nat) : Procedure Expr
  | part : Procedure Expr
  | primary : Procedure Expr
  | block : Procedure Expr
  | conditional : Procedure Expr
  | loop : Procedure Expr
  | stuff : Procedure Expr
  | unstuff : Procedure Expr
  | function : Procedure Expr
  | list {α : Type} (kind : Listing α) : Procedure (List α)
  | item {α : Type} (kind : Listing α) : Procedure α
  | sign (text : String) : Procedure Unit
  | word (text : String) : Procedure Token

/-- What is noted: that the next token was passed over, a round of a loop that leads to another one, and that
a procedure returned with a result; each with the lexer before it, and after it. -/
inductive Pull.Note : Type 1 where
  | passed (l : Lexer)
  | round (before after : Lexer)
  | returned {α : Type} (p : Procedure α) (before after : Lexer)

/-- What pulling tokens comes to: a result, the lexer after it, and the notes. -/
structure Pulled (α : Type) : Type 1 where
  result : Except Diagnostic α
  lexer : Lexer
  notes : List Pull.Note

/-- A computation that pulls tokens from a lexer. It may be given up. -/
def Pull (α : Type) : Type 1 := Lexer → Option (Pulled α)

/-- How a round of a loop ends: the loop goes on, or it is done. -/
inductive Turn (σ α : Type) where
  | again (state : σ)
  | done (a : α)

namespace Pull

variable {α β σ : Type}

/-- Give a result. -/
def pure (a : α) : Pull α := fun l => some ⟨.ok a, l, []⟩

/-- One after another, and the notes of both. An error ends it. -/
def bind (x : Pull α) (f : α → Pull β) : Pull β := fun l =>
  match x l with
  | none => none
  | some ⟨.error d, l, notes⟩ => some ⟨.error d, l, notes⟩
  | some ⟨.ok a, l, notes⟩ => (f a l).map fun r => { r with notes := notes ++ r.notes }

instance : Monad Pull where
  pure := Pull.pure
  bind := Pull.bind

/-- End in an error. -/
def fail (d : Diagnostic) : Pull α := fun l => some ⟨.error d, l, []⟩

/-- Give up. -/
def giveUp : Pull α := fun _ => none

/-- Look at the next token. -/
def look : Pull Token := fun l => some ⟨l.peek.1, l.peek.2, []⟩

/-- Look at the next token; where there is an error, go on with an empty token instead. -/
def glance : Pull Token := fun l =>
  some ⟨.ok (l.peek.1.toOption.getD ⟨.other "", "", ⟨0, 0⟩⟩), l.peek.2, []⟩

/-- Whether the next token is the end of the source. -/
def atEnd : Pull Bool := fun l => some ⟨l.atEnd.1, l.atEnd.2, []⟩

/-- Take the next token. -/
def take : Pull Token := fun l => some ⟨l.next.1, l.next.2, []⟩

/-- Pass over the next token, whether there is one or an error. -/
def pass : Pull Unit := fun l => some ⟨.ok (), l.next.2, [.passed l]⟩

/-- The lexer as it is now. -/
def here : Pull Lexer := fun l => some ⟨.ok l, l, []⟩

/-- Note something about the lexer as it is now. -/
def record (note : Lexer → Note) : Pull Unit := fun l => some ⟨.ok (), l, [note l]⟩

/-- Note that a procedure returns. -/
def returning (p : Procedure α) (x : Pull α) : Pull α := do
  let before ← here
  let a ← x
  record (.returned p before)
  return a

/-- Go round until a round is done, for so many rounds at most. -/
def loop (round : σ → Pull (Turn σ α)) : (rounds : Nat) → σ → Pull α
  | 0, _ => giveUp
  | rounds + 1, state => do
    let before ← here
    match ← round state with
    | .done a => return a
    | .again state => do
      record (.round before)
      loop round rounds state

end Pull

section Procedures

variable (rounds : Nat) (call : {β : Type} → Procedure β → Pull β)

/-- A round of the operations after an expression: one operator and its right side. -/
def operationsRound (floor : Nat) (left : Expr) : Pull (Turn Expr Expr) := do
  let t ← Pull.look
  match t.infixPower? with
  | none => return .done left
  | some power =>
    if power ≤ floor then return .done left
    else do
      Pull.pass
      let next ← call .part
      let right ← call (.operations next (t.rightFloor power))
      return .again (left.joined t.lexeme right)

/-- A round of the calls after an expression: one list of arguments. -/
def callsRound (callee : Expr) : Pull (Turn Expr Expr) := do
  let t ← Pull.look
  if t.isPunctuation "(" then do
    let args ← call (.list .arguments)
    return .again (.call callee.span callee args)
  else return .done callee

/-- Take the comma before an item of a list, unless it is the first. -/
def takeSeparator {α : Type} (items : List α) : Pull Unit :=
  if items.isEmpty then return () else call (.sign ",")

/-- Take an item of a list, unless the list ends here. -/
def takeItem {α : Type} (kind : Listing α) (items : List α) : Pull (Turn (List α) (List α)) := do
  let t ← Pull.look
  if t.isPunctuation kind.closing then return .done items.reverse
  else do
    let a ← call (.item kind)
    return .again (a :: items)

/-- A round of a list: one item, and the comma before it. -/
def listRound {α : Type} (kind : Listing α) (items : List α) : Pull (Turn (List α) (List α)) := do
  let t ← Pull.look
  if t.kind = .endOfInput || t.isPunctuation kind.closing then return .done items.reverse
  else do
    takeSeparator call items
    takeItem call kind items

/-- A round of a program: one expression. -/
def programRound (items : List Expr) : Pull (Turn (List Expr) (List Expr)) := do
  if ← Pull.atEnd then return .done items.reverse
  else do
    let e ← call .expression
    return .again (e :: items)

/-- The expression that a token which was passed over is by itself. -/
def literal (t : Token) : Pull Expr :=
  match t.kind with
  | .number =>
    match Number.read? t.lexeme with
    | some value => return .number t.position t.lexeme value
    | none => Pull.fail ((Complaint.badNumber t.lexeme).located t.position)
  | .string => return .string t.position t.lexeme
  | .identifier => return .ident t.position t.lexeme
  | .endOfInput => Pull.fail (Complaint.unexpectedEnd.located t.position)
  | kind => Pull.fail ((Complaint.unexpectedToken kind t.lexeme).located t.position)

/-- What each procedure does, given how procedures are called. A primary expression has no case for a reserved
word `ret`: a lexer never gives one, but the name instead. -/
def Procedure.body : {α : Type} → Procedure α → Pull α
  | _, .expression => do
    let left ← call .part
    call (.operations left 0)
  | _, .operations left floor => Pull.loop (operationsRound call floor) rounds left
  | _, .part => do
    let callee ← call .primary
    Pull.loop (callsRound call) rounds callee
  | _, .primary => do
    let t ← Pull.look
    if t.isPunctuation "(" then do
      Pull.pass
      let e ← call .expression
      call (.sign ")")
      return e
    else if t.isPunctuation "[" then call .block
    else if t.isKeyword "if" then call .conditional
    else if t.isKeyword "loop" then call .loop
    else if t.isKeyword "stuff" then call .stuff
    else if t.isKeyword "unstuff" then call .unstuff
    else if t.isKeyword "true" || t.isKeyword "false" then do
      Pull.pass
      return .bool t.position (t.lexeme = "true")
    else if t.isKeyword "fun" then call .function
    else do
      Pull.pass
      literal t
  | _, .block => do
    let t ← Pull.glance
    let items ← call (.list .entries)
    return .block t.position items
  | _, .conditional => do
    let t ← call (.word "if")
    let c ← call .expression
    let e ← call .expression
    let u ← Pull.look
    if u.isKeyword "else" then do
      Pull.pass
      let o ← call .expression
      return .ifElse t.position c e o
    else return .ifThen t.position c e
  | _, .loop => do
    let t ← call (.word "loop")
    let c ← call .expression
    let e ← call .expression
    return .loop t.position c e
  | _, .stuff => do
    let t ← call (.word "stuff")
    let b ← call .expression
    let v ← call .expression
    return .stuff t.position b v
  | _, .unstuff => do
    let t ← call (.word "unstuff")
    let b ← call .expression
    return .unstuff t.position b
  | _, .function => do
    let t ← call (.word "fun")
    let names ← call (.list .parameters)
    let e ← call .expression
    return .function t.position names e
  | _, .list kind => do
    call (.sign kind.opening)
    let items ← Pull.loop (listRound call kind) rounds []
    call (.sign kind.closing)
    return items
  | _, .item .arguments => call .expression
  | _, .item .entries => call .expression
  | _, .item .parameters => do
    let t ← Pull.take
    if t.kind = .identifier then return t.lexeme
    else Pull.fail (Complaint.wantParameter.located t.position)
  | _, .sign text => do
    let t ← Pull.look
    if t.isPunctuation text then Pull.pass
    else Pull.fail ((Complaint.wantPunctuation text).located t.position)
  | _, .word text => do
    let t ← Pull.look
    if t.isKeyword text then do
      Pull.pass
      return t
    else Pull.fail ((Complaint.wantKeyword text).located t.position)

end Procedures

/-- Perform a procedure, with so many rounds in each loop and so many activations nested at most. -/
def Procedure.perform (rounds : Nat) : (nested : Nat) → {α : Type} → Procedure α → Pull α
  | 0, _, _ => Pull.giveUp
  | nested + 1, _, p => (p.body rounds (Procedure.perform rounds nested)).returning p

/-- Perform the parsing of a whole program, within the same bounds. -/
def pullProgram (rounds : Nat) : (nested : Nat) → Pull Expr
  | 0 => Pull.giveUp
  | nested + 1 => do
    let items ← Pull.loop (programRound (Procedure.perform rounds nested)) rounds []
    return .block ⟨1, 1⟩ items

section Bounds

/-- Whatever the first computation comes to, the second comes to as well. -/
def Pull.Extends {α : Type} (x y : Pull α) : Prop := ∀ l r, x l = some r → y l = some r

namespace Pull.Extends

variable {α β σ : Type}

/-- A computation extends itself. -/
theorem refl (x : Pull α) : x.Extends x := fun _ _ h => h

/-- Giving up comes to nothing, so that everything extends it. -/
theorem giveUp (x : Pull α) : Pull.giveUp.Extends x := by
  intro l r h
  cases h

/-- One computation after another extends, if each of them does. -/
theorem bind {x y : Pull α} {f g : α → Pull β} (h : x.Extends y) (hf : ∀ a, (f a).Extends (g a)) :
    (x >>= f).Extends (y >>= g) := by
  intro l r hr
  change Pull.bind x f l = some r at hr
  change Pull.bind y g l = some r
  unfold Pull.bind at hr ⊢
  cases hx : x l with
  | none =>
    rw [hx] at hr
    cases hr
  | some p =>
    rw [hx] at hr
    rw [h l p hx]
    obtain ⟨result, l', notes⟩ := p
    cases result with
    | error d => exact hr
    | ok a =>
      obtain ⟨q, hq, rfl⟩ := Option.map_eq_some_iff.mp hr
      exact Option.map_eq_some_iff.mpr ⟨q, hf a l' q hq, rfl⟩

/-- The same decision on both sides. -/
theorem ite {c : Prop} [Decidable c] {x x' y y' : Pull α} (h : x.Extends y) (h' : x'.Extends y') :
    (if c then x else x').Extends (if c then y else y') := by
  split
  · exact h
  · exact h'

/-- Noting the return from a procedure keeps extensions. -/
theorem returning {x y : Pull α} (p : Procedure α) (h : x.Extends y) :
    (x.returning p).Extends (y.returning p) :=
  .bind (.refl _) fun _ => h.bind fun _ => .refl _

/-- A loop may go more rounds, each of which comes to more. -/
theorem loop {round round' : σ → Pull (Turn σ α)} (h : ∀ state, (round state).Extends (round' state))
    {rounds rounds' : Nat} (hrounds : rounds ≤ rounds') (state : σ) :
    (Pull.loop round rounds state).Extends (Pull.loop round' rounds' state) := by
  induction rounds generalizing rounds' state with
  | zero => exact .giveUp _
  | succ rounds ih =>
    obtain ⟨rounds', rfl⟩ := Nat.exists_eq_add_of_lt hrounds
    refine .bind (.refl _) fun before => (h state).bind fun turn => ?_
    cases turn with
    | done a => exact .refl _
    | again state => exact .bind (.refl _) fun _ => ih (Nat.le_add_right _ _) state

end Pull.Extends

variable {rounds rounds' nested nested' : Nat} {call call' : {β : Type} → Procedure β → Pull β}

section Rounds

variable (h : ∀ {β : Type} (p : Procedure β), (call p).Extends (call' p))
include h

/-- A round of operators comes to the same when the procedures that it calls come to more. -/
theorem operationsRound_extends (floor : Nat) (left : Expr) :
    (operationsRound call floor left).Extends (operationsRound call' floor left) := by
  refine .bind (.refl _) fun t => ?_
  cases t.infixPower? with
  | none => exact .refl _
  | some power =>
    exact .ite (.refl _) (.bind (.refl _) fun _ => (h _).bind fun _ => (h _).bind fun _ => .refl _)

/-- A round of calls comes to the same when the procedures that it calls come to more. -/
theorem callsRound_extends (callee : Expr) :
    (callsRound call callee).Extends (callsRound call' callee) :=
  .bind (.refl _) fun _ => .ite ((h _).bind fun _ => .refl _) (.refl _)

/-- A round of a list comes to the same when the procedures that it calls come to more. -/
theorem listRound_extends {α : Type} (kind : Listing α) (items : List α) :
    (listRound call kind items).Extends (listRound call' kind items) := by
  refine .bind (.refl _) fun t => .ite (.refl _) (.bind (.ite (.refl _) (h _)) fun _ => ?_)
  exact .bind (.refl _) fun u => .ite (.refl _) ((h _).bind fun _ => .refl _)

/-- A round of a program comes to the same when the procedures that it calls come to more. -/
theorem programRound_extends (items : List Expr) :
    (programRound call items).Extends (programRound call' items) :=
  .bind (.refl _) fun _ => .ite (.refl _) ((h _).bind fun _ => .refl _)

/-- A procedure comes to the same with more rounds and with procedures that come to more. -/
theorem Procedure.body_extends (hrounds : rounds ≤ rounds') {α : Type} (p : Procedure α) :
    (p.body rounds call).Extends (p.body rounds' call') := by
  cases p with
  | expression => exact (h _).bind fun _ => h _
  | operations left floor => exact .loop (operationsRound_extends h floor) hrounds left
  | part => exact (h _).bind fun callee => .loop (callsRound_extends h) hrounds callee
  | primary =>
    refine .bind (.refl _) fun t => .ite ?_ (.ite (h _) (.ite (h _) (.ite (h _) (.ite (h _) (.ite (h _)
      (.ite (.refl _) (.ite (h _) (.refl _))))))))
    exact .bind (.refl _) fun _ => (h _).bind fun _ => (h _).bind fun _ => .refl _
  | block => exact .bind (.refl _) fun _ => (h _).bind fun _ => .refl _
  | conditional =>
    refine (h _).bind fun _ => (h _).bind fun _ => (h _).bind fun _ => .bind (.refl _) fun _ => ?_
    exact .ite (.bind (.refl _) fun _ => (h _).bind fun _ => .refl _) (.refl _)
  | loop => exact (h _).bind fun _ => (h _).bind fun _ => (h _).bind fun _ => .refl _
  | stuff => exact (h _).bind fun _ => (h _).bind fun _ => (h _).bind fun _ => .refl _
  | unstuff => exact (h _).bind fun _ => (h _).bind fun _ => .refl _
  | function => exact (h _).bind fun _ => (h _).bind fun _ => (h _).bind fun _ => .refl _
  | list kind =>
    refine (h _).bind fun _ => .bind (.loop (listRound_extends h kind) hrounds []) fun _ => ?_
    exact (h _).bind fun _ => .refl _
  | item kind =>
    cases kind with
    | arguments => exact h _
    | entries => exact h _
    | parameters => exact .refl _
  | sign text => exact .refl _
  | word text => exact .refl _

end Rounds

/-- What is not given up comes to the same under larger bounds. -/
theorem Procedure.perform_extends (hrounds : rounds ≤ rounds') (hnested : nested ≤ nested') {α : Type}
    (p : Procedure α) : (p.perform rounds nested).Extends (p.perform rounds' nested') := by
  induction nested generalizing nested' α with
  | zero => exact .giveUp _
  | succ nested ih =>
    obtain ⟨more, rfl⟩ := Nat.exists_eq_add_of_lt hnested
    exact (Procedure.body_extends (fun q => ih (Nat.le_add_right _ _) q) hrounds p).returning p

/-- A program comes to the same with more rounds and more nesting. -/
theorem pullProgram_extends (hrounds : rounds ≤ rounds') (hnested : nested ≤ nested') :
    (pullProgram rounds nested).Extends (pullProgram rounds' nested') := by
  cases nested with
  | zero => exact .giveUp _
  | succ nested =>
    obtain ⟨more, rfl⟩ := Nat.exists_eq_add_of_lt hnested
    have hcall {β : Type} (q : Procedure β) :
        (q.perform rounds nested).Extends (q.perform rounds' (nested + more)) :=
      Procedure.perform_extends hrounds (Nat.le_add_right _ _) q
    exact .bind (.loop (programRound_extends hcall) hrounds []) fun _ => .refl _

end Bounds

end StuffScript
