import StuffScript.Expr
import StuffScript.Token.Stream

/-!
# Parsing

A program is a sequence of expressions. An expression is a chain of parts with infix operators
between them, grouped by how tightly the operators bind; a part is a primary expression with any
number of argument lists after it. Lists stand between brackets with commas between their items, and
one more comma may follow the last.

Every step takes at least one token, which each result carries as a proof, so parsing ends. The first
thing wrong is reported: a character that starts no token as soon as the parser looks at its place,
any other fault at the token that does not fit.
-/

namespace StuffScript

/-- How tightly an infix operator binds; none for what is no infix operator. -/
def infixPower? : String → Option Nat
  | "=" => some 1
  | "||" => some 2
  | "&&" => some 3
  | "<" | ">" | "<=" | ">=" | "==" | "!=" => some 7
  | "+" | "-" => some 10
  | "*" | "/" | "%" => some 20
  | _ => none

/-- How tightly a token binds as an infix operator. -/
def Token.infixPower? (t : Token) : Option Nat :=
  if t.kind = .operator then StuffScript.infixPower? t.lexeme else none

/-- An assignment or an operation, starting where its left side starts. -/
def Expr.joined (left : Expr) (op : String) (right : Expr) : Expr :=
  if op = "=" then .assign left.span left right else .binary left.span left op right

/-- Something parsed, and the stream after it, which has fewer tokens than the bound. -/
structure Parsed (α : Type) (bound : Nat) where
  value : α
  rest : Stream
  shorter : rest.size < bound

namespace Parsed

/-- The same result under a larger bound. -/
def widen {α : Type} {m n : Nat} (p : Parsed α m) (h : m ≤ n) : Parsed α n :=
  ⟨p.value, p.rest, Nat.lt_of_lt_of_le p.shorter h⟩

end Parsed

/-- Take the given punctuation sign. -/
def takePunctuation (sign : String) (s : Stream) : Except Diagnostic (Parsed Unit s.size) :=
  match s with
  | .broken d => .error d
  | .finish last => .error ((Complaint.wantPunctuation sign).located last.position)
  | .token t rest =>
    if t.isPunctuation sign then .ok ⟨(), rest, Nat.lt_succ_self _⟩
    else .error ((Complaint.wantPunctuation sign).located t.position)

/-- Parse the names after the first one, up to the closing bracket. -/
def parseMoreNames (names : List String) (s : Stream) :
    Except Diagnostic (Parsed (List String) s.size) :=
  match s with
  | .broken d => .error d
  | .finish last => .error ((Complaint.wantPunctuation "]").located last.position)
  | .token t rest =>
    if t.isPunctuation "]" then .ok ⟨names.reverse, rest, Nat.lt_succ_self _⟩
    else if t.isPunctuation "," then
      match rest with
      | .broken d => .error d
      | .finish last => .error (Complaint.wantParameter.located last.position)
      | .token t rest =>
        if t.isPunctuation "]" then
          .ok ⟨names.reverse, rest, by simp only [Stream.size]; omega⟩
        else if t.kind = .identifier then do
          let p ← parseMoreNames (t.lexeme :: names) rest
          return p.widen (by simp only [Stream.size]; omega)
        else .error (Complaint.wantParameter.located t.position)
    else .error ((Complaint.wantPunctuation ",").located t.position)
termination_by s.size
decreasing_by simp only [Stream.size]; omega

/-- Parse the parameter names of a function with the brackets around them. -/
def parseNames (s : Stream) : Except Diagnostic (Parsed (List String) s.size) := do
  let ⟨_, s₁, h₁⟩ ← takePunctuation "[" s
  match s₁, h₁ with
  | .broken d, _ => .error d
  | .finish last, _ => .error ((Complaint.wantPunctuation "]").located last.position)
  | .token t rest, h₁ =>
    if t.isPunctuation "]" then
      .ok ⟨[], rest, by simp only [Stream.size] at h₁; omega⟩
    else if t.kind = .identifier then do
      let p ← parseMoreNames [t.lexeme] rest
      return p.widen (by simp only [Stream.size] at h₁; omega)
    else .error (Complaint.wantParameter.located t.position)

mutual

/-- Parse an expression: a part and the infix operations after it. -/
def parseExpr (s : Stream) : Except Diagnostic (Parsed Expr s.size) := do
  let p ← parsePart s
  let q ← parseInfix 0 p.value p.rest
  return q.widen p.shorter
termination_by (s.size, 2)
decreasing_by
  · exact Prod.Lex.right _ (by decide)
  · exact Prod.Lex.left _ _ p.shorter

/-- Extend an expression by the infix operations that bind more tightly than the floor. An assignment
takes further assignments into its right side, every other operator leaves its equals to the left. -/
def parseInfix (floor : Nat) (left : Expr) (s : Stream) :
    Except Diagnostic (Parsed Expr (s.size + 1)) :=
  match s with
  | .broken d => .error d
  | .finish last => .ok ⟨left, .finish last, Nat.lt_succ_self _⟩
  | .token t rest =>
    match t.infixPower? with
    | none => .ok ⟨left, .token t rest, Nat.lt_succ_self _⟩
    | some power =>
      if power ≤ floor then .ok ⟨left, .token t rest, Nat.lt_succ_self _⟩
      else do
        let p ← parsePart rest
        let q ← parseInfix (if t.lexeme = "=" then power - 1 else power) p.value p.rest
        let r ← parseInfix floor (left.joined t.lexeme q.value) q.rest
        return r.widen (by
          have := p.shorter; have := q.shorter; simp only [Stream.size]; omega)
termination_by (s.size, 0)
decreasing_by
  · exact Prod.Lex.left _ _ (Nat.lt_succ_self _)
  · exact Prod.Lex.left _ _ (by have := p.shorter; simp only [Stream.size]; omega)
  · exact Prod.Lex.left _ _ (by
      have := p.shorter; have := q.shorter; simp only [Stream.size]; omega)

/-- Parse a primary expression and the argument lists after it. -/
def parsePart (s : Stream) : Except Diagnostic (Parsed Expr s.size) := do
  let p ← parsePrimary s
  let q ← parseCalls p.value p.rest
  return q.widen p.shorter
termination_by (s.size, 1)
decreasing_by
  · exact Prod.Lex.right _ (by decide)
  · exact Prod.Lex.left _ _ p.shorter

/-- Extend an expression by the calls after it. -/
def parseCalls (callee : Expr) (s : Stream) : Except Diagnostic (Parsed Expr (s.size + 1)) :=
  match s with
  | .broken d => .error d
  | .finish last => .ok ⟨callee, .finish last, Nat.lt_succ_self _⟩
  | .token t rest =>
    if t.isPunctuation "(" then do
      let p ← parseItems ")" rest
      let q ← parseCalls (.call callee.span callee p.value) p.rest
      return q.widen (by have := p.shorter; simp only [Stream.size]; omega)
    else .ok ⟨callee, .token t rest, Nat.lt_succ_self _⟩
termination_by (s.size, 0)
decreasing_by
  · exact Prod.Lex.left _ _ (Nat.lt_succ_self _)
  · exact Prod.Lex.left _ _ (by have := p.shorter; simp only [Stream.size]; omega)

/-- Parse a list whose opening bracket is taken, up to its closing bracket. -/
def parseItems (close : String) (s : Stream) : Except Diagnostic (Parsed (List Expr) s.size) :=
  match s with
  | .broken d => .error d
  | .finish last => .error ((Complaint.wantPunctuation close).located last.position)
  | .token t rest =>
    if t.isPunctuation close then .ok ⟨[], rest, Nat.lt_succ_self _⟩
    else do
      let p ← parseExpr (.token t rest)
      let q ← parseMoreItems close [p.value] p.rest
      return q.widen (Nat.le_of_lt p.shorter)
termination_by (s.size, 3)
decreasing_by
  · exact Prod.Lex.right _ (by decide)
  · exact Prod.Lex.left _ _ p.shorter

/-- Parse the items after the first one; those before are given, the last of them first. -/
def parseMoreItems (close : String) (items : List Expr) (s : Stream) :
    Except Diagnostic (Parsed (List Expr) s.size) :=
  match s with
  | .broken d => .error d
  | .finish last => .error ((Complaint.wantPunctuation close).located last.position)
  | .token t rest =>
    if t.isPunctuation close then .ok ⟨items.reverse, rest, Nat.lt_succ_self _⟩
    else if t.isPunctuation "," then
      match rest with
      | .broken d => .error d
      | .finish last => .error (Complaint.unexpectedEnd.located last.position)
      | .token t rest =>
        if t.isPunctuation close then
          .ok ⟨items.reverse, rest, by simp only [Stream.size]; omega⟩
        else do
          let p ← parseExpr (.token t rest)
          let q ← parseMoreItems close (p.value :: items) p.rest
          return q.widen (by have := p.shorter; simp only [Stream.size] at this ⊢; omega)
    else .error ((Complaint.wantPunctuation ",").located t.position)
termination_by (s.size, 0)
decreasing_by
  · exact Prod.Lex.left _ _ (by simp only [Stream.size]; omega)
  · exact Prod.Lex.left _ _ (by have := p.shorter; simp only [Stream.size] at this ⊢; omega)

/-- Parse a primary expression. No form starts with the word `ret`, which is not reserved: it is a name like
any other, so there is no case for it here. -/
def parsePrimary (s : Stream) : Except Diagnostic (Parsed Expr s.size) :=
  match s with
  | .broken d => .error d
  | .finish last => .error (Complaint.unexpectedEnd.located last.position)
  | .token t rest =>
    if t.isPunctuation "(" then do
      let p ← parseExpr rest
      let q ← takePunctuation ")" p.rest
      return ⟨p.value, q.rest, by
        have := p.shorter; have := q.shorter; simp only [Stream.size]; omega⟩
    else if t.isPunctuation "[" then do
      let p ← parseItems "]" rest
      return ⟨.block t.position p.value, p.rest, Nat.lt_succ_of_lt p.shorter⟩
    else if t.isKeyword "if" then do
      let p ← parseExpr rest
      let q ← parseExpr p.rest
      match hq : q.rest with
      | .broken d => .error d
      | .token u after =>
        if u.isKeyword "else" then do
          let r ← parseExpr after
          return ⟨.ifElse t.position p.value q.value r.value, r.rest, by
            have := p.shorter; have := q.shorter; have := r.shorter
            simp only [Stream.size, hq] at *; omega⟩
        else
          return ⟨.ifThen t.position p.value q.value, q.rest, by
            have := p.shorter; have := q.shorter; simp only [Stream.size]; omega⟩
      | .finish _ =>
        return ⟨.ifThen t.position p.value q.value, q.rest, by
          have := p.shorter; have := q.shorter; simp only [Stream.size]; omega⟩
    else if t.isKeyword "loop" then do
      let p ← parseExpr rest
      let q ← parseExpr p.rest
      return ⟨.loop t.position p.value q.value, q.rest, by
        have := p.shorter; have := q.shorter; simp only [Stream.size]; omega⟩
    else if t.isKeyword "stuff" then do
      let p ← parseExpr rest
      let q ← parseExpr p.rest
      return ⟨.stuff t.position p.value q.value, q.rest, by
        have := p.shorter; have := q.shorter; simp only [Stream.size]; omega⟩
    else if t.isKeyword "unstuff" then do
      let p ← parseExpr rest
      return ⟨.unstuff t.position p.value, p.rest, Nat.lt_succ_of_lt p.shorter⟩
    else if t.isKeyword "true" then
      .ok ⟨.bool t.position true, rest, Nat.lt_succ_self _⟩
    else if t.isKeyword "false" then
      .ok ⟨.bool t.position false, rest, Nat.lt_succ_self _⟩
    else if t.isKeyword "fun" then do
      let p ← parseNames rest
      let q ← parseExpr p.rest
      return ⟨.function t.position p.value q.value, q.rest, by
        have := p.shorter; have := q.shorter; simp only [Stream.size]; omega⟩
    else
      match t.kind with
      | .number =>
        match Number.read? t.lexeme with
        | some value => .ok ⟨.number t.position t.lexeme value, rest, Nat.lt_succ_self _⟩
        | none => .error ((Complaint.badNumber t.lexeme).located t.position)
      | .string => .ok ⟨.string t.position t.lexeme, rest, Nat.lt_succ_self _⟩
      | .identifier => .ok ⟨.ident t.position t.lexeme, rest, Nat.lt_succ_self _⟩
      | kind => .error ((Complaint.unexpectedToken kind t.lexeme).located t.position)
termination_by (s.size, 0)
decreasing_by
  all_goals
    apply Prod.Lex.left
    simp only [Stream.size]
    try have hp := p.shorter
    try have hr := q.shorter
    try simp only [hq, Stream.size] at *
    omega

end

/-- Parse expressions to the end of the stream; those before are given, the last of them first. -/
def parseProgram (items : List Expr) (s : Stream) : Except Diagnostic (List Expr) :=
  match s with
  | .broken d => .error d
  | .finish _ => .ok items.reverse
  | .token t rest => do
    let p ← parseExpr (.token t rest)
    parseProgram (p.value :: items) p.rest
termination_by s.size
decreasing_by exact p.shorter

/-- Parse a source text as a program, a block that starts at the first character. -/
def parse (source : String) : Except Diagnostic Expr := do
  let items ← parseProgram [] (.ofString source)
  return .block ⟨1, 1⟩ items

end StuffScript
