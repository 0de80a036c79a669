import StuffScript.Expr.Outline
import StuffScript.Proofs.Likeness
import Mathlib

/-!
# Reading outlines back

An outline names the form of an expression, its place and its parts, so an expression can be put together
from its outline again. The nodes of an outline are read from the inside out: what a mapping stands for is
known once its entries have been read, and then its form says which of them it takes.

The main statement is `Expr.outline_tells_tree`: reading an outline gives the expression back, but for the
values of its numbers, of which an outline has the lexemes only.
-/

namespace StuffScript

section Places

/-- The place that a text tells, where a question mark tells that it is not known. -/
def Span.ofText? (s : String) : Option Span :=
  if s = "?" then some ⟨0, 0⟩
  else do
    let line ← (String.ofList (s.toList.takeWhile (· ≠ ':'))).toInt?
    let col ← (String.ofList ((s.toList.dropWhile (· ≠ ':')).drop 1)).toInt?
    return ⟨line, col⟩

/-- A number is written with digits, and a minus sign if it is negative. -/
theorem colon_not_mem_repr (n : Int) : ':' ∉ n.repr.toList := by
  have hdigits (k : Nat) : ':' ∉ Nat.toDigits 10 k := by
    intro h
    have hdigit := Nat.isDigit_of_mem_toDigits (by decide) (by decide) h
    cases hdigit
  cases n with
  | ofNat k => simpa [Int.repr] using hdigits k
  | negSucc k => simpa [Int.repr] using hdigits (k + 1)

/-- The text of a place tells the place. -/
theorem Span.ofText?_text (p : Span) : Span.ofText? (Span.text p) = some p := by
  obtain ⟨line, col⟩ := p
  by_cases hzero : line = 0 ∧ col = 0
  · obtain ⟨rfl, rfl⟩ := hzero
    rfl
  · have htext : (Span.text ⟨line, col⟩).toList = line.repr.toList ++ ':' :: col.repr.toList := by
      simp [Span.text, hzero, Position.text]
    have hknown : Span.text ⟨line, col⟩ ≠ "?" := by
      intro h
      have hcolon : ':' ∈ (Span.text ⟨line, col⟩).toList := by simp [htext]
      rw [h] at hcolon
      revert hcolon
      decide
    have hline : ∀ c ∈ line.repr.toList, decide (c ≠ ':') = true := by
      intro c hc
      rw [decide_eq_true_eq]
      rintro rfl
      exact colon_not_mem_repr line hc
    rw [ofText?, if_neg hknown, htext, List.takeWhile_append_of_pos hline,
      List.dropWhile_append_of_pos hline]
    -- The law `Int.toInt?_repr` is in reach of the whole library only.
    simp

end Places

/-- The truth value that a word stands for. -/
def truth? : String → Option Bool
  | "true" => some true
  | "false" => some false
  | _ => none

/-- What a node of an outline is read as. -/
inductive OutlinePart where
  | text (value : String)
  | bare (value : String)
  | names (items : List String)
  | exprs (items : List Expr)
  | expr (e : Expr)

/-- What the entries of an outline are read as. -/
abbrev OutlineParts := List (String × OutlinePart)

namespace OutlineParts

variable (parts : OutlineParts) (key : String)

/-- The text under a key. -/
def text? : Option String :=
  match parts.lookup key with
  | some (.text value) => some value
  | _ => none

/-- The bare text under a key. -/
def bare? : Option String :=
  match parts.lookup key with
  | some (.bare value) => some value
  | _ => none

/-- The names under a key. -/
def names? : Option (List String) :=
  match parts.lookup key with
  | some (.names items) => some items
  | _ => none

/-- The expressions under a key. -/
def exprs? : Option (List Expr) :=
  match parts.lookup key with
  | some (.exprs items) => some items
  | _ => none

/-- The expression under a key. -/
def expr? : Option Expr :=
  match parts.lookup key with
  | some (.expr e) => some e
  | _ => none

/-- The expression of a form at a place. The value of a number is not among its parts. -/
def assemble? (form : String) (span : Span) : Option Expr :=
  match form with
  | "NumberLiteral" => return .number span (← parts.bare? "value") 0.0
  | "StringLiteral" => return .string span (← parts.text? "value")
  | "BoolLiteral" => return .bool span (← truth? (← parts.bare? "value"))
  | "Identifier" => return .ident span (← parts.text? "name")
  | "AssignExpr" => return .assign span (← parts.expr? "target") (← parts.expr? "value")
  | "BinaryExpr" =>
    return .binary span (← parts.expr? "left") (← parts.text? "op") (← parts.expr? "right")
  | "CallExpr" => return .call span (← parts.expr? "callee") (← parts.exprs? "args")
  | "FunctionLiteral" => return .function span (← parts.names? "params") (← parts.expr? "body")
  | "IfExpr" => do
    let cond ← parts.expr? "cond"
    let body ← parts.expr? "then"
    if (parts.lookup "else").isSome then return .ifElse span cond body (← parts.expr? "else")
    else return .ifThen span cond body
  | "LoopExpr" => return .loop span (← parts.expr? "cond") (← parts.expr? "body")
  | "StuffExpr" => return .stuff span (← parts.expr? "base") (← parts.expr? "value")
  | "UnstuffExpr" => return .unstuff span (← parts.expr? "base")
  | "Block" => return .block span (← parts.exprs? "exprs")
  | _ => none

/-- The expression that has these parts, its form and its place among them. -/
def toExpr? : Option Expr := do
  let form ← parts.text? "kind"
  let span ← Span.ofText? (← parts.text? "at")
  parts.assemble? form span

end OutlineParts

mutual

/-- Read a node of an outline. -/
def OutlinePart.ofNode? : Yaml.Node → Option OutlinePart
  | .string value => some (.text value)
  | .bare value => some (.bare value)
  | .flow items => some (.names items)
  | .sequence items => (OutlinePart.ofItems? items).map .exprs
  | .mapping entries => ((OutlineParts.ofEntries? entries).bind OutlineParts.toExpr?).map .expr

/-- Read the entries of a mapping. -/
def OutlineParts.ofEntries? : List (String × Yaml.Node) → Option OutlineParts
  | [] => some []
  | (key, node) :: rest => do
    let part ← OutlinePart.ofNode? node
    let parts ← OutlineParts.ofEntries? rest
    return (key, part) :: parts

/-- Read the items of a sequence, which have to be expressions. -/
def OutlinePart.ofItems? : List Yaml.Node → Option (List Expr)
  | [] => some []
  | node :: rest => do
    let .expr e ← OutlinePart.ofNode? node | none
    let es ← OutlinePart.ofItems? rest
    return e :: es

end

namespace Expr

/-- Read an expression from its outline. -/
def ofOutline? (entries : List (String × Yaml.Node)) : Option Expr :=
  (OutlineParts.ofEntries? entries).bind OutlineParts.toExpr?

mutual

/-- The expression with zero for the value of every number in it. -/
def withoutValues : Expr → Expr
  | number span lexeme _ => number span lexeme 0.0
  | string span value => string span value
  | bool span value => bool span value
  | ident span name => ident span name
  | assign span target value => assign span target.withoutValues value.withoutValues
  | binary span left op right => binary span left.withoutValues op right.withoutValues
  | call span callee args => call span callee.withoutValues (withoutValuesItems args)
  | function span params body => function span params body.withoutValues
  | ifThen span cond body => ifThen span cond.withoutValues body.withoutValues
  | ifElse span cond body other =>
    ifElse span cond.withoutValues body.withoutValues other.withoutValues
  | loop span cond body => loop span cond.withoutValues body.withoutValues
  | stuff span base value => stuff span base.withoutValues value.withoutValues
  | unstuff span base => unstuff span base.withoutValues
  | block span items => block span (withoutValuesItems items)

/-- Several expressions with zero for the values of numbers. -/
def withoutValuesItems : List Expr → List Expr
  | [] => []
  | e :: es => e.withoutValues :: withoutValuesItems es

end

section Reading

open OutlinePart (ofNode? ofItems?)
open OutlineParts (ofEntries? toExpr?)

/-- Entries are read one after another. -/
theorem ofEntries?_cons {key : String} {node : Yaml.Node} {rest : List (String × Yaml.Node)}
    {part : OutlinePart} {parts : OutlineParts} (hnode : ofNode? node = some part)
    (hrest : ofEntries? rest = some parts) :
    ofEntries? ((key, node) :: rest) = some ((key, part) :: parts) := by
  rw [ofEntries?, hnode, hrest]
  rfl

/-- Every outline starts with a form and a place, which say how to go on. -/
theorem ofOutline?_head (e : Expr) {rest : List (String × Yaml.Node)} {parts : OutlineParts}
    (hrest : ofEntries? rest = some parts) :
    ofOutline? (e.outlineHead ++ rest) =
      OutlineParts.assemble? (("kind", .text e.formName) :: ("at", .text (Span.text e.span)) :: parts)
        e.formName e.span := by
  have hentries : ofEntries?
      (("kind", .string e.formName) :: ("at", .string (Span.text e.span)) :: rest) =
        some (("kind", .text e.formName) :: ("at", .text (Span.text e.span)) :: parts) :=
    ofEntries?_cons rfl (ofEntries?_cons rfl hrest)
  rw [outlineHead, ofOutline?, List.cons_append, List.cons_append, List.nil_append, hentries]
  simp [toExpr?, OutlineParts.text?, List.lookup_cons, Span.ofText?_text]

/-- Several expressions are read one by one. -/
theorem ofItems?_outlines {es : List Expr}
    (h : ∀ e ∈ es, ofNode? (.mapping e.outline) = some (.expr e.withoutValues)) :
    ofItems? (outlines es) = some (withoutValuesItems es) := by
  induction es with
  | nil => rfl
  | cons e es ih =>
    obtain ⟨he, hes⟩ := List.forall_mem_cons.mp h
    rw [outlines, ofItems?, he, ih hes]
    rfl

/-- Reading the outline of an expression gives it back. -/
theorem ofOutline?_outline (e : Expr) : ofOutline? e.outline = some e.withoutValues := by
  induction e using Expr.induction_on_children with
  | step e ih =>
    have hpart (c : Expr) (hc : c ∈ e.children) :
        ofNode? (.mapping c.outline) = some (.expr c.withoutValues) := by
      have hread := ih c hc
      rw [ofOutline?] at hread
      rw [ofNode?, hread, Option.map_some]
    have hitems (es : List Expr) (hes : ∀ c ∈ es, c ∈ e.children) :
        ofNode? (.sequence (outlines es)) = some (.exprs (withoutValuesItems es)) := by
      rw [ofNode?, ofItems?_outlines fun c hc => hpart c (hes c hc), Option.map_some]
    cases e with
    | number span lexeme value =>
      rw [outline, ofOutline?_head _ (ofEntries?_cons rfl rfl)]
      rfl
    | string span value =>
      rw [outline, ofOutline?_head _ (ofEntries?_cons rfl rfl)]
      rfl
    | bool span value =>
      rw [outline, ofOutline?_head _ (ofEntries?_cons rfl rfl)]
      cases value <;> rfl
    | ident span name =>
      rw [outline, ofOutline?_head _ (ofEntries?_cons rfl rfl)]
      rfl
    | assign span target value =>
      have htarget := hpart target (by simp [children])
      have hvalue := hpart value (by simp [children])
      rw [outline, ofOutline?_head _ (ofEntries?_cons htarget (ofEntries?_cons hvalue rfl))]
      rfl
    | binary span left op right =>
      have hleft := hpart left (by simp [children])
      have hright := hpart right (by simp [children])
      rw [outline, ofOutline?_head _
        (ofEntries?_cons rfl (ofEntries?_cons hleft (ofEntries?_cons hright rfl)))]
      rfl
    | call span callee args =>
      have hcallee := hpart callee (by simp [children])
      have hargs := hitems args (by simp +contextual [children])
      rw [outline, ofOutline?_head _ (ofEntries?_cons hcallee (ofEntries?_cons hargs rfl))]
      rfl
    | function span params body =>
      have hbody := hpart body (by simp [children])
      rw [outline, ofOutline?_head _ (ofEntries?_cons rfl (ofEntries?_cons hbody rfl))]
      rfl
    | ifThen span cond body =>
      have hcond := hpart cond (by simp [children])
      have hbody := hpart body (by simp [children])
      rw [outline, ofOutline?_head _ (ofEntries?_cons hcond (ofEntries?_cons hbody rfl))]
      rfl
    | ifElse span cond body other =>
      have hcond := hpart cond (by simp [children])
      have hbody := hpart body (by simp [children])
      have hother := hpart other (by simp [children])
      rw [outline, ofOutline?_head _
        (ofEntries?_cons hcond (ofEntries?_cons hbody (ofEntries?_cons hother rfl)))]
      rfl
    | loop span cond body =>
      have hcond := hpart cond (by simp [children])
      have hbody := hpart body (by simp [children])
      rw [outline, ofOutline?_head _ (ofEntries?_cons hcond (ofEntries?_cons hbody rfl))]
      rfl
    | stuff span base value =>
      have hbase := hpart base (by simp [children])
      have hvalue := hpart value (by simp [children])
      rw [outline, ofOutline?_head _ (ofEntries?_cons hbase (ofEntries?_cons hvalue rfl))]
      rfl
    | unstuff span base =>
      have hbase := hpart base (by simp [children])
      rw [outline, ofOutline?_head _ (ofEntries?_cons hbase rfl)]
      rfl
    | block span items =>
      have hitems := hitems items (by simp [children])
      rw [outline, ofOutline?_head _ (ofEntries?_cons hitems rfl)]
      rfl

end Reading

/-- An outline does not tell the values of numbers. -/
theorem outline_withoutValues (e : Expr) : e.withoutValues.outline = e.outline := by
  induction e using Expr.induction_on_children with
  | step e ih =>
    have hitems (es : List Expr) (hes : ∀ c ∈ es, c ∈ e.children) :
        outlines (withoutValuesItems es) = outlines es := by
      induction es with
      | nil => rfl
      | cons c es ihes =>
        obtain ⟨hc, hes⟩ := List.forall_mem_cons.mp hes
        rw [withoutValuesItems, outlines, outlines, ih c hc, ihes hes]
    cases e <;> simp_all [withoutValues, outline, outlineHead, formName, span, children]

/-- **An outline loses nothing but the values of numbers.** Reading the outline of an expression gives it back
with all its forms, places, names, operators, lexemes, texts, truth values and parameters, its arguments and
items in order, and an alternative where it has one. So two expressions have the same outline exactly if they
are equal up to the values of their numbers. -/
theorem outline_tells_tree (e : Expr) : ofOutline? e.outline = some e.withoutValues ∧
    ∀ e' : Expr, e.outline = e'.outline ↔ e.withoutValues = e'.withoutValues := by
  refine ⟨ofOutline?_outline e, fun e' => ⟨fun h => ?_, fun h => ?_⟩⟩
  · have hread := ofOutline?_outline e
    rw [h, ofOutline?_outline e'] at hread
    exact (Option.some.inj hread).symm
  · rw [← outline_withoutValues e, h, outline_withoutValues e']

end Expr

end StuffScript
