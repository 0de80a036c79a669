import StuffScript.Position
import StuffScript.Text.Quoted

/-!
# Expression trees

The tree of a program. Every node knows where it starts in the source. A number keeps its lexeme
beside its value, so that it is shown as it was written. Any expression can stand as the target of an
assignment and any text as an operator; only evaluation objects to wrong ones.
-/

namespace StuffScript

/-- Where a node starts; line and column zero mean that this is not known. -/
abbrev Span := Position

/-- The span as text, a question mark when it is not known. -/
def Span.text (s : Span) : String :=
  if s.line = 0 && s.col = 0 then "?" else Position.text s

/-- An expression. A program is a block. -/
inductive Expr where
  | number (span : Span) (lexeme : String) (value : Float)
  | string (span : Span) (value : String)
  | bool (span : Span) (value : Bool)
  | ident (span : Span) (name : String)
  | assign (span : Span) (target value : Expr)
  | binary (span : Span) (left : Expr) (op : String) (right : Expr)
  | call (span : Span) (callee : Expr) (args : List Expr)
  | function (span : Span) (params : List String) (body : Expr)
  | ifThen (span : Span) (cond body : Expr)
  | ifElse (span : Span) (cond body other : Expr)
  | loop (span : Span) (cond body : Expr)
  | stuff (span : Span) (base value : Expr)
  | unstuff (span : Span) (base : Expr)
  | block (span : Span) (items : List Expr)

namespace Expr

instance : Inhabited Expr := ⟨.block ⟨0, 0⟩ []⟩

/-- Where an expression starts. -/
def span : Expr → Span
  | number s .. | string s .. | bool s .. | ident s .. | assign s .. | binary s .. | call s ..
  | function s .. | ifThen s .. | ifElse s .. | loop s .. | stuff s .. | unstuff s ..
  | block s .. => s

/-- The name of an expression's form. -/
def formName : Expr → String
  | number .. => "NumberLiteral"
  | string .. => "StringLiteral"
  | bool .. => "BoolLiteral"
  | ident .. => "Identifier"
  | assign .. => "AssignExpr"
  | binary .. => "BinaryExpr"
  | call .. => "CallExpr"
  | function .. => "FunctionLiteral"
  | ifThen .. | ifElse .. => "IfExpr"
  | loop .. => "LoopExpr"
  | stuff .. => "StuffExpr"
  | unstuff .. => "UnstuffExpr"
  | block .. => "Block"

/-- The direct parts of an expression in source order. -/
def children : Expr → List Expr
  | number .. | string .. | bool .. | ident .. => []
  | assign _ target value => [target, value]
  | binary _ left _ right => [left, right]
  | call _ callee args => callee :: args
  | function _ _ body => [body]
  | ifThen _ cond body => [cond, body]
  | ifElse _ cond body other => [cond, body, other]
  | loop _ cond body => [cond, body]
  | stuff _ base value => [base, value]
  | unstuff _ base => [base]
  | block _ items => items

/-- The variable in the brackets of a `stuff` or `unstuff`: the only item of a block. -/
def stuffTarget? : Expr → Option String
  | block _ [ident _ name] => some name
  | _ => none

/-- The name a call is known by: that of its callee when it is a variable. -/
def calleeName : Expr → String
  | ident _ name => name
  | _ => "<anonymous>"

mutual

/-- The tree on one line. -/
def render : Expr → String
  | number _ lexeme _ => "Number(" ++ lexeme ++ ")"
  | string _ value => "String(" ++ Text.quote value ++ ")"
  | bool _ value => if value then "Bool(true)" else "Bool(false)"
  | ident _ name => "Ident(" ++ name ++ ")"
  | assign _ target value => "Assign(" ++ target.render ++ " = " ++ value.render ++ ")"
  | binary _ left op right =>
    "Binary(" ++ left.render ++ " " ++ op ++ " " ++ right.render ++ ")"
  | call _ callee args => "Call(" ++ callee.render ++ ", [" ++ renderItems args ++ "])"
  | function _ params body =>
    "Fun([" ++ ", ".intercalate params ++ "], " ++ body.render ++ ")"
  | ifThen _ cond body => "If(" ++ cond.render ++ ", " ++ body.render ++ ")"
  | ifElse _ cond body other =>
    "If(" ++ cond.render ++ ", " ++ body.render ++ ", " ++ other.render ++ ")"
  | loop _ cond body => "Loop(" ++ cond.render ++ ", " ++ body.render ++ ")"
  | stuff _ base value => "Stuff(" ++ base.render ++ ", " ++ value.render ++ ")"
  | unstuff _ base => "Unstuff(" ++ base.render ++ ")"
  | block _ items => "Block([" ++ renderItems items ++ "])"

/-- Several trees on one line, with commas between. -/
def renderItems : List Expr → String
  | [] => ""
  | [e] => e.render
  | e :: es => e.render ++ ", " ++ renderItems es

end

mutual

/-- An expression and all its parts, each before its own parts. -/
def preorder : Expr → List Expr
  | e@(number ..) | e@(string ..) | e@(bool ..) | e@(ident ..) => [e]
  | e@(assign _ target value) => e :: (target.preorder ++ value.preorder)
  | e@(binary _ left _ right) => e :: (left.preorder ++ right.preorder)
  | e@(call _ callee args) => e :: (callee.preorder ++ preorderItems args)
  | e@(function _ _ body) => e :: body.preorder
  | e@(ifThen _ cond body) => e :: (cond.preorder ++ body.preorder)
  | e@(ifElse _ cond body other) => e :: (cond.preorder ++ body.preorder ++ other.preorder)
  | e@(loop _ cond body) => e :: (cond.preorder ++ body.preorder)
  | e@(stuff _ base value) => e :: (base.preorder ++ value.preorder)
  | e@(unstuff _ base) => e :: base.preorder
  | e@(block _ items) => e :: preorderItems items

/-- Several expressions and all their parts. -/
def preorderItems : List Expr → List Expr
  | [] => []
  | e :: es => e.preorder ++ preorderItems es

end

/-- An expression comes before the parts of its children. -/
theorem preorder_eq (e : Expr) : e.preorder = e :: e.children.flatMap preorder := by
  have hitems (es : List Expr) : preorderItems es = es.flatMap preorder := by
    induction es with
    | nil => rfl
    | cons e es ih => rw [preorderItems, ih, List.flatMap_cons]
  cases e <;> simp [preorder, children, hitems]

end Expr

end StuffScript
