import StuffScript.Expr
import StuffScript.Yaml.Writer

/-!
# Outlines

The outline of an expression is a YAML mapping that names its form and its place and then its parts.
Numbers and truth values are written bare, as they stand in the source; everything else is a string.
-/

namespace StuffScript.Expr

open StuffScript.Yaml (Node)

/-- The entries that every outline starts with. -/
def outlineHead (e : Expr) : List (String × Node) :=
  [("kind", .string e.formName), ("at", .string (Span.text e.span))]

mutual

/-- The entries of an expression's outline. -/
def outline : Expr → List (String × Node)
  | e@(number _ lexeme _) => e.outlineHead ++ [("value", .bare lexeme)]
  | e@(string _ value) => e.outlineHead ++ [("value", .string value)]
  | e@(bool _ value) => e.outlineHead ++ [("value", .bare (if value then "true" else "false"))]
  | e@(ident _ name) => e.outlineHead ++ [("name", .string name)]
  | e@(assign _ target value) =>
    e.outlineHead ++ [("target", .mapping target.outline), ("value", .mapping value.outline)]
  | e@(binary _ left op right) =>
    e.outlineHead ++ [("op", .string op), ("left", .mapping left.outline),
      ("right", .mapping right.outline)]
  | e@(call _ callee args) =>
    e.outlineHead ++ [("callee", .mapping callee.outline), ("args", .sequence (outlines args))]
  | e@(function _ params body) =>
    e.outlineHead ++ [("params", .flow params), ("body", .mapping body.outline)]
  | e@(ifThen _ cond body) =>
    e.outlineHead ++ [("cond", .mapping cond.outline), ("then", .mapping body.outline)]
  | e@(ifElse _ cond body other) =>
    e.outlineHead ++ [("cond", .mapping cond.outline), ("then", .mapping body.outline),
      ("else", .mapping other.outline)]
  | e@(loop _ cond body) =>
    e.outlineHead ++ [("cond", .mapping cond.outline), ("body", .mapping body.outline)]
  | e@(stuff _ base value) =>
    e.outlineHead ++ [("base", .mapping base.outline), ("value", .mapping value.outline)]
  | e@(unstuff _ base) => e.outlineHead ++ [("base", .mapping base.outline)]
  | e@(block _ items) => e.outlineHead ++ [("exprs", .sequence (outlines items))]

/-- The outlines of several expressions. -/
def outlines : List Expr → List Node
  | [] => []
  | e :: es => .mapping e.outline :: outlines es

end

/-- The outline as text. -/
def dump (e : Expr) : String := Yaml.render e.outline

end StuffScript.Expr
