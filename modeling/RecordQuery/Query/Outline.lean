import RecordQuery.Query.Expr
import RecordQuery.Text.Quoted

/-! # The outline of a query

A query can be shown as a tree of named parts, one part to a line, each indented by four spaces more than the part that it
belongs to. Chained conditions and nested calls are shown as they are grouped. -/

namespace RecordQuery

open Text

/-- A tree of named parts. -/
inductive Outline where
  | leaf (text : String)
  | wrap (name : String) (inner : Outline)
  | record (name : String) (fields : List (String × Outline))

namespace Outline

/-- The start of a line at a depth. -/
def line (depth : Nat) : String := "\n" ++ String.ofList (List.replicate (4 * depth) ' ')

mutual

/-- The text of an outline at a depth. -/
def render (depth : Nat) : Outline → String
  | .leaf text => text
  | .wrap name inner => name ++ "(" ++ line (depth + 1) ++ inner.render (depth + 1) ++ "," ++ line depth ++ ")"
  | .record name fields => name ++ " \x7b" ++ renderFields (depth + 1) fields ++ line depth ++ "\x7d"

/-- The fields of a record, each on lines of its own. -/
def renderFields (depth : Nat) : List (String × Outline) → String
  | [] => ""
  | (name, value) :: fields =>
    line depth ++ name ++ ": " ++ value.render depth ++ "," ++ renderFields depth fields

end

/-- A name in a record of its own. -/
def ofName (name : String) : Outline := .record "Identifier" [("name", .leaf (quoted name))]

/-- A path, each name inside the one before it. -/
def ofNames (name : String) : List String → Outline
  | [] => .record "MemberAccess" [("identifier", ofName name), ("tail", .leaf "None")]
  | next :: more =>
    .record "MemberAccess" [("identifier", ofName name), ("tail", .wrap "Some" (ofNames next more))]

def ofPath (p : Path) : Outline := ofNames p.root p.fields

def ofKeyword : Keyword → Outline
  | .true => .leaf "True"
  | .false => .leaf "False"
  | .null => .leaf "Null"

def ofCompareOp : CompareOp → Outline
  | .equal => .leaf "Equal"
  | .notEqual => .leaf "NotEqual"
  | .less => .leaf "LessThan"
  | .greater => .leaf "GreaterThan"
  | .lessEqual => .leaf "LessEqual"
  | .greaterEqual => .leaf "GreaterEqual"

def ofLogicalOp : LogicalOp → Outline
  | .and => .leaf "And"
  | .or => .leaf "Or"

def ofJunction (op : LogicalOp) (left right : Outline) : Outline :=
  .record "BinaryLogical" [("op", ofLogicalOp op), ("left", left), ("right", right)]

def ofLambda (parameter : String) (body : Outline) : Outline :=
  .record "Lambda" [("parameter", ofName parameter), ("body", body)]

/-- A call on a collection. -/
def ofCall (collection : Outline) (call : String × Outline) : Outline :=
  .wrap "Linq" (.record "Linq" [("collection", collection), ("method", ofName call.1), ("lambda", call.2)])

mutual

/-- The outline of a tree. -/
def ofExpr : Expr → Outline
  | .empty => .leaf "Empty"
  | .number n => .wrap "Number" (.leaf (toString n.toInt))
  | .string s => .wrap "String" (.leaf (quoted s))
  | .keyword k => .wrap "Keyword" (ofKeyword k)
  | .identifier name => .wrap "Identifier" (ofName name)
  | .path p => .wrap "MemberAccess" (ofPath p)
  | .negation p => .record "UnaryCompare" [("op", .leaf "Not"), ("operand", ofPath p)]
  | .comparison op left right =>
    .record "BinaryCompare" [("op", ofCompareOp op), ("left", ofExpr left), ("right", ofExpr right)]
  | .logical ⟨op, left, right⟩ => .wrap "BinaryLogical" (ofJunction op (ofExpr left) (ofExpr right))
  | .lambda ⟨parameter, ⟨op, left, right⟩⟩ =>
    .wrap "Lambda" (ofLambda parameter (ofJunction op (ofExpr left) (ofExpr right)))
  | .chain calls => (ofCalls calls).foldl ofCall (.leaf "This")

/-- The name and the lambda of each call. -/
def ofCalls : List (Call Expr) → List (String × Outline)
  | [] => []
  | ⟨method, ⟨parameter, ⟨op, left, right⟩⟩⟩ :: calls =>
    (method, ofLambda parameter (ofJunction op (ofExpr left) (ofExpr right))) :: ofCalls calls

end

end Outline

/-- The text that shows a query as a tree. -/
def Query.outline (q : Query) : String := (Outline.ofExpr (.chain q)).render 0

end RecordQuery
