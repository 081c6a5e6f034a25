import RecordQuery.Query.Operator

/-! # Query trees

A query is `this`, the records, followed by method calls, each with a lambda whose body is a condition on one record. The
trees are wider than the queries that can be written: any tree may stand on either side of an operator, and those that mean
nothing there are found when a query is evaluated. -/

namespace RecordQuery

/-- The name of a record and the names of the fields that are walked from it. -/
structure Path where
  root : String
  fields : List String
  deriving DecidableEq, Repr

/-- Two parts under a logical operator. -/
structure Junction (α : Type) where
  op : LogicalOp
  left : α
  right : α
  deriving Repr

/-- A function of one record: a name for the record and a body. -/
structure Lambda (α : Type) where
  parameter : String
  body : Junction α
  deriving Repr

/-- A call of a method with a lambda. -/
structure Call (α : Type) where
  method : String
  lambda : Lambda α
  deriving Repr

/-- A tree. The chain is a query: `this` and the calls on it. -/
inductive Expr where
  | empty
  | number (n : Int64)
  | string (s : String)
  | keyword (k : Keyword)
  | identifier (name : String)
  | path (p : Path)
  | negation (p : Path)
  | comparison (op : CompareOp) (left right : Expr)
  | logical (node : Junction Expr)
  | lambda (fn : Lambda Expr)
  | chain (calls : List (Call Expr))

/-- The body of a lambda. -/
abbrev Condition := Junction Expr

/-- The calls of a query in the order in which they are written. No call is `this` alone. -/
abbrev Query := List (Call Expr)

/-- How a message names the kind of a tree. -/
def Expr.kindName : Expr → String
  | .empty => "empty expression"
  | .number _ => "number literal"
  | .string _ => "string literal"
  | .keyword _ => "keyword"
  | .identifier _ => "identifier"
  | .path _ => "member access"
  | .negation _ => "unary comparison"
  | .comparison _ _ _ => "comparison"
  | .logical _ => "logical expression"
  | .lambda _ => "lambda"
  | .chain [] => "'this'"
  | .chain (_ :: _) => "method call"

namespace Condition

/-- A condition alone, as `term && true`. -/
def single (term : Expr) : Condition := ⟨.and, term, .keyword .true⟩

/-- One or more conditions that all have to hold, joined to the left. -/
def all (first : Expr) : List Expr → Condition
  | [] => single first
  | second :: more => more.foldl (fun left right => ⟨.and, .logical left, right⟩) ⟨.and, first, second⟩

/-- One or more conditions of which one has to hold, joined to the left. -/
def any (first : Condition) (more : List Condition) : Condition :=
  more.foldl (fun left right => ⟨.or, .logical left, .logical right⟩) first

end Condition

end RecordQuery
