import RecordQuery.Evaluation
import RecordQuery.Proofs.Scan.Spaced
import RecordQuery.Text.Numeral

/-! Conditions on records without a syntax: comparisons of a path with a literal, truth values, and the
    connectives between them. A formula has a meaning of its own, and a written form in which a group stands
    only where a disjunction is an operand of a conjunction. -/

namespace RecordQuery
open Text

/-- A value that can be written in a query. -/
inductive Literal where
  | number (n : Int64)
  | string (s : String)
  | keyword (k : Keyword)
  deriving DecidableEq, Repr

/-- A condition on a record. -/
inductive Formula where
  | pathFirst (p : Path) (op : CompareOp) (l : Literal)
  | literalFirst (l : Literal) (op : CompareOp) (p : Path)
  | path (p : Path)
  | literal (l : Literal)
  | negation (p : Path)
  | and (a b : Formula)
  | or (a b : Formula)
  deriving Repr

/-- A `Where` call: the name of its parameter and its condition. -/
structure Clause where
  parameter : String
  condition : Formula
  deriving Repr

/-! ### Meaning -/

/-- The value that is reached from a value through fields: under each name the first field of that name, and
    null as soon as there is none or the value is no object. -/
def fetch : List String → Value → Value
  | [], v => v
  | name :: names, .object fields =>
    match fields.find? fun f => f.1 = name with
    | some f => fetch names f.2
    | none => .null
  | _ :: _, _ => .null

def Literal.value : Literal → Value
  | .number n => .integer n
  | .string s => .string s
  | .keyword .true => .bool true
  | .keyword .false => .bool false
  | .keyword .null => .null

/-- Whether two values stand in a relation: equal or not equal as values of one type, or in order. -/
def CompareOp.relates : CompareOp → Value → Value → Bool
  | .equal, a, b => a.strictEq b
  | .notEqual, a, b => !a.strictEq b
  | .less, a, b => (a.order? b).any fun o => o = .lt
  | .greater, a, b => (a.order? b).any fun o => o = .gt
  | .lessEqual, a, b => (a.order? b).any fun o => o ≠ .gt
  | .greaterEqual, a, b => (a.order? b).any fun o => o ≠ .lt

/-- Whether a record satisfies a condition. -/
def Formula.holds (r : Value) : Formula → Bool
  | .pathFirst p op l => op.relates (fetch p.fields r) l.value
  | .literalFirst l op p => op.relates l.value (fetch p.fields r)
  | .path p => (fetch p.fields r).isTruthy
  | .literal l => l.value.isTruthy
  | .negation p => !(fetch p.fields r).isTruthy
  | .and a b => a.holds r && b.holds r
  | .or a b => a.holds r || b.holds r

/-! ### Written form -/

def nameLexeme (s : String) : Lexeme := ⟨.identifier, s.toList⟩

def operatorLexeme (symbol : String) : Lexeme := ⟨.operator, symbol.toList⟩

def dotLexeme : Lexeme := ⟨.dot, ['.']⟩

def openLexeme : Lexeme := ⟨.openParen, ['(']⟩

def closeLexeme : Lexeme := ⟨.closeParen, [')']⟩

def fieldLexemes (names : List String) : List Lexeme := names.flatMap fun s => [dotLexeme, nameLexeme s]

def Path.lexemes (p : Path) : List Lexeme := nameLexeme p.root :: fieldLexemes p.fields

/-- A negative number is written as a minus sign and its magnitude. -/
def Literal.lexemes : Literal → List Lexeme
  | .number n =>
    let digits : Lexeme := ⟨.number, digitsOfNat n.toInt.natAbs⟩
    if n.toInt < 0 then [⟨.addSub, ['-']⟩, digits] else [digits]
  | .string s => [⟨.string, s.toList⟩]
  | .keyword k => [⟨.keyword, k.word.toList⟩]

def Formula.isOr : Formula → Bool
  | .or _ _ => true
  | _ => false

/-- The written form of a formula as an operand of `&&`. -/
def Formula.grouped (f : Formula) (lexemes : List Lexeme) : List Lexeme :=
  if f.isOr then openLexeme :: (lexemes ++ [closeLexeme]) else lexemes

def Formula.lexemes : Formula → List Lexeme
  | .pathFirst p op l => p.lexemes ++ operatorLexeme op.symbol :: l.lexemes
  | .literalFirst l op p => l.lexemes ++ operatorLexeme op.symbol :: p.lexemes
  | .path p => p.lexemes
  | .literal l => l.lexemes
  | .negation p => operatorLexeme "!" :: p.lexemes
  | .and a b => a.grouped a.lexemes ++ operatorLexeme "&&" :: b.grouped b.lexemes
  | .or a b => a.lexemes ++ operatorLexeme "||" :: b.lexemes

def Clause.lexemes (c : Clause) : List Lexeme :=
  dotLexeme :: nameLexeme "Where" :: openLexeme :: nameLexeme c.parameter :: operatorLexeme "=>" ::
    (c.condition.lexemes ++ [closeLexeme])

/-- A query is written as `this` with its calls after it. -/
def queryLexemes (clauses : List Clause) : List Lexeme :=
  ⟨.this, ['t', 'h', 'i', 's']⟩ :: clauses.flatMap Clause.lexemes

/-! ### What can be written -/

/-- The names of the path are identifiers. -/
def Path.Writable (p : Path) : Prop := IsName p.root.toList ∧ ∀ s ∈ p.fields, IsName s.toList

/-- A string cannot hold the quotation mark that would end it. -/
def Literal.Writable : Literal → Prop
  | .string s => '"' ∉ s.toList
  | _ => True

def Formula.Writable : Formula → Prop
  | .pathFirst p _ l | .literalFirst l _ p => p.Writable ∧ l.Writable
  | .path p | .negation p => p.Writable
  | .literal l => l.Writable
  | .and a b | .or a b => a.Writable ∧ b.Writable

def Clause.Writable (c : Clause) : Prop := IsName c.parameter.toList ∧ c.condition.Writable

instance : DecidablePred Path.Writable := fun p =>
  inferInstanceAs (Decidable (IsName p.root.toList ∧ ∀ s ∈ p.fields, IsName s.toList))

instance : DecidablePred Literal.Writable
  | .string s => inferInstanceAs (Decidable ('"' ∉ s.toList))
  | .number _ | .keyword _ => inferInstanceAs (Decidable True)

def Formula.decideWritable : (f : Formula) → Decidable f.Writable
  | .pathFirst p _ l | .literalFirst l _ p => inferInstanceAs (Decidable (p.Writable ∧ l.Writable))
  | .path p | .negation p => inferInstanceAs (Decidable p.Writable)
  | .literal l => inferInstanceAs (Decidable l.Writable)
  | .and a b | .or a b => @instDecidableAnd _ _ a.decideWritable b.decideWritable

instance : DecidablePred Formula.Writable := Formula.decideWritable

instance : DecidablePred Clause.Writable := fun c =>
  inferInstanceAs (Decidable (IsName c.parameter.toList ∧ c.condition.Writable))

end RecordQuery
