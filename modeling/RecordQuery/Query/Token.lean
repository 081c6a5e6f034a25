/-! # Tokens

A query is read as a list of tokens, each with its kind, its text and the number of characters before it. -/

namespace RecordQuery

/-- The kinds of tokens. -/
inductive Token.Kind where
  | number
  | string
  | identifier
  | this
  | keyword
  | dot
  | operator
  | punctuation
  | openParen
  | closeParen
  | mulDiv
  | addSub
  | ending
  deriving DecidableEq, Repr

/-- How a message names the kind. -/
def Token.Kind.text : Token.Kind → String
  | .number => "number"
  | .string => "string"
  | .identifier => "identifier"
  | .this => "'this'"
  | .keyword => "keyword"
  | .dot => "'.'"
  | .operator => "operator"
  | .punctuation => "punctuation"
  | .openParen => "'('"
  | .closeParen => "')'"
  | .mulDiv => "'*' or '/'"
  | .addSub => "'+' or '-'"
  | .ending => "end of input"

/-- A token. The text of a string is what stands between its quotation marks, and the end of a query has no text. -/
structure Token where
  kind : Token.Kind
  text : Option String
  position : Nat
  deriving DecidableEq, Repr

namespace Token

/-- The end of a query of `position` characters. -/
def atEnd (position : Nat) : Token := ⟨.ending, none, position⟩

/-- The token's text, empty if it has none. -/
def lexeme (t : Token) : String := t.text.getD ""

/-- Whether the token is the given operator. -/
def isOperator (t : Token) (symbol : String) : Bool := t.kind == .operator && t.lexeme == symbol

end Token

end RecordQuery
