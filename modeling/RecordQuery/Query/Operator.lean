/-! # Operators and keywords -/

namespace RecordQuery

/-- The comparison operators. -/
inductive CompareOp where
  | equal
  | notEqual
  | less
  | greater
  | lessEqual
  | greaterEqual
  deriving DecidableEq, Repr

def CompareOp.symbol : CompareOp → String
  | .equal => "=="
  | .notEqual => "!="
  | .less => "<"
  | .greater => ">"
  | .lessEqual => "<="
  | .greaterEqual => ">="

/-- The operator that is written so. -/
def CompareOp.ofSymbol? (symbol : String) : Option CompareOp :=
  if symbol = "==" then some .equal
  else if symbol = "!=" then some .notEqual
  else if symbol = "<" then some .less
  else if symbol = ">" then some .greater
  else if symbol = "<=" then some .lessEqual
  else if symbol = ">=" then some .greaterEqual
  else none

/-- The operators that join conditions. -/
inductive LogicalOp where
  | and
  | or
  deriving DecidableEq, Repr

def LogicalOp.symbol : LogicalOp → String
  | .and => "&&"
  | .or => "||"

/-- The reserved words that stand for values. -/
inductive Keyword where
  | true
  | false
  | null
  deriving DecidableEq, Repr

def Keyword.word : Keyword → String
  | .true => "true"
  | .false => "false"
  | .null => "null"

/-- The keyword that is written so. -/
def Keyword.ofWord? (word : String) : Option Keyword :=
  if word = "true" then some .true
  else if word = "false" then some .false
  else if word = "null" then some .null
  else none

theorem CompareOp.ofSymbol?_symbol (op : CompareOp) : ofSymbol? op.symbol = some op := by
  cases op <;> simp [symbol, ofSymbol?]

theorem Keyword.ofWord?_word (k : Keyword) : ofWord? k.word = some k := by
  cases k <;> simp [word, ofWord?]

end RecordQuery
