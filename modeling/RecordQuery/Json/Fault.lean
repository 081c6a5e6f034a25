/-! # Faults in JSON text

Why a text is not JSON, and where. While a text is read, the place of a fault is given by the number of bytes that are left
after it; line and column are counted once the reading has stopped. A place counts the bytes of the UTF-8 encoding, and it
may lie inside a character. -/

namespace RecordQuery.Json

/-- Why a text is not JSON. -/
inductive Problem where
  | endInValue
  | endInList
  | endInObject
  | endInString
  | valueExpected
  | wordExpected
  | colonExpected
  | commaOrBracketExpected
  | commaOrBraceExpected
  | keyExpected
  | trailingComma
  | trailingCharacters
  | controlCharacter
  | invalidEscape
  | loneSurrogate
  | unpairedEscape
  | invalidNumber
  | numberOutOfRange
  | tooDeep
  deriving DecidableEq, Repr

/-- The wording of a problem. -/
def Problem.message : Problem → String
  | .endInValue => "EOF while parsing a value"
  | .endInList => "EOF while parsing a list"
  | .endInObject => "EOF while parsing an object"
  | .endInString => "EOF while parsing a string"
  | .valueExpected => "expected value"
  | .wordExpected => "expected ident"
  | .colonExpected => "expected `:`"
  | .commaOrBracketExpected => "expected `,` or `]`"
  | .commaOrBraceExpected => "expected `,` or `\x7d`"
  | .keyExpected => "key must be a string"
  | .trailingComma => "trailing comma"
  | .trailingCharacters => "trailing characters"
  | .controlCharacter => "control character (\\u0000-\\u001F) found while parsing a string"
  | .invalidEscape => "invalid escape"
  | .loneSurrogate => "lone leading surrogate in hex escape"
  | .unpairedEscape => "unexpected end of hex escape"
  | .invalidNumber => "invalid number"
  | .numberOutOfRange => "number out of range"
  | .tooDeep => "recursion limit exceeded"

/-- A problem and the number of bytes left after its place. -/
structure Fault where
  problem : Problem
  left : Nat
  deriving DecidableEq, Repr

/-- The bytes of a text in UTF-8. -/
def byteCount (cs : List Char) : Nat := cs.foldr (fun c n => c.utf8Size + n) 0

/-- The fault placed right before `rest`. -/
def Fault.before (problem : Problem) (rest : List Char) : Fault := ⟨problem, byteCount rest⟩

/-- The fault placed after the first byte of `rest`, or at its end if `rest` is empty. -/
def Fault.upon (problem : Problem) (rest : List Char) : Fault := ⟨problem, byteCount rest - 1⟩

/-- The line and column reached from a line and column after `offset` more bytes. -/
def placeFrom (line column : Nat) : Nat → List Char → Nat × Nat
  | 0, _ => (line, column)
  | offset, [] => (line, column + offset)
  | offset, c :: cs =>
    if c = '\n' then placeFrom (line + 1) 0 (offset - 1) cs
    else if offset < c.utf8Size then (line, column + offset)
    else placeFrom line (column + c.utf8Size) (offset - c.utf8Size) cs

/-- A problem with the line and column of its place: the line counts from one, the column counts the bytes of the line
before the place. -/
structure ReadError where
  problem : Problem
  line : Nat
  column : Nat
  deriving DecidableEq, Repr

/-- The fault placed in the text that it arose in. -/
def Fault.locate (text : List Char) (fault : Fault) : ReadError :=
  let (line, column) := placeFrom 1 0 (byteCount text - fault.left) text
  ⟨fault.problem, line, column⟩

def ReadError.message (e : ReadError) : String := s!"{e.problem.message} at line {e.line} column {e.column}"

/-- What reading the front of a text gives: a result and the rest of the text, or a fault. -/
abbrev Reading (α : Type) := Except Fault (α × List Char)

end RecordQuery.Json
