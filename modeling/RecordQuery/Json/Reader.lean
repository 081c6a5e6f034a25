import RecordQuery.Json.NumberReader
import RecordQuery.Json.StringReader
import RecordQuery.Value.Fields

/-! # Reading JSON

A text holds one value with blanks around its tokens. Each reader takes the front of a text and leaves the rest. Arrays and
objects may be nested 127 deep, and that depth is what the recursion runs on; the items of an array and the fields of an
object are read one after another, each taking a character or more, so that the length of the whole text bounds every list
and every string in it. -/

namespace RecordQuery.Json

/-- The blanks of JSON. -/
def isSpace (c : Char) : Bool := c == ' ' || c == '\t' || c == '\n' || c == '\r'

/-- The text from its first character that is not blank. -/
def skipSpace (cs : List Char) : List Char := cs.dropWhile isSpace

/-- The value `v` if the text goes on with the given word. -/
def readWord (v : Value) : List Char → List Char → Reading Value
  | [], cs => .ok (v, cs)
  | _ :: _, [] => .error (.before .endInValue [])
  | w :: ws, c :: cs => if c = w then readWord v ws cs else .error (.upon .wordExpected (c :: cs))

section Containers

variable (bound : Nat) (element : List Char → Reading Value)

/-- The items of an array from the next one on, after those in `seen`, the last of which comes first. -/
def readItems (seen : List Value) : Nat → List Char → Reading Value
  | 0, cs => .error (.before .endInList cs)
  | k + 1, cs =>
    match element cs with
    | .error e => .error e
    | .ok (v, rest) =>
      match skipSpace rest with
      | [] => .error (.before .endInList [])
      | ']' :: rest => .ok (.array (v :: seen).reverse, rest)
      | ',' :: rest =>
        match skipSpace rest with
        | [] => .error (.before .endInValue [])
        | ']' :: rest => .error (.upon .trailingComma (']' :: rest))
        | rest => readItems (v :: seen) k rest
      | rest => .error (.upon .commaOrBracketExpected rest)

/-- An array, read after its opening bracket. -/
def readArray (cs : List Char) : Reading Value :=
  match skipSpace cs with
  | [] => .error (.before .endInList [])
  | ']' :: rest => .ok (.array [], rest)
  | cs => readItems element [] (bound + 1) cs

/-- The value of a field, read after its key. -/
def readFieldValue (cs : List Char) : Reading Value :=
  match skipSpace cs with
  | [] => .error (.before .endInObject [])
  | ':' :: rest => element rest
  | rest => .error (.upon .colonExpected rest)

/-- The fields of an object from the next one on, which is read after the quotation mark that opens its key. A key that
comes again takes the new value. -/
def readFields (fields : Fields) : Nat → List Char → Reading Value
  | 0, cs => .error (.before .endInObject cs)
  | k + 1, cs =>
    match readString bound cs with
    | .error e => .error e
    | .ok (key, rest) =>
      match readFieldValue element rest with
      | .error e => .error e
      | .ok (v, rest) =>
        match skipSpace rest with
        | [] => .error (.before .endInObject [])
        | '}' :: rest => .ok (.object (fields.put key v), rest)
        | ',' :: rest =>
          match skipSpace rest with
          | [] => .error (.before .endInValue [])
          | '"' :: rest => readFields (fields.put key v) k rest
          | '}' :: rest => .error (.upon .trailingComma ('}' :: rest))
          | rest => .error (.upon .keyExpected rest)
        | rest => .error (.upon .commaOrBraceExpected rest)

/-- An object, read after its opening brace. -/
def readObject (cs : List Char) : Reading Value :=
  match skipSpace cs with
  | [] => .error (.before .endInObject [])
  | '}' :: rest => .ok (.object [], rest)
  | '"' :: rest => readFields bound element [] (bound + 1) rest
  | rest => .error (.upon .keyExpected rest)

end Containers

/-- A value that stands at the front of a text. The two readers are for an array and an object and get the text with the
bracket that opens it. -/
def readValueWith (bound : Nat) (array object : List Char → Reading Value) (cs : List Char) : Reading Value :=
  match cs with
  | [] => .error (.before .endInValue [])
  | c :: rest =>
    match c with
    | 'n' => readWord .null ['u', 'l', 'l'] rest
    | 't' => readWord (.bool true) ['r', 'u', 'e'] rest
    | 'f' => readWord (.bool false) ['a', 'l', 's', 'e'] rest
    | '-' => readNumber true rest
    | '"' => (readString bound rest).map fun (s, rest) => (.string s, rest)
    | '[' => array cs
    | '{' => object cs
    | c => if c.isDigit then readNumber false cs else .error (.upon .valueExpected cs)

/-- A value at the front of a text after blanks, with at most `depth` nested brackets. -/
def readValue (bound : Nat) : Nat → List Char → Reading Value
  | 0, cs =>
    readValueWith bound (fun cs => .error (.upon .tooDeep cs)) (fun cs => .error (.upon .tooDeep cs)) (skipSpace cs)
  | depth + 1, cs =>
    readValueWith bound (fun cs => readArray bound (readValue bound depth) cs.tail)
      (fun cs => readObject bound (readValue bound depth) cs.tail) (skipSpace cs)

/-- How deep arrays and objects may be nested. -/
def depthLimit : Nat := 127

/-- The value that a whole text holds. -/
def readWhole? (cs : List Char) : Except Fault Value :=
  match readValue cs.length depthLimit cs with
  | .error e => .error e
  | .ok (v, rest) =>
    match skipSpace rest with
    | [] => .ok v
    | rest => .error (.upon .trailingCharacters rest)

/-- The value that a text holds, or the first fault in it. -/
def read (text : String) : Except ReadError Value := (readWhole? text.toList).mapError (·.locate text.toList)

end RecordQuery.Json
