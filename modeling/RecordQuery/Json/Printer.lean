import RecordQuery.Binary64.Numeral
import RecordQuery.Value.Basic

/-! # Writing JSON

A value has one text in each of two layouts: all on one line without any space, or one item or field to a line, indented by
two spaces for each array and object around it. The texts differ in nothing else. -/

namespace RecordQuery.Json

open Text

/-- The two layouts of a text. -/
inductive Layout where
  | compact
  | pretty
  deriving DecidableEq, Repr

/-- What stands before an item `depth` brackets deep and before the bracket that closes them. -/
def Layout.newline : Layout → Nat → List Char
  | .compact, _ => []
  | .pretty, depth => '\n' :: List.replicate (2 * depth) ' '

/-- What stands between a colon and the value of the field. -/
def Layout.gap : Layout → List Char
  | .compact => []
  | .pretty => [' ']

/-- One character inside a string: itself, or an escape for a quote, a backslash and a control character. -/
def escaped (c : Char) : List Char :=
  match c with
  | '"' => ['\\', '"']
  | '\\' => ['\\', '\\']
  | '\n' => ['\\', 'n']
  | '\r' => ['\\', 'r']
  | '\t' => ['\\', 't']
  | '\x08' => ['\\', 'b']
  | '\x0c' => ['\\', 'f']
  | c => if c.toNat < 0x20 then ['\\', 'u', '0', '0', (c.toNat / 16).digitChar, (c.toNat % 16).digitChar] else [c]

/-- A string in quotation marks. -/
def stringText (s : String) : List Char := '"' :: (s.toList.flatMap escaped ++ ['"'])

mutual

/-- The text of a value that stands `depth` brackets deep. -/
def render (layout : Layout) (depth : Nat) : Value → List Char
  | .null => ['n', 'u', 'l', 'l']
  | .bool true => ['t', 'r', 'u', 'e']
  | .bool false => ['f', 'a', 'l', 's', 'e']
  | .integer n => numeralOfInt n.toInt
  | .float x => if x.isFinite then x.numeral else ['n', 'u', 'l', 'l']
  | .string s => stringText s
  | .array [] => ['[', ']']
  | .array (v :: vs) =>
    '[' :: (layout.newline (depth + 1) ++ render layout (depth + 1) v ++ renderItems layout (depth + 1) vs ++
      layout.newline depth ++ [']'])
  | .object [] => ['{', '}']
  | .object ((key, v) :: fs) =>
    '{' :: (layout.newline (depth + 1) ++ stringText key ++ ':' :: layout.gap ++ render layout (depth + 1) v ++
      renderFields layout (depth + 1) fs ++ layout.newline depth ++ ['}'])

/-- The items of an array after its first one, each after a comma. -/
def renderItems (layout : Layout) (depth : Nat) : List Value → List Char
  | [] => []
  | v :: vs => ',' :: (layout.newline depth ++ render layout depth v ++ renderItems layout depth vs)

/-- The fields of an object after its first one, each after a comma. -/
def renderFields (layout : Layout) (depth : Nat) : List (String × Value) → List Char
  | [] => []
  | (key, v) :: fs =>
    ',' :: (layout.newline depth ++ stringText key ++ ':' :: layout.gap ++ render layout depth v ++
      renderFields layout depth fs)

end

end RecordQuery.Json

namespace RecordQuery.Value

/-- The text of the value in the given layout. -/
def toText (layout : Json.Layout) (v : Value) : String := String.ofList (Json.render layout 0 v)

/-- The value as JSON on one line. -/
def toJson (v : Value) : String := v.toText .compact

/-- The value as JSON with one item or field to a line. -/
def toJsonPretty (v : Value) : String := v.toText .pretty

end RecordQuery.Value
