import RecordQuery.Binary64.Nearest
import RecordQuery.Text.Numeral
import RecordQuery.Value.Fields

/-! # Documents

JSON as a library holds it that is made for JSON alone. Whole numbers are kept by their sign and reach up to 2⁶⁴, a double
is finite, and an object has one value for each key. A value that goes into a document and comes back is what the document
could hold of it. -/

namespace RecordQuery

/-- A number of a document. -/
inductive Document.Number where
  | natural (n : UInt64)
  | negative (n : Int64)
  | double (x : Binary64)
  deriving DecidableEq, Repr

namespace Document.Number

/-- An integer, kept by its sign. -/
def ofInt64 (n : Int64) : Number := if n < 0 then .negative n else .natural n.toUInt64

/-- A double, if it is a number. -/
def ofBinary64? (x : Binary64) : Option Number := if x.isFinite then some (.double x) else none

/-- The number as a 64-bit integer, if it is a whole number and in range. -/
def int64? : Number → Option Int64
  | .natural n => Text.int64? n.toNat
  | .negative n => some n
  | .double _ => none

/-- The double nearest to the number. -/
def binary64? : Number → Option Binary64
  | .natural n => Binary64.nearest? false n.toNat 0
  | .negative n => Binary64.nearest? true n.toInt.natAbs 0
  | .double x => some x

/-! The greatest whole number of a document is out of range and is rounded up to 2⁶⁴. -/

example : int64? (.natural 18446744073709551615) = none ∧
    binary64? (.natural 18446744073709551615) = some ⟨0x43F0000000000000⟩ := by decide +kernel

end Document.Number

/-- A JSON document. -/
inductive Document where
  | null
  | bool (b : Bool)
  | number (n : Document.Number)
  | string (s : String)
  | array (items : List Document)
  | object (fields : List (String × Document))

/-- A number as a value: a whole number is an integer if it is in range, and the nearest double otherwise. -/
def Document.Number.toValue (n : Number) : Value :=
  match n.int64? with
  | some i => .integer i
  | none =>
    match n.binary64? with
    | some x => .float x
    | none => .null

mutual

/-- The document as a value. -/
def Document.toValue : Document → Value
  | .null => .null
  | .bool b => .bool b
  | .number n => n.toValue
  | .string s => .string s
  | .array items => .array (toValueItems items)
  | .object fields => .object (toValueFields fields)

@[inherit_doc Document.toValue]
def Document.toValueItems : List Document → List Value
  | [] => []
  | d :: ds => d.toValue :: toValueItems ds

@[inherit_doc Document.toValue]
def Document.toValueFields : List (String × Document) → List (String × Value)
  | [] => []
  | (key, d) :: fs => (key, d.toValue) :: toValueFields fs

end

namespace Value

mutual

/-- The value as a document: null for a double that is no number, and the fields of an object collected by their keys. -/
def toDocument : Value → Document
  | .null => .null
  | .bool b => .bool b
  | .integer n => .number (.ofInt64 n)
  | .float x =>
    match Document.Number.ofBinary64? x with
    | some n => .number n
    | none => .null
  | .string s => .string s
  | .array items => .array (toDocumentItems items)
  | .object fields => .object (Fields.collect (toDocumentFields fields))

@[inherit_doc toDocument]
def toDocumentItems : List Value → List Document
  | [] => []
  | v :: vs => v.toDocument :: toDocumentItems vs

@[inherit_doc toDocument]
def toDocumentFields : List (String × Value) → List (String × Document)
  | [] => []
  | (key, v) :: fs => (key, v.toDocument) :: toDocumentFields fs

end

/-- What a document holds of the value. -/
def normal (v : Value) : Value := v.toDocument.toValue

end Value

end RecordQuery
