import RecordQuery.Value.Basic

/-! # Comparing values

Two questions are asked of a pair of values: whether they are equal, and how they are ordered. Equality holds between
values of one type only, where an integer and a double are one type and the order of an object's fields is not looked at.
An order exists between two numbers, two strings and two booleans. -/

namespace RecordQuery.Value

/-- The order of two numbers; NaN has none, and neither has anything but numbers. -/
def numericOrder? : Value → Value → Option Ordering
  | .integer a, .integer b => some (compare a.toInt b.toInt)
  | .float a, .float b => a.compare b
  | .integer a, .float b => Binary64.compareInt a b
  | .float a, .integer b => (Binary64.compareInt b a).map Ordering.swap
  | _, _ => none

/-- The order of two values: numbers by size, strings by their code points, false before true. -/
def order? : Value → Value → Option Ordering
  | .string a, .string b => some (compare a b)
  | .bool a, .bool b => some (compare a b)
  | v, w => numericOrder? v w

mutual

/-- Whether two values are of one type and equal. Two objects are equal if they have equally many fields, each field of
the first equals the field that the second shows under its key, and the first has every key of the second. -/
def strictEq : Value → Value → Bool
  | .null, .null => true
  | .bool a, .bool b => a == b
  | .string a, .string b => a == b
  | .array as, .array bs => strictEqItems as bs
  | .object fs, .object gs =>
    fs.length == gs.length && strictEqFields fs gs && gs.all fun g => (fs.lookup g.1).isSome
  | .null, _ | .bool _, _ | .string _, _ | .array _, _ | .object _, _ => false
  | .integer a, w => numericOrder? (.integer a) w == some .eq
  | .float a, w => numericOrder? (.float a) w == some .eq

/-- Whether two lists are equally long and equal item by item. -/
def strictEqItems : List Value → List Value → Bool
  | [], [] => true
  | a :: as, b :: bs => strictEq a b && strictEqItems as bs
  | _, _ => false

/-- Whether each of the fields equals the first field of its key in `gs`. -/
def strictEqFields : List (String × Value) → List (String × Value) → Bool
  | [], _ => true
  | (key, v) :: fs, gs => (match gs.lookup key with | some w => strictEq v w | none => false) && strictEqFields fs gs

end

mutual

/-- Whether two values are built alike: no integer is a double, and fields are compared in their order. Doubles are
compared as numbers here too, so NaN differs from itself and the two zeros do not differ. -/
def identical : Value → Value → Bool
  | .null, .null => true
  | .bool a, .bool b => a == b
  | .integer a, .integer b => a == b
  | .float a, .float b => a.compare b == some .eq
  | .string a, .string b => a == b
  | .array as, .array bs => identicalItems as bs
  | .object fs, .object gs => identicalFields fs gs
  | _, _ => false

@[inherit_doc identical]
def identicalItems : List Value → List Value → Bool
  | [], [] => true
  | a :: as, b :: bs => identical a b && identicalItems as bs
  | _, _ => false

@[inherit_doc identical]
def identicalFields : List (String × Value) → List (String × Value) → Bool
  | [], [] => true
  | (j, a) :: fs, (k, b) :: gs => j == k && identical a b && identicalFields fs gs
  | _, _ => false

end

end RecordQuery.Value
