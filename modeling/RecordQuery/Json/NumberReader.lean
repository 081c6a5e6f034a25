import RecordQuery.Binary64.Nearest
import RecordQuery.Json.Fault
import RecordQuery.Text.Numeral
import RecordQuery.Value.Basic

/-! # Reading numbers

A numeral without a point and an exponent is an integer if it is in the range of one. Every other numeral is the nearest
double, and so is the numeral of the negative zero. A numeral beyond all doubles is refused. Of a numeral that is longer
than any midpoint of two doubles only the first digits are weighed, and what follows them puts it above a midpoint. -/

namespace RecordQuery.Json

open Text

/-- A numeral taken apart: the digits before the point, those after it, and the digits of the exponent with their sign. -/
structure Numeral where
  negative : Bool
  whole : List Char
  fraction : List Char
  exponent : Option (Bool × List Char)
  deriving Repr

/-- The digits at the front of a text, which has one. The end of the text and anything else are faults of their own. -/
def readDigits (atEnd : Problem) (cs : List Char) : Reading (List Char) :=
  match cs with
  | [] => .error (.before atEnd [])
  | c :: _ => if c.isDigit then .ok (cs.takeWhile Char.isDigit, cs.dropWhile Char.isDigit) else .error (.upon .invalidNumber cs)

/-- The digits before the point: a zero stands alone. -/
def readWhole (cs : List Char) : Reading (List Char) :=
  match cs with
  | '0' :: c :: rest => if c.isDigit then .error (.upon .invalidNumber (c :: rest)) else .ok (['0'], c :: rest)
  | _ => readDigits .endInValue cs

/-- The point and the digits after it, if a point stands here. -/
def readFraction : List Char → Reading (List Char)
  | '.' :: cs => readDigits .endInValue cs
  | cs => .ok ([], cs)

/-- Whether a sign of an exponent is a minus sign, and what follows it. -/
def readSign : List Char → Bool × List Char
  | '-' :: cs => (true, cs)
  | '+' :: cs => (false, cs)
  | cs => (false, cs)

/-- The exponent, if one stands here. -/
def readExponent : List Char → Reading (Option (Bool × List Char))
  | c :: cs =>
    if c = 'e' ∨ c = 'E' then
      match readDigits .endInValue (readSign cs).2 with
      | .error e => .error e
      | .ok (ds, rest) => .ok (some ((readSign cs).1, ds), rest)
    else .ok (none, c :: cs)
  | [] => .ok (none, [])

/-- A numeral, read after its minus sign if it has one. -/
def readNumeral (negative : Bool) (cs : List Char) : Reading Numeral :=
  match readWhole cs with
  | .error e => .error e
  | .ok (whole, rest) =>
    match readFraction rest with
    | .error e => .error e
    | .ok (fraction, rest) =>
      match readExponent rest with
      | .error e => .error e
      | .ok (exponent, rest) => .ok (⟨negative, whole, fraction, exponent⟩, rest)

/-- The greatest exponent that is taken into account. -/
def exponentLimit : Nat := 2147483647

/-- How many digits of a numeral are weighed. No midpoint of two doubles has more of them. -/
def digitLimit : Nat := 768

/-- The digits after the first one that takes the number `n` and the digits up to it past the limit. -/
def pastLimit? (n : Nat) : List Char → Option (List Char)
  | [] => none
  | d :: ds =>
    let m := 10 * n + (d.toNat - '0'.toNat)
    if exponentLimit < m then some ds else pastLimit? m ds

namespace Numeral

/-- The digits after the point, up to the last one that is no zero. -/
def decimals (n : Numeral) : List Char := (n.fraction.reverse.dropWhile (· == '0')).reverse

/-- The digits without the point, from the first one that is no zero. The zeros at the end of the whole part stay. -/
def digits (n : Numeral) : List Char := (n.whole ++ n.decimals).dropWhile (· == '0')

/-- The number that the digits form without the point. -/
def significand (n : Numeral) : Nat := natOfDigits n.digits

theorem significand_eq (n : Numeral) : n.significand = natOfDigits (n.whole ++ n.decimals) :=
  natOfDigits_dropWhile_zero _

/-- The power of ten on the significand. -/
def power (n : Numeral) : Int :=
  (match n.exponent with
    | none => 0
    | some (true, ds) => -(natOfDigits ds : Int)
    | some (false, ds) => natOfDigits ds) - n.decimals.length

/-- The nearest double, the even one of two, if there is one. A numeral with more digits than the limit is taken for its
first digits with a one behind them, so it lies above the number of its first digits even where only zeros follow. -/
def double? (n : Numeral) : Option Binary64 :=
  if n.digits.length ≤ digitLimit then Binary64.nearest? n.negative n.significand n.power
  else
    Binary64.nearest? n.negative (10 * natOfDigits (n.digits.take digitLimit) + 1)
      (n.power + (n.digits.length - (digitLimit + 1) : Nat))

/-! The midpoint after `2⁵³` goes to the even side with 768 digits and up with 769, of which the last are zeros. Zeros at
the end of the decimals are none of the digits. -/

example : double? ⟨false, "9007199254740993".toList ++ List.replicate 752 '0', [], some (true, "752".toList)⟩ =
    some ⟨0x4340000000000000⟩ := by decide +kernel
example : double? ⟨false, "9007199254740993".toList ++ List.replicate 753 '0', [], some (true, "753".toList)⟩ =
    some ⟨0x4340000000000001⟩ := by decide +kernel
example : double? ⟨false, "9007199254740993".toList, List.replicate 753 '0', none⟩ =
    some ⟨0x4340000000000000⟩ := by decide +kernel

/-- The integer that the numeral denotes, if it has no point and no exponent and is in range. -/
def integer? (n : Numeral) : Option Int64 :=
  match n.fraction, n.exponent with
  | [], none =>
    if n.negative then (if n.significand = 0 then none else int64? (-(n.significand : Int))) else int64? n.significand
  | _, _ => none

/-- The value of a numeral that stands before `rest`. An exponent past the limit makes the number zero, if it is negative or
the significand is zero, and is refused at the digit that passed the limit otherwise. -/
def value (n : Numeral) (rest : List Char) : Except Fault Value :=
  match n.integer? with
  | some i => .ok (.integer i)
  | none =>
    match n.exponent.bind fun (negative, ds) => (pastLimit? 0 ds).map (negative, ·) with
    | some (negative, later) =>
      if n.significand ≠ 0 ∧ !negative then .error (.before .numberOutOfRange (later ++ rest))
      else .ok (.float (.ofMagnitude n.negative 0))
    | none =>
      match n.double? with
      | some x => .ok (.float x)
      | none => .error (.before .numberOutOfRange rest)

end Numeral

/-- A number, read after its minus sign if it has one. -/
def readNumber (negative : Bool) (cs : List Char) : Reading Value :=
  match readNumeral negative cs with
  | .error e => .error e
  | .ok (numeral, rest) => (numeral.value rest).map (·, rest)

end RecordQuery.Json
