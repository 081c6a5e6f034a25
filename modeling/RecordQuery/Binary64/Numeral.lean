import RecordQuery.Binary64.Shortest
import RecordQuery.Text.Numeral

/-! # The numeral of a double

A finite double is written with its shortest digits: positionally from 10⁻⁶ up to 10²¹, and with an exponent outside of
that. Zero has no sign. -/

namespace RecordQuery

open Text

/-- The digits `ds` with a point after the first `n` of them; zeros fill the places between the point and the digits. -/
def positional (ds : List Char) (n : Int) : List Char :=
  if n ≤ 0 then '0' :: '.' :: (List.replicate (-n).toNat '0' ++ ds)
  else if ds.length ≤ n then ds ++ List.replicate (n.toNat - ds.length) '0'
  else ds.take n.toNat ++ '.' :: ds.drop n.toNat

/-- The digits `ds` with a point after the first one, and the exponent that puts the point after the first `n`. -/
def scientific (ds : List Char) (n : Int) : List Char :=
  let fraction := if ds.length ≤ 1 then [] else '.' :: ds.drop 1
  let exponent := if n ≤ 0 then '-' :: digitsOfNat (1 - n).toNat else '+' :: digitsOfNat (n - 1).toNat
  ds.take 1 ++ fraction ++ 'e' :: exponent

namespace Binary64

/-- The magnitudes of the doubles nearest to 10⁻⁶ and 10²¹. -/
def positionalFrom : Nat := 0x3EB0C6F7A0B5ED8D

@[inherit_doc positionalFrom]
def positionalBelow : Nat := 0x444B1AE4D6E2EF50

/-- The numeral of a finite double. -/
def numeral (x : Binary64) : List Char :=
  if x.isZero then ['0']
  else
    let d := Magnitude.shortest x.magnitude
    let ds := digitsOfNat d.digits
    let n := d.exponent + ds.length
    let unsigned :=
      if positionalFrom ≤ x.magnitude ∧ x.magnitude < positionalBelow then positional ds n else scientific ds n
    if x.isNegative then '-' :: unsigned else unsigned

/-! ### The ends of the positional range, and a tie

`2⁻²⁵` lies midway between two decimals of its shortest length, of which the greater one is taken. -/

example : String.ofList (numeral ⟨0x8000000000000000⟩) = "0" := by decide +kernel
example : String.ofList (numeral ⟨0x444B1AE4D6E2EF4F⟩) = "999999999999999900000" := by decide +kernel
example : String.ofList (numeral ⟨0x444B1AE4D6E2EF50⟩) = "1e+21" := by decide +kernel
example : String.ofList (numeral ⟨0xBEB0C6F7A0B5ED8D⟩) = "-0.000001" := by decide +kernel
example : String.ofList (numeral ⟨0x3E7AD7F29ABCAF48⟩) = "1e-7" := by decide +kernel
example : String.ofList (numeral ⟨0x3E60000000000000⟩) = "2.9802322387695313e-8" := by decide +kernel

end Binary64

end RecordQuery
