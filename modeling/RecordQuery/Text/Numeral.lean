/-! # Decimal numerals

Reading and writing whole numbers in decimal. `Int64` is the range of integers that the query language and its records
have; a numeral outside of it is no integer there. -/

namespace RecordQuery.Text

/-- The number that a list of decimal digits denotes. -/
def natOfDigits (ds : List Char) : Nat := Nat.ofDigitChars 10 ds 0

/-- The digits of `n`, without leading zeros. -/
def digitsOfNat (n : Nat) : List Char := Nat.toDigits 10 n

/-- The numeral of `n`: its digits, after a minus sign if it is negative. -/
def numeralOfInt : Int → List Char
  | .ofNat n => digitsOfNat n
  | .negSucc n => '-' :: digitsOfNat (n + 1)

/-- `n` as a 64-bit integer, if it is in range. -/
def int64? (n : Int) : Option Int64 :=
  if h : Int64.minValue.toInt ≤ n ∧ n ≤ Int64.maxValue.toInt then some (Int64.ofIntLE n h.1 h.2) else none

/-- Whether `ds` is a numeral without a sign: at least one digit and nothing else. -/
def isDigits (ds : List Char) : Bool := !ds.isEmpty && ds.all Char.isDigit

/-- The 64-bit integer that a numeral with an optional sign denotes, if it is one and in range. -/
def readInt64? : List Char → Option Int64
  | '-' :: ds => if isDigits ds then int64? (-(natOfDigits ds : Int)) else none
  | '+' :: ds => if isDigits ds then int64? (natOfDigits ds) else none
  | ds => if isDigits ds then int64? (natOfDigits ds) else none

theorem natOfDigits_digitsOfNat (n : Nat) : natOfDigits (digitsOfNat n) = n :=
  Nat.ofDigitChars_toDigits (by decide) (by decide)

/-- Zeros in front do not change the number. -/
theorem natOfDigits_dropWhile_zero (ds : List Char) : natOfDigits (ds.dropWhile (· == '0')) = natOfDigits ds := by
  induction ds with
  | nil => rfl
  | cons d ds ih =>
    by_cases h : d = '0'
    · subst h
      simpa [natOfDigits, Nat.ofDigitChars] using ih
    · simp [h]

theorem int64?_toInt (n : Int64) : int64? n.toInt = some n := by
  rw [int64?, dif_pos ⟨n.minValue_le_toInt, n.toInt_le⟩, Int64.ofIntLE_toInt]

theorem toInt_of_int64? {n : Int} {i : Int64} (h : int64? n = some i) : i.toInt = n := by
  unfold int64? at h
  split at h
  · cases h; simp
  · cases h

theorem int64?_eq_none_iff {n : Int} : int64? n = none ↔ n < -2 ^ 63 ∨ 2 ^ 63 ≤ n := by
  have lo : Int64.minValue.toInt = -2 ^ 63 := by decide
  have hi : Int64.maxValue.toInt = 2 ^ 63 - 1 := by decide
  unfold int64?
  split <;> simp <;> omega

end RecordQuery.Text
