/-! # Binary64 numbers

A double-precision number is its 64 bits: a sign and a magnitude. A magnitude below `Magnitude.infinite` denotes a whole
number of units of 2⁻¹⁰⁷⁴, the least positive double, so every comparison and conversion of finite doubles is exact
arithmetic on natural numbers. Greater magnitudes have more units, which makes the order of the bits the order of the
numbers. An integer is compared with the integral part of a double, and a tie is broken by the fraction; converting the
integer to a double instead would round it. -/

namespace RecordQuery

-- powers are those that evaluate at once, whatever other instances are in scope
attribute [instance (high + 1), default_instance (high + 1)] instPowNat

namespace Magnitude

/-- The magnitude of the infinities. Greater ones belong to NaN. -/
def infinite : Nat := 0x7FF0000000000000

/-- The units of 2⁻¹⁰⁷⁴ that the magnitude `b` denotes: 52 low bits of fraction under an exponent. -/
def units (b : Nat) : Nat :=
  if b < 2 ^ 52 then b else (2 ^ 52 + b % 2 ^ 52) * 2 ^ (b / 2 ^ 52 - 1)

/-- The least magnitudes are their units. -/
theorem units_of_lt {b : Nat} (h : b < 2 ^ 53) : units b = b := by
  unfold units
  split
  · rfl
  · rw [show b / 2 ^ 52 - 1 = 0 by omega]
    omega

/-- The units of a magnitude by its exponent and its 53 leading bits. -/
theorem units_add (s t : Nat) (h : 2 ^ 52 ≤ t) (h' : t < 2 ^ 53) : units (s * 2 ^ 52 + t) = t * 2 ^ s := by
  unfold units
  rw [if_neg (by omega), show (s * 2 ^ 52 + t) % 2 ^ 52 = t - 2 ^ 52 by omega,
    show (s * 2 ^ 52 + t) / 2 ^ 52 - 1 = s by omega, show 2 ^ 52 + (t - 2 ^ 52) = t by omega]

/-- Every other magnitude has an exponent and 53 leading bits. -/
theorem exists_add {b : Nat} (h : 2 ^ 52 ≤ b) : ∃ s t, b = s * 2 ^ 52 + t ∧ 2 ^ 52 ≤ t ∧ t < 2 ^ 53 :=
  ⟨b / 2 ^ 52 - 1, b % 2 ^ 52 + 2 ^ 52, by omega, by omega, by omega⟩

theorem units_lt_succ (b : Nat) : units b < units (b + 1) := by
  by_cases h : b < 2 ^ 52
  · rw [units_of_lt (by omega), units_of_lt (by omega)]
    omega
  · obtain ⟨s, t, rfl, ht, ht'⟩ := exists_add (Nat.le_of_not_lt h)
    rw [units_add s t ht ht']
    by_cases hc : t + 1 < 2 ^ 53
    · rw [Nat.add_assoc, units_add s (t + 1) (by omega) hc]
      exact Nat.mul_lt_mul_of_pos_right (by omega) (Nat.two_pow_pos s)
    · rw [show s * 2 ^ 52 + t + 1 = (s + 1) * 2 ^ 52 + 2 ^ 52 by omega, units_add (s + 1) (2 ^ 52) (by omega) (by omega),
        show t = 2 ^ 53 - 1 by omega, Nat.pow_succ]
      have := Nat.two_pow_pos s
      omega

/-- Greater magnitudes have more units. -/
theorem units_lt_units {a b : Nat} (h : a < b) : units a < units b := by
  induction b with
  | zero => omega
  | succ b ih =>
    by_cases hb : a = b
    · subst hb
      exact units_lt_succ a
    · exact Nat.lt_trans (ih (by omega)) (units_lt_succ b)

end Magnitude

/-- A double-precision number, given by its bits. -/
structure Binary64 where
  bits : UInt64
  deriving DecidableEq, Repr

namespace Binary64

/-- The double with the given magnitude and sign. -/
def ofMagnitude (negative : Bool) (b : Nat) : Binary64 :=
  ⟨UInt64.ofNat (if negative then 2 ^ 63 + b else b)⟩

/-- Whether the sign bit is set. -/
def isNegative (x : Binary64) : Bool := 2 ^ 63 ≤ x.bits.toNat

/-- The bits without the sign. -/
def magnitude (x : Binary64) : Nat := x.bits.toNat % 2 ^ 63

def isNaN (x : Binary64) : Bool := Magnitude.infinite < x.magnitude

/-- Whether `x` is neither an infinity nor NaN. -/
def isFinite (x : Binary64) : Bool := x.magnitude < Magnitude.infinite

/-- Whether `x` is one of the two zeros. -/
def isZero (x : Binary64) : Bool := x.magnitude == 0

/-- The units of 2⁻¹⁰⁷⁴ that a finite `x` denotes. -/
def units (x : Binary64) : Int :=
  if x.isNegative then -(Magnitude.units x.magnitude : Int) else Magnitude.units x.magnitude

/-- The units in the number one. -/
def one : Int := 2 ^ 1074

/-- The integral part of a finite `x`, toward zero. -/
def whole (x : Binary64) : Int := x.units.tdiv one

/-- What the integral part of a finite `x` leaves, in units of 2⁻¹⁰⁷⁴. It has the sign of `x`. -/
def fraction (x : Binary64) : Int := x.units.tmod one

/-- The two parts of a finite double make up the double. -/
theorem whole_add_fraction (x : Binary64) : one * x.whole + x.fraction = x.units :=
  Int.mul_tdiv_add_tmod x.units one

/-! ### Order -/

/-- The place of `x` among all doubles: its magnitude, negative under a minus sign. The two zeros have one place. -/
def rank (x : Binary64) : Int := if x.isNegative then -(x.magnitude : Int) else x.magnitude

/-- The order of two doubles; NaN has none. -/
def compare (x y : Binary64) : Option Ordering :=
  if x.isNaN || y.isNaN then none else some (Ord.compare x.rank y.rank)

/-- The magnitude of 2⁶³, the least double above every 64-bit integer. -/
def pastIntegers : Int := 0x43E0000000000000

/-- The order of an integer and a double; NaN has none. -/
def compareInt (n : Int64) (x : Binary64) : Option Ordering :=
  if x.isNaN then none
  else if pastIntegers ≤ x.rank then some .lt
  else if x.rank < -pastIntegers then some .gt
  else some ((Ord.compare n.toInt x.whole).then (Ord.compare 0 x.fraction))

end Binary64

end RecordQuery
