import Mathlib.Algebra.Order.Field.Rat
import Mathlib.Data.Rat.Floor
import Mathlib.Order.Compare
import Mathlib.Order.WithBot
import Mathlib.Tactic.FieldSimp
import Mathlib.Tactic.Ring
import RecordQuery.Proofs.Binary64.Order

/-! The quantities that doubles denote. A finite double is a rational number, which the fields of its bits spell out,
    and the two infinities are below and above all numbers. The order of two doubles is the order of their
    quantities, and so is the order of an integer and a double. -/

namespace RecordQuery.Binary64
open Magnitude (units_lt_units units_le_units units_of_lt units_add le_units units_infinite)

/-! ### The number of a finite double -/

/-- The 11 bits between the sign and the fraction. -/
def exponentField (x : Binary64) : Nat := x.bits.toNat / 2 ^ 52 % 2 ^ 11

/-- The low 52 bits. -/
def fractionField (x : Binary64) : Nat := x.bits.toNat % 2 ^ 52

/-- The absolute value of a finite double: a significand between one and two times a power of two, or less than one
    times the least power where the exponent field is zero. -/
def absolute (x : Binary64) : ℚ :=
  if x.exponentField = 0 then (2 : ℚ) ^ (-1022 : ℤ) * (x.fractionField / 2 ^ 52)
  else (2 : ℚ) ^ ((x.exponentField : ℤ) - 1023) * (1 + x.fractionField / 2 ^ 52)

/-- The number that a finite double denotes. -/
def toRat (x : Binary64) : ℚ := if x.isNegative then -x.absolute else x.absolute

theorem magnitude_eq (x : Binary64) : x.magnitude = x.exponentField * 2 ^ 52 + x.fractionField := by
  unfold magnitude exponentField fractionField
  omega

theorem units_fields {e f : Nat} (hf : f < 2 ^ 52) :
    Magnitude.units (e * 2 ^ 52 + f) = if e = 0 then f else (2 ^ 52 + f) * 2 ^ (e - 1) := by
  split
  · rename_i he
    rw [he, Nat.zero_mul, Nat.zero_add, units_of_lt (by omega)]
  · rename_i he
    rw [show e * 2 ^ 52 + f = (e - 1) * 2 ^ 52 + (2 ^ 52 + f) by omega, units_add _ _ (by omega) (by omega)]

theorem two_pow_unit : (2 : ℚ) ^ 1074 = 2 ^ 1022 * 2 ^ 52 := by rw [← pow_add]

theorem absolute_eq (x : Binary64) : x.absolute = (Magnitude.units x.magnitude : ℚ) / 2 ^ 1074 := by
  have hfraction : x.fractionField < 2 ^ 52 := Nat.mod_lt _ (by decide)
  rw [magnitude_eq, units_fields hfraction, absolute, two_pow_unit]
  split
  · have hleast : (2 : ℚ) ^ (-1022 : ℤ) = (2 ^ 1022)⁻¹ := by rw [zpow_neg, ← zpow_natCast]; rfl
    rw [hleast]
    field_simp
  · rename_i he
    obtain ⟨k, hk⟩ := Nat.exists_eq_succ_of_ne_zero he
    have hpower : (2 : ℚ) ^ (((k + 1 : ℕ) : ℤ) - 1023) = 2 ^ k / 2 ^ 1022 := by
      rw [show ((k + 1 : ℕ) : ℤ) - 1023 = (k : ℤ) - (1022 : ℕ) by omega, zpow_sub₀ two_ne_zero, zpow_natCast,
        zpow_natCast]
    rw [hk, Nat.succ_sub_one, Nat.succ_eq_add_one, hpower, Nat.cast_mul, Nat.cast_add, Nat.cast_pow, Nat.cast_pow,
      Nat.cast_ofNat]
    field_simp

theorem toRat_eq (x : Binary64) : x.toRat = (x.units : ℚ) / 2 ^ 1074 := by
  rw [toRat, absolute_eq, units]
  split
  · rw [Int.cast_neg, Int.cast_natCast, neg_div]
  · rw [Int.cast_natCast]

theorem cast_one : ((one : Int) : ℚ) = 2 ^ 1074 := by rw [one, Int.cast_pow, Int.cast_ofNat]

theorem intCast_le_toRat {n : Int} {x : Binary64} : (n : ℚ) ≤ x.toRat ↔ n * one ≤ x.units := by
  rw [toRat_eq, le_div_iff₀ (pow_pos two_pos _), ← cast_one, ← Int.cast_mul, Int.cast_le]

theorem toRat_le_intCast {n : Int} {x : Binary64} : x.toRat ≤ n ↔ x.units ≤ n * one := by
  rw [toRat_eq, div_le_iff₀ (pow_pos two_pos _), ← cast_one, ← Int.cast_mul, Int.cast_le]

/-! ### Quantities -/

/-- The number of a finite double; of the infinities one is below and the other above all numbers. -/
def quantity (x : Binary64) : WithBot (WithTop ℚ) :=
  if x.isFinite then ((x.toRat : WithTop ℚ) : WithBot (WithTop ℚ)) else if x.isNegative then ⊥ else ⊤

/-- The units that an infinity would denote. -/
def endless : Int := 2 ^ 1024 * one

/-- The quantity of a number of units, where those of the infinities are the ends. -/
def quantityOf (u : Int) : WithBot (WithTop ℚ) :=
  if u ≤ -endless then ⊥ else if endless ≤ u then ⊤ else (((u : ℚ) / 2 ^ 1074 : ℚ) : WithTop ℚ)

theorem quantityOf_lt {a b : Int} (ha : -endless ≤ a) (hb : b ≤ endless) (hab : a < b) :
    quantityOf a < quantityOf b := by
  have hlo : ¬b ≤ -endless := Int.not_le.mpr (Int.lt_of_le_of_lt ha hab)
  have hhi : ¬endless ≤ a := Int.not_le.mpr (Int.lt_of_lt_of_le hab hb)
  have hone : (0 : ℚ) < 2 ^ 1074 := pow_pos two_pos _
  rw [quantityOf, quantityOf, if_neg hlo, if_neg hhi]
  split
  · split
    · exact WithBot.bot_lt_coe _
    · exact WithBot.bot_lt_coe _
  · split
    · exact WithBot.coe_lt_coe.mpr (WithTop.coe_lt_top _)
    · exact WithBot.coe_lt_coe.mpr (WithTop.coe_lt_coe.mpr (div_lt_div_of_pos_right (Int.cast_lt.mpr hab) hone))

theorem compare_quantityOf {a b : Int} (ha : -endless ≤ a ∧ a ≤ endless) (hb : -endless ≤ b ∧ b ≤ endless) :
    Ord.compare (quantityOf a) (quantityOf b) = Ord.compare a b := by
  rcases Int.lt_trichotomy a b with h | rfl | h
  · rw [Int.compare_eq_lt.mpr h, compare_lt_iff_lt.mpr (quantityOf_lt ha.1 hb.2 h)]
  · rw [Int.compare_eq_eq.mpr rfl, compare_eq_iff_eq.mpr rfl]
  · rw [Int.compare_eq_gt.mpr h, compare_gt_iff_gt.mpr (quantityOf_lt hb.1 ha.2 h)]

theorem endless_eq : (Magnitude.units Magnitude.infinite : Int) = endless := by
  rw [units_infinite]
  decide +kernel

theorem units_le_endless {x : Binary64} (hx : x.isNaN = false) : -endless ≤ x.units ∧ x.units ≤ endless := by
  have hle : x.magnitude ≤ Magnitude.infinite := Nat.le_of_not_lt (of_decide_eq_false hx)
  have hunits : (Magnitude.units x.magnitude : Int) ≤ endless := endless_eq ▸ Int.ofNat_le.mpr (units_le_units hle)
  rw [units]
  split <;> omega

theorem units_lt_endless {x : Binary64} (hx : x.isFinite = true) : -endless < x.units ∧ x.units < endless := by
  have hlt : x.magnitude < Magnitude.infinite := of_decide_eq_true hx
  have hunits : (Magnitude.units x.magnitude : Int) < endless := endless_eq ▸ Int.ofNat_lt.mpr (units_lt_units hlt)
  rw [units]
  split <;> omega

theorem quantity_eq {x : Binary64} (hx : x.isNaN = false) : x.quantity = quantityOf x.units := by
  by_cases hfin : x.isFinite = true
  · obtain ⟨hlo, hhi⟩ := units_lt_endless hfin
    rw [quantity, if_pos hfin, quantityOf, if_neg (Int.not_le.mpr hlo), if_neg (Int.not_le.mpr hhi), toRat_eq]
  · have hmagnitude : x.magnitude = Magnitude.infinite :=
      Nat.le_antisymm (Nat.le_of_not_lt (of_decide_eq_false hx)) (Nat.le_of_not_lt fun h => hfin (decide_eq_true h))
    have hpos : -endless < endless := by decide +kernel
    rw [quantity, if_neg hfin, units, hmagnitude, endless_eq]
    split
    · rw [quantityOf, if_pos (Int.le_refl _)]
    · rw [quantityOf, if_neg (Int.not_le.mpr hpos), if_pos (Int.le_refl _)]

theorem quantity_integer (n : Int64) :
    (((n.toInt : ℚ) : WithTop ℚ) : WithBot (WithTop ℚ)) = quantityOf (n.toInt * one) ∧
      -endless ≤ n.toInt * one ∧ n.toInt * one ≤ endless := by
  have hone := one_pos
  have hlo : -2 ^ 63 * one ≤ n.toInt * one := Int.mul_le_mul_of_nonneg_right n.le_toInt (Int.le_of_lt hone)
  have hhi : n.toInt * one < 2 ^ 63 * one := Int.mul_lt_mul_of_pos_right n.toInt_lt hone
  have hendless : 2 ^ 63 * one < endless := by decide +kernel
  rw [Int.neg_mul] at hlo
  refine ⟨?_, by omega⟩
  rw [quantityOf, if_neg (by omega), if_neg (by omega), Int.cast_mul, cast_one,
    mul_div_cancel_right₀ _ (pow_ne_zero _ two_ne_zero)]

/-! ### The order of doubles -/

theorem units_lt_of_rank_lt {x y : Binary64} (h : x.rank < y.rank) : x.units < y.units := by
  have hx := le_units x.magnitude
  have hy := le_units y.magnitude
  have hxy (hlt : x.magnitude < y.magnitude) := units_lt_units hlt
  have hyx (hlt : y.magnitude < x.magnitude) := units_lt_units hlt
  simp only [rank, units] at h ⊢
  split at h <;> split at h <;> simp only [*, if_true, if_false, Bool.false_eq_true] <;> omega

theorem units_eq_of_rank_eq {x y : Binary64} (h : x.rank = y.rank) : x.units = y.units := by
  have hzero : Magnitude.units 0 = 0 := rfl
  have hmagnitude : x.magnitude = y.magnitude := by
    simp only [rank] at h
    split at h <;> split at h <;> omega
  simp only [rank, units, hmagnitude] at h ⊢
  split at h <;> split at h <;> simp only [*, if_true, if_false, Bool.false_eq_true]
  · rw [show y.magnitude = 0 by omega]; rfl
  · rw [show y.magnitude = 0 by omega]; rfl

theorem units_eq_zero_iff {x : Binary64} : x.units = 0 ↔ x.isZero = true := by
  have hle := le_units x.magnitude
  have hzero : Magnitude.units 0 = 0 := rfl
  rw [isZero, beq_iff_eq, units]
  constructor
  · intro h
    split at h <;> omega
  · intro h
    rw [h, hzero]
    split <;> rfl

/-- Greater bits under a sign are greater numbers. -/
theorem compare_rank (x y : Binary64) : Ord.compare x.rank y.rank = Ord.compare x.units y.units := by
  rcases Int.lt_trichotomy x.rank y.rank with h | h | h
  · rw [Int.compare_eq_lt.mpr h, Int.compare_eq_lt.mpr (units_lt_of_rank_lt h)]
  · rw [Int.compare_eq_eq.mpr h, Int.compare_eq_eq.mpr (units_eq_of_rank_eq h)]
  · rw [Int.compare_eq_gt.mpr h, Int.compare_eq_gt.mpr (units_lt_of_rank_lt h)]

theorem compare_eq_quantity {x y : Binary64} (hx : x.isNaN = false) (hy : y.isNaN = false) :
    compare x y = some (Ord.compare x.quantity y.quantity) := by
  rw [quantity_eq hx, quantity_eq hy, compare_quantityOf (units_le_endless hx) (units_le_endless hy), ← compare_rank,
    compare, hx, hy]
  rfl

theorem compareInt_eq_quantity {x : Binary64} (hx : x.isNaN = false) (n : Int64) :
    compareInt n x = some (Ord.compare (((n.toInt : ℚ) : WithTop ℚ) : WithBot (WithTop ℚ)) x.quantity) := by
  obtain ⟨hn, hmem⟩ := quantity_integer n
  rw [compareInt_eq hx, quantity_eq hx, hn, compare_quantityOf hmem (units_le_endless hx)]

end RecordQuery.Binary64
