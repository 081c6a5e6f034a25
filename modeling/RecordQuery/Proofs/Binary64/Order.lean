import RecordQuery.Proofs.Binary64.Nearest

/-! The order of an integer and a double is the order of their units, whatever the size of the double: the range
    tests, the integral part and the fraction lose nothing. -/

namespace RecordQuery.Binary64
open Magnitude (units_le_units lt_of_units_lt)

theorem one_pos : 0 < one := by decide +kernel

/-! ### The range tests -/

theorem units_pastIntegers : (Magnitude.units 0x43E0000000000000 : Int) = 2 ^ 63 * one := by decide +kernel

theorem pastIntegers_le_rank {x : Binary64} (h : pastIntegers ≤ x.rank) : 2 ^ 63 * one ≤ x.units := by
  have hunits (hb : 0x43E0000000000000 ≤ x.magnitude) : (2 ^ 63 * one : Int) ≤ Magnitude.units x.magnitude := by
    rw [← units_pastIntegers]
    exact Int.ofNat_le.mpr (units_le_units hb)
  unfold rank at h
  unfold units
  simp only [pastIntegers] at h
  split at h
  · omega
  · rename_i hneg
    rw [if_neg hneg]
    exact hunits (by omega)

theorem rank_lt_pastIntegers {x : Binary64} (h : x.rank < -pastIntegers) : x.units < -(2 ^ 63 * one) := by
  have hunits (hb : 0x43E0000000000000 < x.magnitude) : (2 ^ 63 * one : Int) < Magnitude.units x.magnitude := by
    rw [← units_pastIntegers]
    exact Int.ofNat_lt.mpr (Magnitude.units_lt_units hb)
  unfold rank at h
  unfold units
  simp only [pastIntegers] at h
  split at h
  · rename_i hneg
    have hlt := hunits (by omega)
    rw [if_pos hneg]
    omega
  · omega

/-! ### The integral part and the fraction -/

/-- Two numbers are ordered by their integral parts, then by what these leave of the second. -/
theorem compare_units (n : Int) (x : Binary64) :
    Ord.compare (n * one) x.units = (Ord.compare n x.whole).then (Ord.compare 0 x.fraction) := by
  have hone := one_pos
  have hlo : -one < x.fraction := Int.lt_tmod_of_pos _ hone
  have hhi : x.fraction < one := Int.tmod_lt_of_pos _ hone
  rw [← whole_add_fraction, Int.mul_comm one]
  rcases Int.lt_trichotomy n x.whole with h | h | h
  · have hstep : (n + 1) * one ≤ x.whole * one := Int.mul_le_mul_of_nonneg_right h (Int.le_of_lt hone)
    rw [Int.add_mul, Int.one_mul] at hstep
    rw [Int.compare_eq_lt.mpr h]
    exact Int.compare_eq_lt.mpr (by omega)
  · subst h
    rw [Int.compare_eq_eq.mpr rfl, Ordering.eq_then]
    rcases Int.lt_trichotomy 0 x.fraction with hf | hf | hf
    · rw [Int.compare_eq_lt.mpr hf]
      exact Int.compare_eq_lt.mpr (by omega)
    · rw [← hf, Int.add_zero, Int.compare_eq_eq.mpr rfl]
      rfl
    · rw [Int.compare_eq_gt.mpr hf]
      exact Int.compare_eq_gt.mpr (by omega)
  · have hstep : (x.whole + 1) * one ≤ n * one := Int.mul_le_mul_of_nonneg_right h (Int.le_of_lt hone)
    rw [Int.add_mul, Int.one_mul] at hstep
    rw [Int.compare_eq_gt.mpr h]
    exact Int.compare_eq_gt.mpr (by omega)

theorem compareInt_eq {x : Binary64} (hx : x.isNaN = false) (n : Int64) :
    compareInt n x = some (Ord.compare (n.toInt * one) x.units) := by
  have hone := one_pos
  have hlo : (-2 ^ 63) * one ≤ n.toInt * one := Int.mul_le_mul_of_nonneg_right n.le_toInt (Int.le_of_lt hone)
  have hhi : n.toInt * one < 2 ^ 63 * one := Int.mul_lt_mul_of_pos_right n.toInt_lt hone
  rw [compareInt, hx, if_neg Bool.false_ne_true]
  split
  · rename_i hpast
    have := pastIntegers_le_rank hpast
    rw [Int.compare_eq_lt.mpr (by omega)]
  · split
    · rename_i hpast
      have := rank_lt_pastIntegers hpast
      rw [Int.neg_mul] at hlo
      rw [Int.compare_eq_gt.mpr (by omega)]
    · rw [compare_units]

end RecordQuery.Binary64
