import Mathlib.Algebra.Order.Field.Rat
import Mathlib.Tactic.FieldSimp
import Mathlib.Tactic.Linarith
import Mathlib.Tactic.Ring
import RecordQuery.Proofs.Binary64.Nearest
import RecordQuery.Proofs.Decimal
import RecordQuery.Proofs.Json.Plain

/-! The numbers that round to a magnitude. They are those between its midpoints to the two neighbours, so whatever lies
    between two of them is one of them, and a greater number does not round to a lesser magnitude. -/

namespace RecordQuery
open Text

/-! ### Decimals -/

namespace Decimal

/-- The number that the decimal denotes. -/
def toRat (d : Decimal) : ℚ := d.digits * 10 ^ d.exponent

/-- How many digits the decimal has. -/
def length (d : Decimal) : Nat := (digitsOfNat d.digits).length

/-- The number is `0.s · 10 ^ n` for the digits `s` of the decimal and this `n`. -/
def point (d : Decimal) : Int := d.exponent + d.length

theorem length_one (n : Int) : length ⟨1, n⟩ = 1 := congrArg List.length (Nat.toDigits_of_lt_base (by decide : 1 < 10))

theorem length_pos (d : Decimal) : 0 < d.length := List.length_pos_iff.mpr (digitsOfNat_ne_nil _)

theorem ten_pow_pos (n : Int) : (0 : ℚ) < 10 ^ n := zpow_pos (by norm_num) n

theorem ten_pow_le {m n : Int} (h : m ≤ n) : (10 : ℚ) ^ m ≤ 10 ^ n := zpow_le_zpow_right₀ (by norm_num) h

theorem lt_of_ten_pow_lt {m n : Int} (h : (10 : ℚ) ^ m < 10 ^ n) : m < n :=
  (zpow_lt_zpow_iff_right₀ (by norm_num)).mp h

theorem ten_pow_eq (n : Int) : (10 : ℚ) ^ n = 10 * 10 ^ (n - 1) := by
  rw [mul_comm, ← zpow_add_one₀ (by norm_num), Int.sub_add_cancel]

theorem toRat_pow (n : Int) : toRat ⟨1, n⟩ = 10 ^ n := by rw [toRat, Nat.cast_one, one_mul]

theorem toRat_le {k l : Nat} {n : Int} (h : k ≤ l) : toRat ⟨k, n⟩ ≤ toRat ⟨l, n⟩ :=
  mul_le_mul_of_nonneg_right (Nat.cast_le.mpr h) (ten_pow_pos n).le

theorem toRat_lt (d : Decimal) : d.toRat < 10 ^ d.point := by
  have hlt : (d.digits : ℚ) < 10 ^ (d.length : Int) := by
    rw [zpow_natCast]
    exact_mod_cast lt_ten_pow_length d.digits
  rw [toRat, point, Int.add_comm, zpow_add₀ (by norm_num)]
  exact mul_lt_mul_of_pos_right hlt (ten_pow_pos _)

theorem le_toRat {d : Decimal} (h : 0 < d.digits) : 10 ^ (d.point - 1) ≤ d.toRat := by
  have hle : (10 : ℚ) ^ ((d.length - 1 : Nat) : Int) ≤ d.digits := by
    rw [zpow_natCast]
    rcases Nat.eq_zero_or_pos (d.length - 1) with h0 | h0
    · rw [h0, pow_zero]
      exact_mod_cast h
    · exact_mod_cast ten_pow_le_of_length h0 (Nat.sub_lt d.length_pos Nat.one_pos)
  have hsplit : d.point - 1 = ((d.length - 1 : Nat) : Int) + d.exponent := by
    have := d.length_pos
    rw [point]
    omega
  rw [toRat, hsplit, zpow_add₀ (by norm_num)]
  exact mul_le_mul_of_nonneg_right hle (ten_pow_pos _).le

/-- What a decimal of one digit is at most, below a power of ten. -/
theorem toRat_le_nine {d : Decimal} {m : Int} (hlen : d.length ≤ 1) (hm : d.exponent < m) :
    d.toRat ≤ 9 * 10 ^ (m - 1) := by
  have hdigits : d.digits < 10 ^ 1 :=
    Nat.lt_of_lt_of_le (lt_ten_pow_length d.digits) (Nat.pow_le_pow_right (by decide) hlen)
  calc d.toRat ≤ (9 : Nat) * 10 ^ d.exponent :=
        mul_le_mul_of_nonneg_right (Nat.cast_le.mpr (by omega)) (ten_pow_pos _).le
    _ ≤ 9 * 10 ^ (m - 1) := mul_le_mul_of_nonneg_left (ten_pow_le (by omega)) (by norm_num)

theorem nine_le (m : Int) : (9 : ℚ) * 10 ^ (m - 1) ≤ 10 ^ m := by
  have := ten_pow_pos (m - 1)
  rw [ten_pow_eq m]
  linarith

/-- Two decimals of one number and one length are the same. -/
theorem eq_of_toRat {d e : Decimal} (hd : 0 < d.digits) (he : 0 < e.digits) (hlen : d.length = e.length)
    (h : d.toRat = e.toRat) : d = e := by
  have hle {a b : Decimal} (ha : 0 < a.digits) (hab : a.toRat = b.toRat) : a.point ≤ b.point := by
    have := lt_of_ten_pow_lt ((le_toRat ha).trans_lt (hab ▸ b.toRat_lt))
    omega
  have hpoint := Int.le_antisymm (hle hd h) (hle he h.symm)
  have hexp : d.exponent = e.exponent := by
    rw [point, point] at hpoint
    omega
  obtain ⟨k, n⟩ := d
  obtain ⟨l, m⟩ := e
  obtain rfl : n = m := hexp
  have hdigits : (k : ℚ) = l := mul_right_cancel₀ (ten_pow_pos n).ne' h
  rw [Nat.cast_injective hdigits]

end Decimal

/-! ### Rounding -/

namespace Magnitude

/-- The number that a magnitude denotes. -/
def toRat (b : Nat) : ℚ := units b / 2 ^ 1074

/-- The midpoint of a magnitude and the one before it. -/
def lower (b : Nat) : ℚ := (toRat (b - 1) + toRat b) / 2

/-- The midpoint of a magnitude and the one after it. -/
def upper (b : Nat) : ℚ := (toRat b + toRat (b + 1)) / 2

/-- Whether `v` is between the midpoints of `b` and its neighbours, or is one of them and `b` is even. -/
def Rounds (v : ℚ) (b : Nat) : Prop := lower b ≤ v ∧ v ≤ upper b ∧ (b % 2 = 1 → lower b ≠ v ∧ v ≠ upper b)

theorem two_pow_pos : (0 : ℚ) < 2 ^ 1074 := pow_pos two_pos _

theorem toRat_lt {a b : Nat} (h : a < b) : toRat a < toRat b :=
  div_lt_div_of_pos_right (Nat.cast_lt.mpr (units_lt_units h)) two_pow_pos

theorem toRat_le {a b : Nat} (h : a ≤ b) : toRat a ≤ toRat b :=
  div_le_div_of_nonneg_right (Nat.cast_le.mpr (units_le_units h)) two_pow_pos.le

theorem lower_lt {b : Nat} (hb : 0 < b) : lower b < toRat b := by
  have := toRat_lt (Nat.sub_lt hb Nat.one_pos)
  rw [lower]
  linarith

theorem lt_upper (b : Nat) : toRat b < upper b := by
  have := toRat_lt (Nat.lt_succ_self b)
  rw [upper]
  linarith

/-- The numbers that round to a magnitude come before those that round to a much greater one. -/
theorem upper_lt_lower {a b : Nat} (h : a + 1 < b) : upper a < lower b := by
  have h1 := toRat_lt h
  have h2 := toRat_le (show a ≤ b - 1 by omega)
  rw [upper, lower]
  linarith

theorem rounds_toRat {b : Nat} (hb : 0 < b) : Rounds (toRat b) b :=
  ⟨(lower_lt hb).le, (lt_upper b).le, fun _ => ⟨(lower_lt hb).ne, (lt_upper b).ne⟩⟩

namespace Rounds
variable {u v w : ℚ} {a b : Nat}

theorem between (hu : Rounds u b) (hw : Rounds w b) (huv : u ≤ v) (hvw : v ≤ w) : Rounds v b := by
  refine ⟨hu.1.trans huv, hvw.trans hw.2.1, fun hodd => ⟨?_, ?_⟩⟩
  · exact ((hu.1.lt_of_ne (hu.2.2 hodd).1).trans_le huv).ne
  · exact (hvw.trans_lt (hw.2.1.lt_of_ne (hw.2.2 hodd).2)).ne

theorem mono (hu : Rounds u a) (hv : Rounds v b) (huv : u ≤ v) : a ≤ b := by
  refine Nat.le_of_not_lt fun hba => ?_
  -- only the midpoint of two neighbours is between both, and it rounds to the even one alone
  rcases Nat.lt_or_eq_of_le (show b + 1 ≤ a from hba) with hfar | rfl
  · have := upper_lt_lower hfar
    linarith [hu.1, hv.2.1]
  · have hmid : lower (b + 1) = upper b := by rw [lower, upper, Nat.add_sub_cancel]
    have hu1 := hu.1
    have hv1 := hv.2.1
    rw [hmid] at hu1
    have hueq : upper b = u := le_antisymm hu1 (huv.trans hv1)
    have hveq : v = upper b := le_antisymm hv1 (hueq ▸ huv)
    rcases Nat.mod_two_eq_zero_or_one b with heven | hodd
    · exact (hu.2.2 (by omega)).1 (hmid.trans hueq)
    · exact (hv.2.2 hodd).2 hveq

end Rounds

/-! ### Decimals that round to a magnitude -/

theorem toRat_decimal (d : Decimal) :
    d.toRat = ((d.digits * (10 ^ d.exponent.toNat * 2 ^ 1074) : Nat) : ℚ) /
      ((10 ^ (-d.exponent).toNat : Nat) * 2 ^ 1074) := by
  have hpow : (10 : ℚ) ^ d.exponent = 10 ^ d.exponent.toNat / 10 ^ (-d.exponent).toNat := by
    rw [← zpow_natCast, ← zpow_natCast, ← zpow_sub₀ (by norm_num), Int.toNat_sub_toNat_neg]
  simp only [Decimal.toRat, hpow, Nat.cast_mul, Nat.cast_pow, Nat.cast_ofNat]
  rw [← mul_assoc, mul_div_mul_right _ _ two_pow_pos.ne', mul_div_assoc]

theorem attractsDecimal_iff {b : Nat} {d : Decimal} : attractsDecimal b d = true ↔ Rounds d.toRat b := by
  have hten : (0 : ℚ) < (10 ^ (-d.exponent).toNat : Nat) := Nat.cast_pos.mpr (Nat.pow_pos (by decide))
  have hone := two_pow_pos
  rw [attractsDecimal, attracts_iff, toRat_decimal, Rounds, lower, upper, toRat, toRat, toRat]
  generalize d.digits * (10 ^ d.exponent.toNat * 2 ^ 1074) = n
  generalize 10 ^ (-d.exponent).toNat = t at *
  generalize (2 : ℚ) ^ 1074 = one at *
  have hmid (k l : Nat) : ((k : ℚ) / one + l / one) / 2 = (((k + l) * t : Nat) : ℚ) / (2 * (t * one)) := by
    push_cast
    field_simp
  have hval : (n : ℚ) / (t * one) = ((2 * n : Nat) : ℚ) / (2 * (t * one)) := by
    push_cast
    field_simp
  have hpos : 0 < 2 * (t * one) := mul_pos two_pos (mul_pos hten hone)
  rw [hmid, hmid, hval]
  simp only [div_le_div_iff_of_pos_right hpos, Nat.cast_le, ne_eq, div_left_inj' hpos.ne', Nat.cast_inj]

theorem attracts_of_nearest {n d : Nat} (hd : 0 < d) : attracts (nearest n d) n d = true := by
  have hlo : units (floor (n / d)) * d ≤ n := (Nat.le_div_iff_mul_le hd).mp (units_floor_le _)
  have hhi : n < units (floor (n / d) + 1) * d := (Nat.div_lt_iff_lt_mul hd).mp (lt_units_floor_succ _)
  simp only [nearest]
  generalize floor (n / d) = b at *
  have hbefore : units (b - 1) * d ≤ units b * d := Nat.mul_le_mul_right d (units_le_units (Nat.sub_le b 1))
  have hafter : units (b + 1) * d ≤ units (b + 1 + 1) * d :=
    Nat.mul_le_mul_right d (units_le_units (Nat.le_succ _))
  have hstrict : b % 2 = 1 → units (b - 1) * d < units b * d := fun hodd =>
    Nat.mul_lt_mul_of_pos_right (units_lt_units (by omega)) hd
  split
  · rename_i h
    simp only [Bool.or_eq_true, Bool.and_eq_true, decide_eq_true_eq, beq_iff_eq, Nat.add_mul] at h
    rw [attracts_iff, Nat.add_mul, Nat.add_mul]
    omega
  · rename_i h
    simp only [Bool.or_eq_true, Bool.and_eq_true, decide_eq_true_eq, beq_iff_eq, Nat.add_mul] at h
    rw [attracts_iff, Nat.add_mul, Nat.add_mul, Nat.add_sub_cancel]
    omega

end Magnitude

namespace Binary64

/-- The decimals that are read as a double are those that round to its magnitude. -/
theorem nearest?_eq_some_iff {x : Binary64} {d : Decimal} (hpos : 0 < x.magnitude)
    (hfin : x.magnitude < Magnitude.infinite) (hx : ofMagnitude x.isNegative x.magnitude = x) :
    nearest? x.isNegative d.digits d.exponent = some x ↔ Magnitude.Rounds d.toRat x.magnitude := by
  rw [← Magnitude.attractsDecimal_iff]
  constructor
  · intro h
    have hmagnitude {b : Nat} (hb : b < Magnitude.infinite) (hof : ofMagnitude x.isNegative b = x) :
        x.magnitude = b := by
      rw [← hof]
      exact magnitude_ofMagnitude _ (Nat.lt_trans hb (by decide))
    simp only [nearest?] at h
    split at h
    · have := hmagnitude (by decide) (Option.some.inj h)
      omega
    · split at h
      · cases h
      · split at h
        · rename_i hb
          rw [Magnitude.attractsDecimal, ← Nat.mul_assoc, hmagnitude hb (Option.some.inj h)]
          exact Magnitude.attracts_of_nearest (Nat.pow_pos (by decide))
        · cases h
  · intro h
    rw [nearest?_of_attracts x.isNegative hpos hfin h, hx]

end Binary64

end RecordQuery
