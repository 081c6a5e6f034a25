import RecordQuery.Proofs.Binary64.Integral
import RecordQuery.Proofs.Binary64.Quantity

/-! The comparison of an integer and a double in the arithmetic of a machine, where every operation rounds to a double
    and a conversion to an integer saturates. No step of it loses anything: the integral part of a double and what it
    leaves are doubles themselves, and in the range of 64-bit integers the integral part is such an integer. -/

namespace RecordQuery

namespace Magnitude

/-- A magnitude is the nearest one to its own units. -/
theorem nearest_units (b : Nat) : nearest (units b) 1 = b := by
  refine nearest_of_attracts Nat.one_pos (attracts_iff.mpr ?_)
  have hbelow : units (b - 1) ≤ units b := units_le_units (Nat.sub_le b 1)
  have habove : units b < units (b + 1) := units_lt_succ b
  have hodd (h : b % 2 = 1) : units (b - 1) < units b := units_lt_units (by omega)
  simp only [Nat.mul_one]
  omega

/-- The units of a magnitude are a number of at most 53 bits times a power of two. -/
theorem exists_significand (b : Nat) : ∃ t s, t < 2 ^ 53 ∧ units b = t * 2 ^ s := by
  rcases Nat.lt_or_ge b (2 ^ 52) with hb | hb
  · exact ⟨b, 0, by omega, by rw [units_of_lt (by omega), Nat.pow_zero, Nat.mul_one]⟩
  · obtain ⟨s, t, rfl, ht, ht'⟩ := exists_add hb
    exact ⟨t, s, ht', units_add s t ht ht'⟩

theorem le_of_units_le {a b : Nat} (h : units a ≤ units b) : a ≤ b :=
  Nat.le_of_not_lt fun hlt => Nat.not_lt_of_le h (units_lt_units hlt)

/-- A number of units cut at a power of two falls into the units of two magnitudes. -/
theorem exists_units_cut (b e : Nat) :
    (∃ a ≤ b, units a = units b / 2 ^ e * 2 ^ e) ∧ ∃ a ≤ b, units a = units b % 2 ^ e := by
  obtain ⟨t, s, ht, hb⟩ := exists_significand b
  rcases Nat.lt_or_ge s e with hs | hs
  · have hpow : 2 ^ e = 2 ^ (e - s) * 2 ^ s := by rw [← Nat.pow_add, Nat.sub_add_cancel (Nat.le_of_lt hs)]
    have hdiv : units b / 2 ^ e = t / 2 ^ (e - s) := by
      rw [hb, hpow, Nat.mul_div_mul_right _ _ (Nat.two_pow_pos s)]
    have hmod : units b % 2 ^ e = t % 2 ^ (e - s) * 2 ^ s := by rw [hb, hpow, Nat.mul_mod_mul_right]
    have hquotient := units_floor (Nat.lt_of_le_of_lt (Nat.div_le_self t (2 ^ (e - s))) ht) e
    have hrest := units_floor (Nat.lt_of_le_of_lt (Nat.mod_le t (2 ^ (e - s))) ht) s
    refine ⟨⟨_, le_of_units_le ?_, hquotient.trans (by rw [hdiv])⟩, ⟨_, le_of_units_le ?_, hrest.trans hmod.symm⟩⟩
    · rw [hquotient, ← hdiv]
      exact Nat.div_mul_le_self _ _
    · rw [hrest, ← hmod]
      exact Nat.mod_le _ _
  · have hdvd : 2 ^ e ∣ units b := hb ▸ Nat.dvd_trans (Nat.pow_dvd_pow 2 hs) (Nat.dvd_mul_left _ t)
    exact ⟨⟨b, Nat.le_refl b, (Nat.div_mul_cancel hdvd).symm⟩,
      ⟨0, Nat.zero_le b, (Nat.mod_eq_zero_of_dvd hdvd).symm⟩⟩

end Magnitude

namespace Binary64
open Magnitude (infinite)

/-! ### Machine operations -/

/-- The double nearest to a number of units, or the infinity if that is nearer than every finite double. -/
def round (negative : Bool) (u : Nat) : Binary64 := ofMagnitude negative (min (Magnitude.nearest u 1) infinite)

/-- The integral part toward zero, rounded to a double. -/
def truncated (x : Binary64) : Binary64 := round x.isNegative (x.whole * one).natAbs

/-- The difference of two finite doubles, rounded to a double. -/
def minus (x y : Binary64) : Binary64 := round (x.units < y.units) (x.units - y.units).natAbs

/-- The integral part of a finite double, or the nearest 64-bit integer if it is out of range. -/
def saturated (x : Binary64) : Int64 :=
  if 2 ^ 63 ≤ x.whole then .maxValue else if x.whole < -2 ^ 63 then .minValue else .ofInt x.whole

/-- 2⁶³ and its negative as doubles. -/
def bound (negative : Bool) : Binary64 := ofMagnitude negative 0x43E0000000000000

/-- The order of an integer and a double, found step by step in machine arithmetic. -/
def compareIntStepwise (n : Int64) (x : Binary64) : Option Ordering :=
  if x.isNaN then none
  else if compare x (bound false) ≠ some .lt then some .lt
  else if compare x (bound true) = some .lt then some .gt
  else
    let whole := x.truncated
    match Ord.compare n.toInt whole.saturated.toInt with
    | .eq => compare (ofMagnitude false 0) (x.minus whole)
    | unequal => some unequal

/-! ### No step rounds -/

theorem isNegative_ofMagnitude (negative : Bool) {b : Nat} (h : b < 2 ^ 63) :
    (ofMagnitude negative b).isNegative = negative := by
  have hbits : (ofMagnitude negative b).bits.toNat = if negative then 2 ^ 63 + b else b :=
    UInt64.toNat_ofNat_of_lt' (by change _ < 2 ^ 64; split <;> omega)
  rw [isNegative, hbits]
  cases negative
  · exact decide_eq_false (by simpa using h)
  · exact decide_eq_true (by simp)

theorem units_ofMagnitude (negative : Bool) {b : Nat} (h : b < 2 ^ 63) :
    (ofMagnitude negative b).units = if negative then -(Magnitude.units b : Int) else Magnitude.units b := by
  rw [units, isNegative_ofMagnitude negative h, magnitude_ofMagnitude negative h]

/-- The units of a finite magnitude round to it. -/
theorem round_units (negative : Bool) {b : Nat} (h : b < infinite) :
    round negative (Magnitude.units b) = ofMagnitude negative b := by
  rw [round, Magnitude.nearest_units, Nat.min_eq_left (Nat.le_of_lt h)]

section Steps

variable {x : Binary64}

theorem whole_mul_one (x : Binary64) : x.whole * one =
    if x.isNegative then -((Magnitude.units x.magnitude / 2 ^ 1074 * 2 ^ 1074 : Nat) : Int)
    else ((Magnitude.units x.magnitude / 2 ^ 1074 * 2 ^ 1074 : Nat) : Int) := by
  rw [whole, units, one_eq]
  generalize 2 ^ 1074 = unit
  split
  · rw [Int.neg_tdiv, Int.neg_mul, Int.natCast_mul, Int.ofNat_tdiv]
  · rw [Int.natCast_mul, Int.ofNat_tdiv]

theorem fraction_eq (x : Binary64) : x.fraction =
    if x.isNegative then -((Magnitude.units x.magnitude % 2 ^ 1074 : Nat) : Int)
    else ((Magnitude.units x.magnitude % 2 ^ 1074 : Nat) : Int) := by
  rw [fraction, units, one_eq]
  generalize 2 ^ 1074 = unit
  split
  · rw [Int.neg_tmod, Int.ofNat_tmod]
  · rw [Int.ofNat_tmod]

/-- The integral part of a finite double is a double. -/
theorem units_truncated (hx : x.isFinite = true) : x.truncated.units = x.whole * one ∧ x.truncated.isFinite = true := by
  have hfin : x.magnitude < infinite := of_decide_eq_true hx
  obtain ⟨⟨a, hle, ha⟩, -⟩ := Magnitude.exists_units_cut x.magnitude 1074
  have hlt : a < infinite := Nat.lt_of_le_of_lt hle hfin
  have habs : (x.whole * one).natAbs = Magnitude.units a := by
    rw [whole_mul_one, ← ha]
    split <;> omega
  rw [truncated, habs, round_units _ hlt, whole_mul_one, ← ha]
  exact ⟨units_ofMagnitude _ (Nat.lt_trans hlt (by decide)), isFinite_ofMagnitude _ hlt⟩

/-- What the integral part leaves of a finite double is a double. -/
theorem units_minus (hx : x.isFinite = true) :
    (x.minus x.truncated).units = x.fraction ∧ (x.minus x.truncated).isFinite = true := by
  have hfin : x.magnitude < infinite := of_decide_eq_true hx
  obtain ⟨-, a, hle, ha⟩ := Magnitude.exists_units_cut x.magnitude 1074
  have hlt : a < infinite := Nat.lt_of_le_of_lt hle hfin
  have hsum := whole_add_fraction x
  have hdiff : x.units - x.truncated.units = x.fraction := by
    rw [(units_truncated hx).1, ← hsum, Int.mul_comm one]
    omega
  have hsign : decide (x.units < x.truncated.units) = decide (x.fraction < 0) := by
    rw [decide_eq_decide]
    omega
  have habs : x.fraction.natAbs = Magnitude.units a := by
    rw [fraction_eq, ← ha]
    split <;> omega
  rw [minus, hdiff, hsign, habs, round_units _ hlt]
  refine ⟨?_, isFinite_ofMagnitude _ hlt⟩
  rw [units_ofMagnitude _ (Nat.lt_trans hlt (by decide))]
  simp only [decide_eq_true_eq]
  split <;> omega

theorem whole_truncated (hx : x.isFinite = true) : x.truncated.whole = x.whole := by
  rw [whole, (units_truncated hx).1, Int.mul_tdiv_cancel _ (Int.ne_of_gt one_pos)]

theorem whole_bounds (hlow : -(2 ^ 63 * one) ≤ x.units) (hhigh : x.units < 2 ^ 63 * one) :
    -2 ^ 63 ≤ x.whole ∧ x.whole < 2 ^ 63 := by
  have hone := one_pos
  have hsum := whole_add_fraction x
  have hwhole := whole_mul_one x
  rw [Int.mul_comm one, hwhole, fraction_eq x] at hsum
  refine ⟨Int.le_of_mul_le_mul_right (a := one) ?_ hone, Int.lt_of_mul_lt_mul_right (a := one) ?_ (Int.le_of_lt hone)⟩
  all_goals
    rw [hwhole]
    generalize Magnitude.units x.magnitude / 2 ^ 1074 * 2 ^ 1074 = integral at hsum ⊢
    generalize Magnitude.units x.magnitude % 2 ^ 1074 = rest at hsum
    cases hneg : x.isNegative <;> simp only [hneg, Bool.false_eq_true, if_true, if_false] at hsum ⊢ <;> omega

/-- A conversion to an integer changes nothing in the range of 64-bit integers. -/
theorem toInt_saturated (hx : x.isFinite = true) (hlow : -(2 ^ 63 * one) ≤ x.units) (hhigh : x.units < 2 ^ 63 * one) :
    x.truncated.saturated.toInt = x.whole := by
  obtain ⟨hlo, hhi⟩ := whole_bounds hlow hhigh
  rw [saturated, whole_truncated hx, if_neg (by omega), if_neg (by omega), Int64.toInt_ofInt_of_le hlo hhi]

/-! ### The same in numbers -/

theorem toRat_truncated (hx : x.isFinite = true) : x.truncated.toRat = x.whole := by
  rw [toRat_eq, (units_truncated hx).1, Int.cast_mul, cast_one, mul_div_cancel_right₀ _ (pow_ne_zero _ two_ne_zero)]

theorem toRat_minus (hx : x.isFinite = true) : (x.minus x.truncated).toRat = x.toRat - x.whole := by
  have hsum : (x.units : ℚ) = 2 ^ 1074 * x.whole + x.fraction := by
    rw [← whole_add_fraction, Int.cast_add, Int.cast_mul, cast_one]
  rw [toRat_eq, toRat_eq, (units_minus hx).1, hsum, add_div, mul_div_cancel_left₀ _ (pow_ne_zero _ two_ne_zero),
    add_sub_cancel_left]

/-- The integral part is taken toward zero. -/
theorem whole_eq (x : Binary64) : x.whole = if 0 ≤ x.toRat then ⌊x.toRat⌋ else ⌈x.toRat⌉ := by
  have hlo : -one < x.fraction := Int.lt_tmod_of_pos _ one_pos
  have hhi : x.fraction < one := Int.tmod_lt_of_pos _ one_pos
  have hsum := whole_add_fraction x
  rw [Int.mul_comm] at hsum
  have hsign : 0 ≤ x.toRat ↔ 0 ≤ x.units := by
    have h := intCast_le_toRat (n := 0) (x := x)
    rwa [Int.cast_zero, Int.zero_mul] at h
  split
  · rename_i h
    have hfraction : 0 ≤ x.fraction := Int.tmod_nonneg _ (hsign.mp h)
    refine (Int.floor_eq_iff.mpr ⟨intCast_le_toRat.mpr (by omega), ?_⟩).symm
    refine not_le.mp fun hle => ?_
    rw [← Int.cast_one, ← Int.cast_add, intCast_le_toRat, Int.add_mul] at hle
    omega
  · rename_i h
    have hneg : x.units < 0 := Int.not_le.mp (hsign.not.mp h)
    have hfraction : 0 ≤ -x.fraction := by
      rw [fraction, ← Int.neg_tmod]
      exact Int.tmod_nonneg _ (by omega)
    refine (Int.ceil_eq_iff.mpr ⟨?_, toRat_le_intCast.mpr (by omega)⟩).symm
    refine not_le.mp fun hle => ?_
    rw [← Int.cast_one, ← Int.cast_sub, toRat_le_intCast, Int.sub_mul] at hle
    omega

theorem toInt_saturated_of_toRat (hx : x.isFinite = true) (hlow : -2 ^ 63 ≤ x.toRat) (hhigh : x.toRat < 2 ^ 63) :
    x.truncated.saturated.toInt = x.whole := by
  have hlo : -2 ^ 63 * one ≤ x.units := by
    rw [← intCast_le_toRat, Int.cast_neg, Int.cast_pow, Int.cast_ofNat]
    exact hlow
  have hhi : ¬2 ^ 63 * one ≤ x.units := by
    rw [← intCast_le_toRat, Int.cast_pow, Int.cast_ofNat]
    exact not_le.mpr hhigh
  exact toInt_saturated hx (by rwa [← Int.neg_mul]) (Int.not_le.mp hhi)

/-! ### The comparison -/

theorem rank_bound (negative : Bool) : (bound negative).rank = if negative then -pastIntegers else pastIntegers := by
  cases negative <;> decide +kernel

theorem units_bound (negative : Bool) :
    (bound negative).units = if negative then -(2 ^ 63 * one) else 2 ^ 63 * one := by
  cases negative <;> decide +kernel

theorem compare_bound (hx : x.isNaN = false) (negative : Bool) :
    compare x (bound negative) = some (Ord.compare x.rank (if negative then -pastIntegers else pastIntegers)) := by
  have hbound : (bound negative).isNaN = false := by cases negative <;> decide +kernel
  rw [compare, hx, hbound, rank_bound]
  rfl

/-- The range tests are exact. -/
theorem units_bounds (hlo : -pastIntegers ≤ x.rank) (hhi : x.rank < pastIntegers) :
    -(2 ^ 63 * one) ≤ x.units ∧ x.units < 2 ^ 63 * one := by
  have hlow := compare_rank x (bound true)
  have hhigh := compare_rank x (bound false)
  rw [rank_bound, units_bound] at hlow hhigh
  refine ⟨Int.not_lt.mp fun hlt => ?_, Int.compare_eq_lt.mp (hhigh.symm.trans (Int.compare_eq_lt.mpr hhi))⟩
  exact Int.not_lt.mpr hlo (Int.compare_eq_lt.mp (hlow.trans (Int.compare_eq_lt.mpr hlt)))

theorem isFinite_of_rank (hlo : -pastIntegers ≤ x.rank) (hhi : x.rank < pastIntegers) : x.isFinite = true := by
  refine decide_eq_true ?_
  simp only [rank, pastIntegers, infinite] at hlo hhi ⊢
  cases hneg : x.isNegative <;> simp only [hneg, Bool.false_eq_true, if_true, if_false] at hlo hhi <;> omega

theorem zero_compare {x : Binary64} (hx : x.isFinite = true) :
    compare (ofMagnitude false 0) x = some (Ord.compare 0 x.units) := by
  have hzero : (ofMagnitude false 0).isNaN = false := by decide +kernel
  have hunits : (ofMagnitude false 0).units = 0 := by decide +kernel
  rw [compare, hzero, isNaN_of_isFinite hx, compare_rank, hunits]
  rfl

/-- Machine arithmetic finds the order that exact arithmetic finds. -/
theorem compareIntStepwise_eq (n : Int64) (x : Binary64) : compareIntStepwise n x = compareInt n x := by
  rw [compareIntStepwise, compareInt]
  cases hx : x.isNaN with
  | true => rfl
  | false =>
    have hhigh : compare x (bound false) ≠ some .lt ↔ pastIntegers ≤ x.rank := by
      rw [compare_bound hx, Ne, Option.some_inj, Int.compare_eq_lt]
      exact Int.not_lt
    have hlow : compare x (bound true) = some .lt ↔ x.rank < -pastIntegers := by
      rw [compare_bound hx, Option.some_inj, Int.compare_eq_lt]
      rfl
    simp only [hhigh, hlow, Bool.false_eq_true, if_false]
    split
    · rfl
    · rename_i hhi
      split
      · rfl
      · rename_i hlo
        have hlo' := Int.not_lt.mp hlo
        have hhi' := Int.not_le.mp hhi
        have hfin := isFinite_of_rank hlo' hhi'
        obtain ⟨hmin, hmax⟩ := units_bounds hlo' hhi'
        obtain ⟨hrest, hrestfin⟩ := units_minus hfin
        rw [toInt_saturated hfin hmin hmax, zero_compare hrestfin, hrest]
        cases Ord.compare n.toInt x.whole <;> rfl

end Steps

end Binary64

end RecordQuery
