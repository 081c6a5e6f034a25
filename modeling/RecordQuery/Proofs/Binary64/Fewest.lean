import Mathlib.Algebra.Order.Group.Abs
import Mathlib.Tactic.NormNum
import RecordQuery.Proofs.Binary64.Interval
import RecordQuery.Proofs.Binary64.Quantity
import RecordQuery.Proofs.Binary64.Shortest
import RecordQuery.Proofs.Json.Double

/-! The decimal that the search for the shortest one ends with. No decimal on a coarser grid rounds to the magnitude, so
    none has fewer digits, and of those with as many digits none is nearer to the double. -/

namespace RecordQuery
open Text

/-- Whether `u` is nearer to `x` than `v` is, or as near and not less. -/
def Nearer (x u v : ℚ) : Prop := |u - x| < |v - x| ∨ |u - x| = |v - x| ∧ v ≤ u

namespace Nearer
variable {x u v : ℚ}

theorem antisymm (h : Nearer x u v) (h' : Nearer x v u) : u = v := by
  rcases h with h | ⟨h, hle⟩
  · rcases h' with h' | ⟨h', -⟩
    · exact absurd h' h.asymm
    · exact absurd h h'.not_gt
  · rcases h' with h' | ⟨-, hle'⟩
    · exact absurd h' (not_lt_of_ge h.le)
    · exact le_antisymm hle' hle

theorem trans {w : ℚ} (h : Nearer x u v) (h' : Nearer x v w) : Nearer x u w := by
  rcases h with h | ⟨h, hle⟩
  · exact .inl (h.trans_le (h'.elim le_of_lt fun h' => h'.1.le))
  · rw [Nearer, h]
    exact h'.imp_right fun ⟨h', hle'⟩ => ⟨h', hle'.trans hle⟩

theorem of_le_of_le (hvu : v ≤ u) (hux : u ≤ x) : Nearer x u v := by
  have hdist : |u - x| ≤ |v - x| := by
    rw [abs_of_nonpos (sub_nonpos.mpr hux), abs_of_nonpos (sub_nonpos.mpr (hvu.trans hux))]
    linarith
  exact hdist.lt_or_eq.imp_right (⟨·, hvu⟩)

theorem of_ge_of_ge (hxu : x ≤ u) (huv : u ≤ v) : Nearer x u v := by
  rw [Nearer, abs_of_nonneg (sub_nonneg.mpr hxu), abs_of_nonneg (sub_nonneg.mpr (hxu.trans huv))]
  rcases huv.lt_or_eq with h | rfl
  · exact .inl (by linarith)
  · exact .inr ⟨rfl, le_rfl⟩

/-- Of two numbers on either side, the lesser one is nearer if the middle of both is beyond `x`. -/
theorem of_lt_middle (hux : u ≤ x) (hxv : x ≤ v) (h : 2 * x < u + v) : Nearer x u v := by
  rw [Nearer, abs_of_nonpos (sub_nonpos.mpr hux), abs_of_nonneg (sub_nonneg.mpr hxv)]
  exact .inl (by linarith)

theorem of_middle_le (hvx : v ≤ x) (hxu : x ≤ u) (h : v + u ≤ 2 * x) : Nearer x u v := by
  rw [Nearer, abs_of_nonneg (sub_nonneg.mpr hxu), abs_of_nonpos (sub_nonpos.mpr hvx)]
  rcases h.lt_or_eq with h | h
  · exact .inl (by linarith)
  · exact .inr ⟨by linarith, hvx.trans hxu⟩

end Nearer

namespace Magnitude

/-! ### One grid -/

/-- The two points of a grid around a magnitude, and how the choice between them is made. -/
theorem exists_around (b : Nat) (p : Int) : ∃ k : Nat,
    (⟨k, p⟩ : Decimal).toRat ≤ toRat b ∧ toRat b < (⟨k + 1, p⟩ : Decimal).toRat ∧
      (onGrid? b p = none → ¬Rounds (⟨k, p⟩ : Decimal).toRat b ∧ ¬Rounds (⟨k + 1, p⟩ : Decimal).toRat b) ∧
      ∀ digits, onGrid? b p = some digits →
        digits = k ∧ (Rounds (⟨k + 1, p⟩ : Decimal).toRat b →
          2 * toRat b < (⟨k, p⟩ : Decimal).toRat + (⟨k + 1, p⟩ : Decimal).toRat) ∨
        digits = k + 1 ∧ (Rounds (⟨k, p⟩ : Decimal).toRat b →
          (⟨k, p⟩ : Decimal).toRat + (⟨k + 1, p⟩ : Decimal).toRat ≤ 2 * toRat b) := by
  have hten : (0 : ℚ) < (10 ^ (-p).toNat : Nat) := Nat.cast_pos.mpr (Nat.pow_pos (by decide))
  have hpos : (0 : ℚ) < (10 ^ (-p).toNat : Nat) * 2 ^ 1074 := mul_pos hten two_pow_pos
  have hstep : 0 < 10 ^ p.toNat * 2 ^ 1074 := Nat.mul_pos (Nat.pow_pos (by decide)) unit_pos
  have hb : toRat b = ((units b * 10 ^ (-p).toNat : Nat) : ℚ) / ((10 ^ (-p).toNat : Nat) * 2 ^ 1074) := by
    rw [toRat, Nat.cast_mul, mul_comm, mul_div_mul_left _ _ hten.ne']
  refine ⟨units b * 10 ^ (-p).toNat / (10 ^ p.toNat * 2 ^ 1074), ?_⟩
  simp only [← attractsDecimal_iff]
  simp only [toRat_decimal, hb, ← add_div, ← mul_div_assoc, div_le_div_iff_of_pos_right hpos,
    div_lt_div_iff_of_pos_right hpos, onGrid?, attractsDecimal]
  clear hb hten hpos
  generalize 10 ^ p.toNat * 2 ^ 1074 = step at *
  generalize 10 ^ (-p).toNat = t at *
  norm_cast
  refine ⟨Nat.div_mul_le_self _ _, ?_, ?_, ?_⟩
  · rw [Nat.add_mul, Nat.one_mul]
    exact Nat.lt_div_mul_add hstep
  · intro h
    split at h <;> simp_all
  · intro digits h
    rw [show units b * t / step * step + (units b * t / step + 1) * step = (2 * (units b * t / step) + 1) * step by ring]
    split at h
    · split at h
      · cases h
        exact .inl ⟨rfl, fun _ => ‹_›⟩
      · cases h
        exact .inr ⟨rfl, fun _ => Nat.le_of_not_lt ‹_›⟩
    · cases h
      exact .inl ⟨rfl, by simp_all⟩
    · cases h
      exact .inr ⟨rfl, by simp_all⟩
    · cases h

variable {b digits : Nat} {p : Int}

theorem not_rounds_of_onGrid? (hb : 0 < b) (h : onGrid? b p = none) (k : Nat) : ¬Rounds (⟨k, p⟩ : Decimal).toRat b := by
  obtain ⟨below, hle, hlt, hnone, -⟩ := exists_around b p
  obtain ⟨hbelow, habove⟩ := hnone h
  intro hk
  rcases Nat.lt_or_ge below k with hk' | hk'
  · exact habove ((rounds_toRat hb).between hk hlt.le (Decimal.toRat_le hk'))
  · exact hbelow (hk.between (rounds_toRat hb) (Decimal.toRat_le hk') hle)

/-- The point that is taken of a grid is the nearest of those that round to the magnitude. -/
theorem nearer_of_onGrid? (hb : 0 < b) (h : onGrid? b p = some digits) {k : Nat}
    (hk : Rounds (⟨k, p⟩ : Decimal).toRat b) : Nearer (toRat b) (⟨digits, p⟩ : Decimal).toRat (⟨k, p⟩ : Decimal).toRat := by
  obtain ⟨below, hle, hlt, -, hsome⟩ := exists_around b p
  rcases hsome digits h with ⟨rfl, hmid⟩ | ⟨rfl, hmid⟩
  · rcases Nat.lt_or_ge digits k with hk' | hk'
    · have hab := Decimal.toRat_le (n := p) hk'
      have habove := (rounds_toRat hb).between hk hlt.le hab
      exact .of_lt_middle hle (hlt.le.trans hab) ((hmid habove).trans_le (by linarith))
    · exact .of_le_of_le (Decimal.toRat_le hk') hle
  · rcases Nat.lt_or_ge below k with hk' | hk'
    · exact .of_ge_of_ge hlt.le (Decimal.toRat_le hk')
    · have hab := Decimal.toRat_le (n := p) hk'
      have hbelow := hk.between (rounds_toRat hb) hab hle
      exact .of_middle_le (hab.trans hle) hlt.le ((by linarith : _ ≤ _).trans (hmid hbelow))

/-! ### The coarsest grid -/

theorem onGridsFrom_spec {k : Nat} {p : Int} (h : attractsDecimal b (onGridsFrom b k p) = true)
    (hk : p - k < (onGridsFrom b k p).exponent) :
    onGrid? b (onGridsFrom b k p).exponent = some (onGridsFrom b k p).digits ∧
      ∀ q, (onGridsFrom b k p).exponent < q → q ≤ p → onGrid? b q = none := by
  induction k generalizing p with
  | zero =>
    rw [onGridsFrom] at hk
    simp at hk
  | succ k ih =>
    rw [onGridsFrom] at h hk ⊢
    cases hgrid : onGrid? b p with
    | some digits =>
      refine ⟨hgrid, fun q hq hqp => ?_⟩
      exact absurd hqp (Int.not_le.mpr hq)
    | none =>
      simp only [hgrid] at h hk ⊢
      obtain ⟨hsome, hnone⟩ := ih h (by omega)
      refine ⟨hsome, fun q hq hqp => ?_⟩
      rcases Int.lt_or_eq_of_le hqp with hlt | rfl
      · exact hnone q hq (by omega)
      · exact hgrid

/-- A power of two is above a magnitude only if it is not below the next one. -/
theorem units_succ_le {t : Nat} (h : units b < 2 ^ t) : units (b + 1) ≤ 2 ^ t := by
  obtain ⟨c, hc⟩ : ∃ c, units c = 2 ^ t := by
    rcases Nat.lt_or_ge t 52 with ht | ht
    · exact ⟨2 ^ t, units_of_lt (Nat.lt_of_lt_of_le (Nat.pow_lt_pow_right (by decide) ht) (by decide))⟩
    · refine ⟨(t - 52) * 2 ^ 52 + 2 ^ 52, ?_⟩
      rw [units_add _ _ (Nat.le_refl _) (by decide), ← Nat.pow_add, Nat.add_sub_cancel' ht]
  rw [← hc] at h ⊢
  exact units_le_units (lt_of_units_lt h)

/-- A power of two is not above the power of ten that `coarsest` takes for it. -/
theorem two_pow_le (t : Int) : (2 : ℚ) ^ t ≤ 10 ^ ((if 0 ≤ t then t * 31 / 100 else t * 3 / 10) + 1) := by
  have hroot {x y : Int} {k : Nat} (hk : k ≠ 0) (h : ((2 : ℚ) ^ x) ^ k ≤ (10 ^ y) ^ k) : (2 : ℚ) ^ x ≤ 10 ^ y :=
    (pow_le_pow_iff_left₀ (zpow_pos two_pos _).le (Decimal.ten_pow_pos _).le hk).mp h
  split
  · rename_i ht
    refine hroot (k := 100) (by decide) ?_
    calc ((2 : ℚ) ^ t) ^ 100 = (2 ^ 100) ^ t := by rw [← zpow_natCast, ← zpow_natCast, zpow_comm]
      _ ≤ (10 ^ 31) ^ t := zpow_le_zpow_left₀ ht (by norm_num) (by norm_num)
      _ = 10 ^ (31 * t) := by rw [← zpow_natCast, ← zpow_mul]; rfl
      _ ≤ 10 ^ ((t * 31 / 100 + 1) * 100) := Decimal.ten_pow_le (by omega)
      _ = (10 ^ (t * 31 / 100 + 1)) ^ 100 := by rw [← zpow_natCast, ← zpow_mul]; rfl
  · rename_i ht
    refine hroot (k := 10) (by decide) ?_
    calc ((2 : ℚ) ^ t) ^ 10 = (2 ^ 10) ^ t := by rw [← zpow_natCast, ← zpow_natCast, zpow_comm]
      _ = ((2 ^ 10)⁻¹) ^ (-t) := by rw [inv_zpow', neg_neg]
      _ ≤ ((10 ^ 3)⁻¹) ^ (-t) := zpow_le_zpow_left₀ (by omega) (by norm_num) (by norm_num)
      _ = 10 ^ (3 * t) := by rw [inv_zpow', neg_neg, ← zpow_natCast, ← zpow_mul]; rfl
      _ ≤ 10 ^ ((t * 3 / 10 + 1) * 10) := Decimal.ten_pow_le (by omega)
      _ = (10 ^ (t * 3 / 10 + 1)) ^ 10 := by rw [← zpow_natCast, ← zpow_mul]; rfl

/-- No number that rounds to a magnitude reaches the coarsest grid. -/
theorem upper_lt_coarsest (b : Nat) : upper b < 10 ^ coarsest b := by
  have hunits : units b < 2 ^ ((units b).log2 + 1) := Nat.lt_log2_self
  have hlt : toRat b < (2 : ℚ) ^ ((units b).log2 + 1) / 2 ^ 1074 :=
    div_lt_div_of_pos_right (by exact_mod_cast hunits) two_pow_pos
  have hle : toRat (b + 1) ≤ (2 : ℚ) ^ ((units b).log2 + 1) / 2 ^ 1074 :=
    div_le_div_of_nonneg_right (by exact_mod_cast units_succ_le hunits) two_pow_pos.le
  calc upper b < (2 : ℚ) ^ ((units b).log2 + 1) / 2 ^ 1074 := by
        rw [upper]
        generalize (2 : ℚ) ^ ((units b).log2 + 1) / 2 ^ 1074 = top at *
        linarith
    _ = 2 ^ (((units b).log2 : Int) + 1 - 1074) := by
        rw [zpow_sub₀ two_ne_zero, ← Nat.cast_succ, zpow_natCast]
        rfl
    _ ≤ 10 ^ coarsest b := two_pow_le _

/-! ### The shortest decimal -/

section Shortest
variable {d : Decimal} (hb : 0 < b) (hfin : b < infinite)
include hb hfin

/-- The shortest decimal is taken from its grid, and every coarser one that was tried had none. -/
theorem shortest_spec :
    onGrid? b (shortest b).exponent = some (shortest b).digits ∧
      ∀ q, (shortest b).exponent < q → q ≤ coarsest b → onGrid? b q = none := by
  obtain ⟨s, hgap, hs⟩ := exists_gap b
  have hgrid : onGrid? b (coarsest b - (32 - 1 : Nat)) ≠ none := onGrid?_ne_none hgap (fine_of_coarsest hb hfin hs)
  obtain ⟨hd, he⟩ := attractsDecimal_onGridsFrom (by decide : 0 < 32) hgrid
  exact onGridsFrom_spec hd he

theorem rounds_shortest : Rounds (shortest b).toRat b := attractsDecimal_iff.mp (attractsDecimal_shortest hb hfin).1

/-- A decimal that rounds to the magnitude is on no coarser grid than the shortest one. -/
theorem exponent_le_shortest (hd : Rounds d.toRat b) : d.exponent ≤ (shortest b).exponent := by
  refine Int.not_lt.mp fun hlt => ?_
  rcases Int.lt_or_le (coarsest b) d.exponent with hcoarse | hcoarse
  · have h1 : (10 : ℚ) ^ d.exponent ≤ d.toRat := by
      rw [← Decimal.toRat_pow]
      exact Decimal.toRat_le (digits_pos (attractsDecimal_iff.mpr hd) hb)
    have h2 := Decimal.ten_pow_le hcoarse.le
    linarith [hd.2.1, upper_lt_coarsest b]
  · exact not_rounds_of_onGrid? hb ((shortest_spec hb hfin).2 _ hlt hcoarse) d.digits hd

/-- No decimal that rounds to the magnitude has fewer digits. -/
theorem length_shortest_le (hd : Rounds d.toRat b) : (shortest b).length ≤ d.length := by
  refine Nat.le_of_not_lt fun hlt => ?_
  have hexp := exponent_le_shortest hb hfin hd
  have hpos := digits_pos (attractsDecimal_shortest hb hfin).1 hb
  -- the power of ten between both would be on a coarser grid
  have hpow : Rounds (⟨1, (shortest b).exponent + d.length⟩ : Decimal).toRat b := by
    refine hd.between (rounds_shortest hb hfin) ?_ ?_
    · rw [Decimal.toRat_pow]
      exact d.toRat_lt.le.trans (Decimal.ten_pow_le (by rw [Decimal.point]; omega))
    · rw [Decimal.toRat_pow]
      exact (Decimal.ten_pow_le (by rw [Decimal.point]; omega)).trans (Decimal.le_toRat hpos)
  have hle : (shortest b).exponent + d.length ≤ (shortest b).exponent := exponent_le_shortest hb hfin hpow
  have := d.length_pos
  omega

end Shortest

/-! ### Decimals of one digit

A power of ten and a decimal of one digit on a finer grid both round to one magnitude only if that is twice the least,
and there the power of ten is the nearer one. -/

theorem units_add_le (s t : Nat) (h : 2 ^ 52 ≤ t) (h' : t ≤ 2 ^ 53) : units (s * 2 ^ 52 + t) = t * 2 ^ s := by
  rcases Nat.lt_or_eq_of_le h' with hlt | rfl
  · exact units_add s t h hlt
  · rw [show s * 2 ^ 52 + 2 ^ 53 = (s + 1) * 2 ^ 52 + 2 ^ 52 by omega, units_add _ _ (Nat.le_refl _) (by decide),
      Nat.pow_succ]
    omega

/-- Great magnitudes are close to each other, compared with what they denote. -/
theorem mul_units_succ_le {k : Nat} (hk : k ≤ b) (hk' : k ≤ 2 ^ 52) : k * units (b + 1) ≤ (k + 1) * units b := by
  rcases Nat.lt_or_ge b (2 ^ 52) with hb | hb
  · rw [units_of_lt (by omega), units_of_lt (by omega), Nat.mul_succ, Nat.succ_mul]
    omega
  · obtain ⟨s, t, rfl, ht, ht'⟩ := exists_add hb
    rw [Nat.add_assoc, units_add_le s (t + 1) (by omega) ht', units_add s t ht ht', ← Nat.mul_assoc, ← Nat.mul_assoc]
    refine Nat.mul_le_mul_right _ ?_
    rw [Nat.mul_succ, Nat.succ_mul]
    omega

/-- Nine tenths and the whole round to one magnitude only if that is small. -/
theorem lt_of_nine_tenths (h : 10 * lower b ≤ 9 * upper b) : b < 10 := by
  have hunits : 10 * (units (b - 1) + units b) ≤ 9 * (units b + units (b + 1)) := by
    have hsum : 10 * (toRat (b - 1) + toRat b) ≤ 9 * (toRat b + toRat (b + 1)) := by
      rw [lower, upper] at h
      linarith
    rw [toRat, toRat, toRat, ← add_div, ← add_div, ← mul_div_assoc, ← mul_div_assoc,
      div_le_div_iff_of_pos_right two_pow_pos] at hsum
    exact_mod_cast hsum
  rcases Nat.lt_or_ge b 100 with hb | hb
  · rw [units_of_lt (by omega), units_of_lt (by omega), units_of_lt (by omega)] at hunits
    omega
  · have h1 : 99 * units (b - 1 + 1) ≤ 100 * units (b - 1) := mul_units_succ_le (by omega) (by decide)
    have h2 : 99 * units (b + 1) ≤ 100 * units b := mul_units_succ_le (by omega) (by decide)
    rw [Nat.sub_add_cancel (by omega)] at h1
    have := le_units b
    omega

/-- The units in one, compared with a power of ten. -/
theorem unit_bounds : (202 : ℚ) * 10 ^ 323 < 100 * 2 ^ 1074 ∧ (10 : ℚ) * 2 ^ 1074 < 21 * 10 ^ 323 := by
  have hlo : ((202 * 10 ^ 323 : Nat) : ℚ) < (100 * 2 ^ 1074 : Nat) := Nat.cast_lt.mpr (by decide +kernel)
  have hhi : ((10 * 2 ^ 1074 : Nat) : ℚ) < (21 * 10 ^ 323 : Nat) := Nat.cast_lt.mpr (by decide +kernel)
  simp only [Nat.cast_mul, Nat.cast_pow, Nat.cast_ofNat] at hlo hhi
  exact ⟨hlo, hhi⟩

theorem ten_pow_nearer (hb : 0 < b) {p : Int} (h9 : lower b ≤ 9 * 10 ^ (p - 1)) (h10 : 10 ^ p ≤ upper b) :
    9 * 10 ^ (p - 1) + 10 ^ p < 2 * toRat b := by
  have hten := Decimal.ten_pow_eq p
  have hpow : (10 : ℚ) ^ (p - 1) * 10 ^ 323 = 10 ^ (p + 322) := by
    rw [← zpow_natCast, ← zpow_add₀ (by norm_num)]
    congr 1
    omega
  have hv := Decimal.ten_pow_pos (p - 1)
  obtain ⟨hlo, hhi⟩ := unit_bounds
  have hone := two_pow_pos
  have hsmall : b < 10 := lt_of_nine_tenths (by linarith)
  obtain ⟨a, rfl⟩ : ∃ a, b = a + 1 := ⟨b - 1, by omega⟩
  have hunits {k : Nat} (hk : k < 2 ^ 53) : toRat k = k / 2 ^ 1074 := by rw [toRat, units_of_lt hk]
  rw [lower, Nat.add_sub_cancel, hunits (by omega), hunits (by omega), ← add_div, div_div,
    div_le_iff₀ (mul_pos hone two_pos)] at h9
  rw [upper, hunits (by omega), hunits (by omega), ← add_div, div_div, le_div_iff₀ (mul_pos hone two_pos), hten] at h10
  rw [hunits (by omega), ← mul_div_assoc, lt_div_iff₀ hone, hten]
  generalize (2 : ℚ) ^ 1074 = one at *
  generalize (10 : ℚ) ^ 323 = large at *
  have hlow := mul_lt_mul_of_pos_right hlo hv
  have hhigh := mul_lt_mul_of_pos_right hhi hv
  have hdigit : (a : ℚ) ≤ 8 := by exact_mod_cast (by omega : a ≤ 8)
  push_cast at *
  -- the interval is so narrow that the power of ten is the one just above the least magnitude
  have hupper : p + 322 < 0 := Decimal.lt_of_ten_pow_lt (by rw [← hpow, zpow_zero]; linarith)
  have hlower : -2 < p + 322 := Decimal.lt_of_ten_pow_lt (by
    have ha : (0 : ℚ) ≤ a := Nat.cast_nonneg a
    rw [← hpow, show (10 : ℚ) ^ (-2 : Int) = 1 / 100 by norm_num]
    linarith)
  rw [show p + 322 = -1 by omega, zpow_neg_one] at hpow
  have ha : a = 1 := by
    have h1 : a < 2 := by
      exact_mod_cast (by linarith : (a : ℚ) < 2)
    have h2 : 0 < a := by
      exact_mod_cast (by linarith : (0 : ℚ) < a)
    omega
  subst ha
  push_cast
  linarith

section Shortest
variable {d : Decimal} (hb : 0 < b) (hfin : b < infinite)
include hb hfin

/-- A decimal as short as the shortest one, but on a finer grid, has one digit, and so has the power of ten above it. -/
theorem ten_pow_rounds (hd : Rounds d.toRat b) (hlen : d.length = (shortest b).length)
    (hlt : d.exponent < (shortest b).exponent) :
    Rounds (⟨1, (shortest b).exponent⟩ : Decimal).toRat b ∧ d.toRat ≤ 9 * 10 ^ ((shortest b).exponent - 1) := by
  have hpos := digits_pos (attractsDecimal_shortest hb hfin).1 hb
  have hpow : Rounds (⟨1, (shortest b).point - 1⟩ : Decimal).toRat b := by
    refine hd.between (rounds_shortest hb hfin) ?_ ?_
    · rw [Decimal.toRat_pow]
      exact d.toRat_lt.le.trans (Decimal.ten_pow_le (by rw [Decimal.point, Decimal.point]; omega))
    · rw [Decimal.toRat_pow]
      exact Decimal.le_toRat hpos
  have hone : (shortest b).length = 1 := by
    have hle := exponent_le_shortest hb hfin hpow
    have := (shortest b).length_pos
    simp only [Decimal.point] at hle
    omega
  exact ⟨by rwa [Decimal.point, hone, Nat.cast_one, Int.add_sub_cancel] at hpow,
    Decimal.toRat_le_nine (hlen.trans hone).le hlt⟩

/-- Of the decimals with as few digits none is nearer to the double. -/
theorem nearer_shortest (hd : Rounds d.toRat b) (hlen : d.length = (shortest b).length) :
    Nearer (toRat b) (shortest b).toRat d.toRat := by
  obtain ⟨hsome, -⟩ := shortest_spec hb hfin
  rcases Int.lt_or_eq_of_le (exponent_le_shortest hb hfin hd) with hlt | heq
  · obtain ⟨hpow, hnine⟩ := ten_pow_rounds hb hfin hd hlen hlt
    refine (nearer_of_onGrid? hb hsome hpow).trans ?_
    rw [Decimal.toRat_pow] at hpow ⊢
    have hmid := ten_pow_nearer hb (hd.1.trans hnine) hpow.2.1
    rcases le_or_gt (10 ^ (shortest b).exponent) (toRat b) with hle | hgt
    · exact .of_le_of_le (hnine.trans (Decimal.nine_le _)) hle
    · exact .of_middle_le (by linarith) hgt.le (by linarith)
  · obtain ⟨k, p⟩ := d
    obtain rfl : p = (shortest b).exponent := heq
    exact nearer_of_onGrid? hb hsome hd

end Shortest

end Magnitude

namespace Binary64

/-- Of the decimals that are read as the double, one that none is shorter than and, of those with as many digits, none
    is nearer than; the greater one of two. -/
structure IsShortest (x : Binary64) (d : Decimal) : Prop where
  reads : nearest? x.isNegative d.digits d.exponent = some x
  fewest : ∀ e : Decimal, nearest? x.isNegative e.digits e.exponent = some x → d.length ≤ e.length
  nearest : ∀ e : Decimal, nearest? x.isNegative e.digits e.exponent = some x → e.length = d.length →
    Nearer x.absolute d.toRat e.toRat

variable {x : Binary64}

theorem absolute_eq_toRat (x : Binary64) : x.absolute = Magnitude.toRat x.magnitude := absolute_eq x

section Nonzero
variable (hpos : 0 < x.magnitude) (hfin : x.magnitude < Magnitude.infinite)
include hpos hfin

theorem reads_iff {d : Decimal} :
    nearest? x.isNegative d.digits d.exponent = some x ↔ Magnitude.Rounds d.toRat x.magnitude :=
  nearest?_eq_some_iff hpos hfin x.ofMagnitude_magnitude

theorem isShortest_shortest : x.IsShortest (Magnitude.shortest x.magnitude) := by
  refine ⟨(reads_iff hpos hfin).mpr (Magnitude.rounds_shortest hpos hfin), fun e he => ?_, fun e he hlen => ?_⟩
  · exact Magnitude.length_shortest_le hpos hfin ((reads_iff hpos hfin).mp he)
  · rw [absolute_eq_toRat]
    exact Magnitude.nearer_shortest hpos hfin ((reads_iff hpos hfin).mp he) hlen

/-- There is one shortest decimal. -/
theorem isShortest_iff {d : Decimal} : x.IsShortest d ↔ d = Magnitude.shortest x.magnitude := by
  refine ⟨fun h => ?_, fun h => h ▸ isShortest_shortest hpos hfin⟩
  have hs := isShortest_shortest hpos hfin
  have hlen := Nat.le_antisymm (h.fewest _ hs.reads) (hs.fewest _ h.reads)
  have hdigits {e : Decimal} (he : x.IsShortest e) : 0 < e.digits :=
    Magnitude.digits_pos (Magnitude.attractsDecimal_iff.mpr ((reads_iff hpos hfin).mp he.reads)) hpos
  exact Decimal.eq_of_toRat (hdigits h) (hdigits hs) hlen
    ((h.nearest _ hs.reads hlen.symm).antisymm (hs.nearest _ h.reads hlen))

end Nonzero

end Binary64

end RecordQuery
