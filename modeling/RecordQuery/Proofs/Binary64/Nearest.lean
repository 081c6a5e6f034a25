import RecordQuery.Binary64.Nearest
import RecordQuery.Binary64.Shortest

/-! Decimals that round to a magnitude. A decimal between the midpoints of a magnitude and its neighbours is
    read as that magnitude: the magnitude or the one below it is the greatest with no more units than the
    decimal, and the midpoint between the two decides for the magnitude in either case. -/

namespace RecordQuery

namespace Magnitude

theorem units_le_units {a b : Nat} (h : a ≤ b) : units a ≤ units b := by
  rcases Nat.lt_or_eq_of_le h with h | rfl
  · exact Nat.le_of_lt (units_lt_units h)
  · exact Nat.le_refl _

theorem lt_of_units_lt {a b : Nat} (h : units a < units b) : a < b := by
  rcases Nat.lt_or_ge a b with hab | hab
  · exact hab
  · exact absurd (units_le_units hab) (Nat.not_le_of_lt h)

theorem le_units (b : Nat) : b ≤ units b := by
  induction b with
  | zero => exact Nat.zero_le _
  | succ b ih => exact Nat.lt_of_le_of_lt ih (units_lt_succ b)

theorem floor_eq {b k : Nat} (h : units b ≤ k) (h' : k < units (b + 1)) : floor k = b := by
  have hlo := units_floor_le k
  have hhi := lt_units_floor_succ k
  have h1 : b < floor k + 1 := lt_of_units_lt (Nat.lt_of_le_of_lt h hhi)
  have h2 : floor k < b + 1 := lt_of_units_lt (Nat.lt_of_le_of_lt hlo h')
  omega

theorem floor_div_eq {b n d : Nat} (hd : 0 < d) (h : units b * d ≤ n) (h' : n < units (b + 1) * d) :
    floor (n / d) = b :=
  floor_eq ((Nat.le_div_iff_mul_le hd).mpr h) ((Nat.div_lt_iff_lt_mul hd).mpr h')

/-- What the midpoints to both sides say of a decimal that rounds to a magnitude. -/
theorem attracts_iff {b n d : Nat} :
    attracts b n d = true ↔
      (units (b - 1) + units b) * d ≤ 2 * n ∧ 2 * n ≤ (units b + units (b + 1)) * d ∧
        (b % 2 = 1 → (units (b - 1) + units b) * d ≠ 2 * n ∧ 2 * n ≠ (units b + units (b + 1)) * d) := by
  simp only [attracts]
  by_cases hb : b % 2 = 0
  · rw [if_pos hb, Bool.and_eq_true, decide_eq_true_eq, decide_eq_true_eq]
    omega
  · rw [if_neg hb, Bool.and_eq_true, decide_eq_true_eq, decide_eq_true_eq]
    omega

theorem nearest_of_attracts {b n d : Nat} (hd : 0 < d) (h : attracts b n d = true) : nearest n d = b := by
  obtain ⟨hlo, hhi, htie⟩ := attracts_iff.mp h
  rcases Nat.lt_or_ge n (units b * d) with hn | hn
  · -- the decimal lies below the magnitude, so the magnitude before it is the floor
    obtain ⟨a, rfl⟩ : ∃ a, b = a + 1 := by
      refine ⟨b - 1, ?_⟩
      rcases Nat.eq_zero_or_pos b with rfl | hb
      · rw [units_of_lt (by omega)] at hn
        omega
      · omega
    simp only [Nat.add_sub_cancel, Nat.add_mul] at hlo htie
    have hfloor : floor (n / d) = a := floor_div_eq hd (by omega) hn
    simp only [nearest, hfloor, Nat.add_mul]
    rw [if_neg]
    simp only [Bool.or_eq_true, Bool.and_eq_true, decide_eq_true_eq, beq_iff_eq]
    omega
  · have hlt : units b * d < units (b + 1) * d := Nat.mul_lt_mul_of_pos_right (units_lt_succ b) hd
    simp only [Nat.add_mul] at hhi htie
    have hfloor : floor (n / d) = b := floor_div_eq hd hn (by omega)
    simp only [nearest, hfloor, Nat.add_mul]
    rw [if_pos]
    simp only [Bool.or_eq_true, Bool.and_eq_true, decide_eq_true_eq, beq_iff_eq]
    omega

/-! ### Decimals -/

/-- The two forms of one fraction round alike. -/
theorem attracts_mul {b n d c : Nat} (hc : 0 < c) : attracts b (n * c) (d * c) = attracts b n d := by
  have hmul (a : Nat) : a * (d * c) = a * d * c := (Nat.mul_assoc a d c).symm
  have htwo : 2 * (n * c) = 2 * n * c := (Nat.mul_assoc 2 n c).symm
  simp only [attracts, hmul, htwo, Nat.mul_le_mul_right_iff hc, Nat.mul_lt_mul_right hc]

/-- Whether a decimal rounds to the magnitude. -/
def attractsDecimal (b : Nat) (x : Decimal) : Bool :=
  attracts b (x.digits * (10 ^ x.exponent.toNat * 2 ^ 1074)) (10 ^ (-x.exponent).toNat)

theorem attractsDecimal_ten (b digits : Nat) (exponent : Int) :
    attractsDecimal b ⟨digits * 10, exponent⟩ = attractsDecimal b ⟨digits, exponent + 1⟩ := by
  simp only [attractsDecimal]
  have hpow (k : Nat) : 10 ^ (k + 1) = 10 ^ k * 10 := Nat.pow_succ 10 k
  generalize 2 ^ 1074 = one
  rcases Int.lt_or_le exponent 0 with h | h
  · have h0 : exponent.toNat = 0 := by omega
    have h1 : (exponent + 1).toNat = 0 := by omega
    have hd : (-exponent).toNat = (-(exponent + 1)).toNat + 1 := by omega
    rw [h0, h1, hd, hpow, Nat.mul_right_comm, attracts_mul (by decide)]
  · have h0 : (-exponent).toNat = 0 := by omega
    have h1 : (-(exponent + 1)).toNat = 0 := by omega
    have hn : (exponent + 1).toNat = exponent.toNat + 1 := by omega
    rw [h0, h1, hn, hpow, Nat.mul_assoc digits 10, ← Nat.mul_assoc 10, Nat.mul_comm 10]

/-- Zeros at the end of the digits are as good as a greater exponent. -/
theorem attractsDecimal_zeros (b digits zeros : Nat) (exponent : Int) :
    attractsDecimal b ⟨digits * 10 ^ zeros, exponent⟩ = attractsDecimal b ⟨digits, exponent + zeros⟩ := by
  induction zeros generalizing exponent with
  | zero => simp
  | succ zeros ih =>
    rw [Nat.pow_succ, ← Nat.mul_assoc, attractsDecimal_ten, ih]
    congr 2
    omega

/-! ### Orders of magnitude -/

theorem unit_pos : 0 < 2 ^ 1074 := by decide +kernel

theorem units_infinite : units infinite = 2 ^ 1024 * 2 ^ 1074 := by decide +kernel

/-- A decimal that rounds to a finite magnitude is below `10 ^ 309`. -/
theorem order_lt {b m : Nat} {x : Decimal} (h : attractsDecimal b x = true) (hb : b < infinite)
    (hm : 10 ^ m ≤ x.digits) : m + x.exponent < 309 := by
  obtain ⟨-, hhi, -⟩ := attracts_iff.mp h
  have hunits : units b + units (b + 1) ≤ 2 * (2 ^ 1024 * 2 ^ 1074) := by
    have h1 := units_le_units (Nat.le_of_lt hb)
    have h2 : units (b + 1) ≤ units infinite := units_le_units hb
    rw [units_infinite] at h1 h2
    generalize 2 ^ 1024 * 2 ^ 1074 = most at *
    omega
  have hlarge : 2 ^ 1024 < 10 ^ 309 := by decide +kernel
  have hone := unit_pos
  generalize 2 ^ 1074 = one at *
  generalize 2 ^ 1024 = most at *
  have hle : 10 ^ m * 10 ^ x.exponent.toNat ≤ most * 10 ^ (-x.exponent).toNat := by
    refine Nat.le_of_mul_le_mul_right (Nat.le_of_mul_le_mul_left ?_ (by decide : 0 < 2)) hone
    calc 2 * (10 ^ m * 10 ^ x.exponent.toNat * one)
        = 2 * (10 ^ m * (10 ^ x.exponent.toNat * one)) := by rw [Nat.mul_assoc (10 ^ m)]
      _ ≤ 2 * (x.digits * (10 ^ x.exponent.toNat * one)) :=
        Nat.mul_le_mul_left _ (Nat.mul_le_mul_right _ hm)
      _ ≤ (units b + units (b + 1)) * 10 ^ (-x.exponent).toNat := hhi
      _ ≤ 2 * (most * one) * 10 ^ (-x.exponent).toNat := Nat.mul_le_mul_right _ hunits
      _ = 2 * (most * 10 ^ (-x.exponent).toNat * one) := by rw [Nat.mul_assoc 2, Nat.mul_right_comm most]
  have hlt : 10 ^ (m + x.exponent.toNat) < 10 ^ (309 + (-x.exponent).toNat) := by
    rw [Nat.pow_add 10 m, Nat.pow_add 10 309]
    generalize 10 ^ 309 = large at *
    exact Nat.lt_of_le_of_lt hle (Nat.mul_lt_mul_of_pos_right hlarge (Nat.pow_pos (by decide)))
  have hexp := (Nat.pow_lt_pow_iff_right (by decide)).mp hlt
  omega

/-- A decimal that rounds to a magnitude other than zero is not below `10 ^ -324`. -/
theorem lt_order {b m : Nat} {x : Decimal} (h : attractsDecimal b x = true) (hb : 0 < b)
    (hm : x.digits < 10 ^ m) : -324 < m + x.exponent := by
  obtain ⟨hlo, -, -⟩ := attracts_iff.mp h
  have hunits : 1 ≤ units (b - 1) + units b := by
    have := le_units b
    omega
  have hsmall : 2 * 2 ^ 1074 ≤ 10 ^ 324 := by decide +kernel
  have hone := unit_pos
  generalize 2 ^ 1074 = one at *
  have hlt : 10 ^ (-x.exponent).toNat < 10 ^ (324 + (m + x.exponent.toNat)) := by
    have hpos : 0 < 10 ^ x.exponent.toNat * one := Nat.mul_pos (Nat.pow_pos (by decide)) hone
    rw [Nat.pow_add 10 324, Nat.pow_add 10 m]
    generalize 10 ^ 324 = large at *
    calc 10 ^ (-x.exponent).toNat
        ≤ (units (b - 1) + units b) * 10 ^ (-x.exponent).toNat := Nat.le_mul_of_pos_left _ hunits
      _ ≤ 2 * (x.digits * (10 ^ x.exponent.toNat * one)) := hlo
      _ < 2 * (10 ^ m * (10 ^ x.exponent.toNat * one)) :=
        Nat.mul_lt_mul_of_pos_left (Nat.mul_lt_mul_of_pos_right hm hpos) (by decide)
      _ = 2 * one * (10 ^ m * 10 ^ x.exponent.toNat) := by
        rw [← Nat.mul_assoc (10 ^ m), Nat.mul_comm _ one, Nat.mul_assoc]
      _ ≤ large * (10 ^ m * 10 ^ x.exponent.toNat) := Nat.mul_le_mul_right _ hsmall
  have hexp := (Nat.pow_lt_pow_iff_right (by decide)).mp hlt
  omega

theorem digits_pos {b : Nat} {x : Decimal} (h : attractsDecimal b x = true) (hb : 0 < b) : 0 < x.digits := by
  obtain ⟨digits, exponent⟩ := x
  rcases Nat.eq_zero_or_pos digits with rfl | hd
  · obtain ⟨hlo, -, -⟩ := attracts_iff.mp h
    have hunits := le_units b
    have hpos : 0 < (units (b - 1) + units b) * 10 ^ (-exponent).toNat :=
      Nat.mul_pos (by omega) (Nat.pow_pos (by decide))
    simp only [Nat.zero_mul, Nat.mul_zero] at hlo
    exact absurd hpos (Nat.not_lt_of_le hlo)
  · exact hd

end Magnitude

namespace Binary64

/-- A decimal that rounds to a finite magnitude other than zero is read as it. -/
theorem nearest?_of_attracts {b : Nat} {x : Decimal} (negative : Bool) (hb : 0 < b) (hfin : b < Magnitude.infinite)
    (h : Magnitude.attractsDecimal b x = true) :
    nearest? negative x.digits x.exponent = some (ofMagnitude negative b) := by
  have hd := Magnitude.digits_pos h hb
  have hne : x.digits ≠ 0 := by omega
  -- neither of the ends at which no power of ten is formed
  have hlow : ¬(x.digits = 0 ∨ x.exponent + (x.digits.log2 / 3 + 1 : Nat) < -400) := by
    have hlt : x.digits < 10 ^ (x.digits.log2 / 3 + 1) := by
      calc x.digits < 2 ^ (x.digits.log2 + 1) := Nat.lt_log2_self
        _ ≤ 2 ^ (3 * (x.digits.log2 / 3 + 1)) := Nat.pow_le_pow_right (by decide) (by omega)
        _ = (2 ^ 3) ^ (x.digits.log2 / 3 + 1) := Nat.pow_mul 2 3 _
        _ ≤ 10 ^ (x.digits.log2 / 3 + 1) := Nat.pow_le_pow_left (by decide) _
    have := Magnitude.lt_order h hb hlt
    omega
  have hhigh : ¬400 < x.exponent + (x.digits.log2 / 4 : Nat) := by
    have hle : 10 ^ (x.digits.log2 / 4) ≤ x.digits := by
      calc 10 ^ (x.digits.log2 / 4) ≤ (2 ^ 4) ^ (x.digits.log2 / 4) := Nat.pow_le_pow_left (by decide) _
        _ = 2 ^ (4 * (x.digits.log2 / 4)) := (Nat.pow_mul 2 4 _).symm
        _ ≤ 2 ^ x.digits.log2 := Nat.pow_le_pow_right (by decide) (by omega)
        _ ≤ x.digits := Nat.log2_self_le hne
    have := Magnitude.order_lt h hfin hle
    omega
  have hnearest := Magnitude.nearest_of_attracts (Nat.pow_pos (by decide)) h
  rw [← Nat.mul_assoc] at hnearest
  simp only [nearest?]
  rw [if_neg hlow, if_neg hhigh, hnearest, if_pos hfin]

end Binary64

end RecordQuery
