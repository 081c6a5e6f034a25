import RecordQuery.Proofs.Binary64.Order
import RecordQuery.Proofs.Json.Rewrite

/-! The integers that doubles are written as. Every integer below 2⁵³ is a double, so one that rounds to a double
    is that double. Beyond 2⁵³ several integers round to one double, but all of them are beyond 2⁵³. -/

namespace RecordQuery

namespace Magnitude

/-- Up to a power of two, an integer below 2⁵³ is the number of some magnitude. -/
theorem units_floor {n : Nat} (h : n < 2 ^ 53) (e : Nat) : units (floor (n * 2 ^ e)) = n * 2 ^ e := by
  rcases Nat.lt_or_ge (n * 2 ^ e) (2 ^ 53) with hsmall | hlarge
  · rw [floor_of_lt hsmall, units_of_lt hsmall]
  · obtain ⟨s, hfloor, hlo, hhi⟩ := floor_bounds hlarge
    have hs : s ≤ e := by
      have hle : 2 ^ (52 + s) ≤ n * 2 ^ e := by
        rw [Nat.pow_add]
        exact (Nat.le_div_iff_mul_le (Nat.two_pow_pos s)).mp hlo
      have hlt : n * 2 ^ e < 2 ^ (53 + e) := by
        rw [Nat.pow_add]
        exact Nat.mul_lt_mul_of_pos_right h (Nat.two_pow_pos e)
      have hexponent := (Nat.pow_lt_pow_iff_right (by decide)).mp (Nat.lt_of_le_of_lt hle hlt)
      omega
    have hdvd : 2 ^ s ∣ n * 2 ^ e := Nat.dvd_trans (Nat.pow_dvd_pow 2 hs) (Nat.dvd_mul_left _ n)
    rw [hfloor, units_add s _ hlo hhi, Nat.div_mul_cancel hdvd]

theorem eq_of_attracts {a b : Nat} (h : attracts b (units a) 1 = true) : a = b := by
  obtain ⟨hlo, hhi, -⟩ := attracts_iff.mp h
  rcases Nat.lt_trichotomy a b with hab | hab | hab
  · have hbelow : units a ≤ units (b - 1) := units_le_units (by omega)
    have := units_lt_units hab
    omega
  · exact hab
  · have habove : units (b + 1) ≤ units a := units_le_units hab
    have := units_lt_units hab
    omega

theorem attractsDecimal_integer (b n : Nat) : attractsDecimal b ⟨n, 0⟩ = attracts b (n * 2 ^ 1074) 1 := by
  unfold attractsDecimal
  generalize 2 ^ 1074 = one
  rw [Int.toNat_zero, Nat.pow_zero, Nat.one_mul]
  rfl

/-- An integer below 2⁵³ rounds to nothing but itself. -/
theorem units_of_attracts {b n : Nat} (h : attractsDecimal b ⟨n, 0⟩ = true) (hn : n < 2 ^ 53) :
    units b = n * 2 ^ 1074 := by
  have hfloor := units_floor hn 1074
  rw [attractsDecimal_integer, ← hfloor] at h
  rw [← eq_of_attracts h, hfloor]

theorem units_two_pow : units 0x4340000000000000 = 2 ^ 53 * 2 ^ 1074 := by decide +kernel

/-- An integer that rounds to less than 2⁵³ is less than 2⁵³. -/
theorem lt_of_attracts {b n : Nat} (h : attractsDecimal b ⟨n, 0⟩ = true) (hb : b < 0x4340000000000000) :
    n < 2 ^ 53 := by
  rw [attractsDecimal_integer] at h
  obtain ⟨-, hhi, -⟩ := attracts_iff.mp h
  have hbelow : units b < units 0x4340000000000000 := units_lt_units hb
  have hnext : units (b + 1) ≤ units 0x4340000000000000 := units_le_units hb
  have hlt : n * 2 ^ 1074 < units 0x4340000000000000 := by
    generalize 2 ^ 1074 = one at hhi ⊢
    omega
  rw [units_two_pow] at hlt
  generalize 2 ^ 1074 = one at hlt
  exact Nat.lt_of_mul_lt_mul_right hlt

end Magnitude

namespace Binary64

/-- The integer of absolute value `k` is, to the digits that a double can hold, the double. -/
structure Rounds (n : Int64) (x : Binary64) (k : Nat) : Prop where
  toInt_eq : n.toInt = if x.isNegative then -(k : Int) else k
  attracts : Magnitude.attractsDecimal x.magnitude ⟨k, 0⟩ = true

theorem units_two_pow : (Magnitude.units 0x4340000000000000 : Int) = 2 ^ 53 * one := by decide +kernel

theorem natAbs_units (x : Binary64) : x.units.natAbs = Magnitude.units x.magnitude := by
  rw [units]
  split
  · rw [Int.natAbs_neg, Int.natAbs_natCast]
  · exact Int.natAbs_natCast _

theorem one_eq : one = ((2 ^ 1074 : Nat) : Int) := by decide +kernel

theorem compareInt_of_units {x : Binary64} (hx : x.isNaN = false) {n : Int64} (h : x.units = n.toInt * one)
    (m : Int64) : compareInt m x = some (Ord.compare m.toInt n.toInt) := by
  have hone := one_pos
  rw [compareInt_eq hx, h]
  rcases Int.lt_trichotomy m.toInt n.toInt with hmn | hmn | hmn
  · rw [Int.compare_eq_lt.mpr hmn, Int.compare_eq_lt.mpr (Int.mul_lt_mul_of_pos_right hmn hone)]
  · rw [hmn, Int.compare_eq_eq.mpr rfl, Int.compare_eq_eq.mpr rfl]
  · rw [Int.compare_eq_gt.mpr hmn, Int.compare_eq_gt.mpr (Int.mul_lt_mul_of_pos_right hmn hone)]

namespace Rounds
variable {n : Int64} {x : Binary64} {k : Nat}

theorem units_eq (h : Rounds n x k) (hk : k < 2 ^ 53) : x.units = n.toInt * one := by
  have hunits := Magnitude.units_of_attracts h.attracts hk
  rw [units, h.toInt_eq, hunits, one_eq, Int.natCast_mul]
  split
  · rw [Int.neg_mul]
  · rfl

/-- From 2⁵³ on the integer is on the same side of every integer below 2⁵³ as the double. -/
theorem compareInt_of_lt (h : Rounds n x k) (hx : x.isNaN = false) {m : Int64} (hm : m.toInt.natAbs < 2 ^ 53) :
    compareInt m x = some (Ord.compare m.toInt n.toInt) := by
  rcases Nat.lt_or_ge k (2 ^ 53) with hk | hk
  · exact compareInt_of_units hx (h.units_eq hk) m
  · have hone := one_pos
    have hunits : 2 ^ 53 * one ≤ (Magnitude.units x.magnitude : Int) := by
      rcases Nat.lt_or_ge x.magnitude 0x4340000000000000 with hlt | hge
      · exact absurd (Magnitude.lt_of_attracts h.attracts hlt) (Nat.not_lt_of_le hk)
      · rw [← units_two_pow]
        exact Int.ofNat_le.mpr (Magnitude.units_le_units hge)
    have hlo : -2 ^ 53 * one < m.toInt * one := Int.mul_lt_mul_of_pos_right (by omega) hone
    have hhi : m.toInt * one < 2 ^ 53 * one := Int.mul_lt_mul_of_pos_right (by omega) hone
    rw [Int.neg_mul] at hlo
    rw [compareInt_eq hx, units, h.toInt_eq]
    split
    · rw [Int.compare_eq_gt.mpr (by omega), Int.compare_eq_gt.mpr (by omega)]
    · rw [Int.compare_eq_lt.mpr (by omega), Int.compare_eq_lt.mpr (by omega)]

end Rounds

end Binary64

open Binary64 in
/-- The integer that a double is read again as rounds to the double. -/
theorem Value.rounds_of_reread {x : Binary64} {n : Int64} (hx : x.isFinite = true)
    (h : (float x).reread = .integer n) : ∃ k, Rounds n x k := by
  have hfin : x.magnitude < Magnitude.infinite := of_decide_eq_true hx
  rw [reread, if_pos hx] at h
  rcases Nat.eq_zero_or_pos x.magnitude with h0 | hpos
  · have hzero : x.isZero = true := by
      rw [isZero, h0]
      rfl
    rw [numeral, if_pos hzero] at h
    cases h
    refine ⟨0, ?_, ?_⟩
    · split <;> rfl
    · rw [h0]
      decide +kernel
  · have hread : Text.readInt64? x.numeral = x.parts.integer? := by
      rw [← text_parts hpos]
      exact Json.Numeral.readInt64?_text (readable_parts hpos hfin) fun h0 => absurd h0 (significand_parts hpos hfin)
    rw [hread] at h
    cases hint : x.parts.integer? with
    | none =>
      rw [hint] at h
      cases h
    | some i =>
      rw [hint] at h
      cases h
      obtain ⟨hfraction, hexponent, hval⟩ := Json.Numeral.integer?_eq_some hint
      rw [negative_parts] at hval
      refine ⟨x.parts.significand, hval, ?_⟩
      have hattracts := attractsDecimal_parts hpos hfin
      have hdecimal : x.parts.decimal = ⟨x.parts.significand, 0⟩ := by
        rw [Json.Numeral.significand_of_fraction hfraction, Json.Numeral.decimal, hfraction, hexponent, List.append_nil]
        rfl
      rw [hdecimal] at hattracts
      exact hattracts

end RecordQuery
