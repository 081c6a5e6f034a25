import RecordQuery.Binary64.Basic

/-! # The nearest double

Reading a decimal means finding the double nearest to it. A magnitude `b` and its successor enclose the decimal, and their
midpoint decides between them; at the midpoint itself the even one is taken. -/

namespace RecordQuery

namespace Magnitude

/-- The greatest magnitude of at most `k` units: the leading 53 bits of `k` and how many bits follow them. -/
def floor (k : Nat) : Nat := (k.log2 - 52) * 2 ^ 52 + k / 2 ^ (k.log2 - 52)

/-- The magnitude nearest to `n / d` units, the even one of two. It may be `infinite` or more. -/
def nearest (n d : Nat) : Nat :=
  let b := floor (n / d)
  let middle := (units b + units (b + 1)) * d
  if 2 * n < middle || (2 * n == middle && b % 2 == 0) then b else b + 1

theorem floor_of_lt {k : Nat} (h : k < 2 ^ 53) : floor k = k := by
  have h0 : k.log2 - 52 = 0 := by
    by_cases hk : k = 0
    · subst hk
      rfl
    · have := (Nat.log2_lt hk).2 h
      omega
  simp [floor, h0]

theorem floor_bounds {k : Nat} (h : 2 ^ 53 ≤ k) :
    ∃ s, floor k = s * 2 ^ 52 + k / 2 ^ s ∧ 2 ^ 52 ≤ k / 2 ^ s ∧ k / 2 ^ s < 2 ^ 53 := by
  have h0 : k ≠ 0 := by omega
  have hs : 53 ≤ k.log2 := (Nat.le_log2 h0).2 h
  have e : k.log2 = 52 + (k.log2 - 52) := by omega
  refine ⟨k.log2 - 52, rfl, (Nat.le_div_iff_mul_le (Nat.two_pow_pos _)).2 ?_,
    (Nat.div_lt_iff_lt_mul (Nat.two_pow_pos _)).2 ?_⟩
  · rw [← Nat.pow_add, ← e]
    exact Nat.log2_self_le h0
  · rw [← Nat.pow_add, show 53 + (k.log2 - 52) = k.log2 + 1 by omega]
    exact Nat.lt_log2_self

/-- The floor has no more units than the number it is taken of. -/
theorem units_floor_le (k : Nat) : units (floor k) ≤ k := by
  by_cases h : k < 2 ^ 53
  · exact Nat.le_of_eq (by rw [floor_of_lt h, units_of_lt h])
  · obtain ⟨s, hf, lo, hi⟩ := floor_bounds (Nat.le_of_not_lt h)
    rw [hf, units_add s _ lo hi]
    exact Nat.div_mul_le_self k _

/-- The next magnitude has more. -/
theorem lt_units_floor_succ (k : Nat) : k < units (floor k + 1) := by
  by_cases h : k < 2 ^ 53
  · rw [floor_of_lt h]
    by_cases hk : k + 1 < 2 ^ 53
    · rw [units_of_lt hk]
      omega
    · rw [show k + 1 = 1 * 2 ^ 52 + 2 ^ 52 by omega, units_add 1 _ (by omega) (by omega)]
      omega
  · obtain ⟨s, hf, lo, hi⟩ := floor_bounds (Nat.le_of_not_lt h)
    have hk : k < (k / 2 ^ s + 1) * 2 ^ s := by
      rw [Nat.mul_comm]
      exact Nat.lt_mul_div_succ k (Nat.two_pow_pos s)
    rw [hf]
    by_cases hc : k / 2 ^ s + 1 < 2 ^ 53
    · rw [Nat.add_assoc, units_add s _ (by omega) hc]
      exact hk
    · have e : k / 2 ^ s = 2 ^ 53 - 1 := by omega
      rw [e] at hk ⊢
      rw [show s * 2 ^ 52 + (2 ^ 53 - 1) + 1 = (s + 1) * 2 ^ 52 + 2 ^ 52 by omega,
        units_add (s + 1) _ (by omega) (by omega), Nat.pow_succ]
      omega

end Magnitude

namespace Binary64

/-- The double nearest to `digits · 10 ^ exponent` under the sign, or nothing if that is beyond all doubles. Below 10⁻⁴⁰⁰
every decimal is zero and from 10⁴⁰⁰ on every decimal is out of range, so no greater power of ten is formed. -/
def nearest? (negative : Bool) (digits : Nat) (exponent : Int) : Option Binary64 :=
  let order := exponent + (digits.log2 / 4 : Nat)
  if digits = 0 ∨ exponent + (digits.log2 / 3 + 1 : Nat) < -400 then some (ofMagnitude negative 0)
  else if 400 < order then none
  else
    let b := Magnitude.nearest (digits * 10 ^ exponent.toNat * 2 ^ 1074) (10 ^ (-exponent).toNat)
    if b < Magnitude.infinite then some (ofMagnitude negative b) else none

end Binary64

end RecordQuery
