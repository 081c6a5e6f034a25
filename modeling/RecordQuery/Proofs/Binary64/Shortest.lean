import RecordQuery.Proofs.Binary64.Nearest

/-! The search for the shortest decimal ends: a grid that is finer than half the distance to the next magnitude
    has a point that rounds to the magnitude, and the finest grid that is tried is that fine. -/

namespace RecordQuery

/-! ### Powers of two and of ten -/

theorem pow_le_pow_of_steps {a b m k l c : Nat} (h : a ^ m ≤ b ^ k) (h' : a ^ l ≤ b ^ c) (i j : Nat) :
    a ^ (m * i + l * j) ≤ b ^ (k * i + c * j) := by
  rw [Nat.pow_add, Nat.pow_add, Nat.pow_mul, Nat.pow_mul, Nat.pow_mul, Nat.pow_mul]
  exact Nat.mul_le_mul (Nat.pow_le_pow_left h i) (Nat.pow_le_pow_left h' j)

theorem ten_pow_le (p : Nat) : 10 ^ p ≤ 2 ^ (10 * (p / 3) + 4 * (p % 3)) := by
  have h := pow_le_pow_of_steps (by decide : 10 ^ 3 ≤ 2 ^ 10) (by decide : 10 ^ 1 ≤ 2 ^ 4) (p / 3) (p % 3)
  rwa [Nat.one_mul, Nat.div_add_mod] at h

theorem le_ten_pow (p : Nat) : 2 ^ (93 * (p / 28) + 3 * (p % 28)) ≤ 10 ^ p := by
  have h := pow_le_pow_of_steps (by decide : 2 ^ 93 ≤ 10 ^ 28) (by decide : 2 ^ 3 ≤ 10 ^ 1) (p / 28) (p % 28)
  rwa [Nat.one_mul, Nat.div_add_mod] at h

namespace Magnitude

/-- The distance to the next magnitude is a power of two, and a magnitude is less than `2 ^ 53` of them. -/
theorem exists_gap (b : Nat) : ∃ s, units (b + 1) = units b + 2 ^ s ∧ units b < 2 ^ (s + 53) := by
  rcases Nat.lt_or_ge b (2 ^ 52) with hb | hb
  · rw [units_of_lt (by omega), units_of_lt (by omega)]
    exact ⟨0, rfl, by omega⟩
  · obtain ⟨s, t, rfl, ht, ht'⟩ := exists_add hb
    have hunits := units_add s t ht ht'
    have hlt : t * 2 ^ s < 2 ^ (s + 53) := by
      rw [Nat.pow_add, Nat.mul_comm (2 ^ s)]
      exact Nat.mul_lt_mul_of_pos_right ht' (Nat.two_pow_pos s)
    refine ⟨s, ?_, by rwa [hunits]⟩
    rw [hunits, ← Nat.succ_mul]
    rcases Nat.lt_or_ge (t + 1) (2 ^ 53) with hc | hc
    · rw [Nat.add_assoc]
      exact units_add s (t + 1) (by omega) hc
    · -- the next magnitude starts the next power of two
      obtain rfl : t = 2 ^ 53 - 1 := by omega
      rw [show s * 2 ^ 52 + (2 ^ 53 - 1) + 1 = (s + 1) * 2 ^ 52 + 2 ^ 52 by omega,
        units_add (s + 1) (2 ^ 52) (by omega) (by omega), Nat.pow_succ 2 s]
      omega

/-- On a grid finer than half the distance to the next magnitude, the first point above the magnitude rounds
    to it. -/
theorem attracts_above {b s step d : Nat} (hstep : 0 < step) (hgap : units (b + 1) = units b + 2 ^ s)
    (hfine : 2 * step < 2 ^ s * d) : attracts b ((units b * d / step + 1) * step) d = true := by
  have hbelow := Nat.div_mul_le_self (units b * d) step
  have hover := @Nat.lt_div_mul_add (units b * d) step hstep
  have hlow : units (b - 1) * d ≤ units b * d := Nat.mul_le_mul_right d (units_le_units (Nat.sub_le b 1))
  rw [attracts_iff, hgap]
  simp only [Nat.add_mul, Nat.one_mul]
  omega

theorem onGrid?_ne_none {b s : Nat} {p : Int} (hgap : units (b + 1) = units b + 2 ^ s)
    (hp : 2 * (10 ^ p.toNat * 2 ^ 1074) < 2 ^ s * 10 ^ (-p).toNat) : onGrid? b p ≠ none := by
  have hstep : 0 < 10 ^ p.toNat * 2 ^ 1074 := Nat.mul_pos (Nat.pow_pos (by decide)) unit_pos
  have habove := attracts_above hstep hgap hp
  intro hnone
  unfold onGrid? at hnone
  simp only [habove] at hnone
  split at hnone
  · cases hnone
  · cases hnone
  · cases hnone
  · rename_i hfalse
    cases hfalse

theorem attractsDecimal_of_onGrid? {b digits : Nat} {p : Int} (h : onGrid? b p = some digits) :
    attractsDecimal b ⟨digits, p⟩ = true := by
  unfold onGrid? at h
  unfold attractsDecimal
  simp only at h ⊢
  split at h
  · rename_i hbelow habove
    split at h <;> cases h
    · exact hbelow
    · exact habove
  · rename_i hbelow _
    cases h
    exact hbelow
  · rename_i _ habove
    cases h
    exact habove
  · cases h

theorem attractsDecimal_onGridsFrom {b k : Nat} {p : Int} (hk : 0 < k) (h : onGrid? b (p - (k - 1 : Nat)) ≠ none) :
    attractsDecimal b (onGridsFrom b k p) = true ∧ p - k < (onGridsFrom b k p).exponent := by
  induction k generalizing p with
  | zero => omega
  | succ k ih =>
    rw [onGridsFrom]
    split
    · rename_i digits hd
      refine ⟨attractsDecimal_of_onGrid? hd, ?_⟩
      show p - (k + 1 : Nat) < p
      omega
    · rename_i hnone
      rcases Nat.eq_zero_or_pos k with rfl | hk
      · exact absurd hnone (by simpa using h)
      · have hlast : p - 1 - (k - 1 : Nat) = p - (k + 1 - 1 : Nat) := by omega
        obtain ⟨hd, he⟩ := ih hk (by rwa [hlast])
        exact ⟨hd, by omega⟩

theorem log2_units_lt {b k : Nat} (hb : 0 < b) (h : units b < 2 ^ k) : (units b).log2 < k := by
  have hle := le_units b
  exact (Nat.log2_lt (by omega)).mpr h

/-- The finest grid that is tried is finer than half the distance to the next magnitude. -/
theorem fine_of_coarsest {b s : Nat} (hb : 0 < b) (hfin : b < infinite) (hs : units b < 2 ^ (s + 53)) :
    2 * (10 ^ (coarsest b - 31).toNat * 2 ^ 1074) < 2 ^ s * 10 ^ (-(coarsest b - 31)).toNat := by
  have hlog := log2_units_lt hb hs
  have hmost : (units b).log2 < 1024 + 1074 := by
    refine log2_units_lt hb (Nat.lt_of_lt_of_eq (units_lt_units hfin) ?_)
    rw [units_infinite, Nat.pow_add 2 1024 1074]
  obtain ⟨e, he⟩ : ∃ e, 1 + 1074 = e := ⟨_, rfl⟩
  rw [Nat.mul_left_comm, show 2 * 2 ^ 1074 = 2 ^ (1 + 1074) by rw [Nat.pow_add 2 1 1074, Nat.pow_one], he]
  have hp : coarsest b - 31 =
      (if 0 ≤ ((units b).log2 : Int) + 1 - 1074 then (((units b).log2 : Int) + 1 - 1074) * 31 / 100
        else (((units b).log2 : Int) + 1 - 1074) * 3 / 10) - 30 := by
    simp only [coarsest]
    omega
  generalize coarsest b - 31 = p at *
  rcases Int.lt_or_le p 0 with hneg | hpos
  · have h0 : p.toNat = 0 := by omega
    have hq := le_ten_pow (-p).toNat
    have hexp : e < s + (93 * ((-p).toNat / 28) + 3 * ((-p).toNat % 28)) := by omega
    rw [h0]
    calc 10 ^ 0 * 2 ^ e = 2 ^ e := Nat.one_mul _
      _ < 2 ^ (s + (93 * ((-p).toNat / 28) + 3 * ((-p).toNat % 28))) :=
          (Nat.pow_lt_pow_iff_right (by decide)).mpr hexp
      _ = 2 ^ s * 2 ^ (93 * ((-p).toNat / 28) + 3 * ((-p).toNat % 28)) := Nat.pow_add 2 s _
      _ ≤ 2 ^ s * 10 ^ (-p).toNat := Nat.mul_le_mul_left _ hq
  · have h0 : (-p).toNat = 0 := by omega
    rw [h0, Nat.pow_zero, Nat.mul_one]
    have hq := ten_pow_le p.toNat
    calc 10 ^ p.toNat * 2 ^ e ≤ 2 ^ (10 * (p.toNat / 3) + 4 * (p.toNat % 3)) * 2 ^ e :=
          Nat.mul_le_mul_right _ hq
      _ = 2 ^ (10 * (p.toNat / 3) + 4 * (p.toNat % 3) + e) := (Nat.pow_add 2 _ _).symm
      _ < 2 ^ s := Nat.pow_lt_pow_right (by decide) (by omega)

/-- The shortest decimal of a finite magnitude other than zero rounds to it, and its exponent is above -353. -/
theorem attractsDecimal_shortest {b : Nat} (hb : 0 < b) (hfin : b < infinite) :
    attractsDecimal b (shortest b) = true ∧ -353 < (shortest b).exponent := by
  obtain ⟨s, hgap, hs⟩ := exists_gap b
  have hgrid : onGrid? b (coarsest b - (32 - 1 : Nat)) ≠ none :=
    onGrid?_ne_none hgap (fine_of_coarsest hb hfin hs)
  obtain ⟨hd, he⟩ := attractsDecimal_onGridsFrom (by decide : 0 < 32) hgrid
  have hcoarse : -322 < coarsest b := by
    simp only [coarsest]
    omega
  refine ⟨hd, ?_⟩
  show -353 < (onGridsFrom b 32 (coarsest b)).exponent
  omega

end Magnitude

end RecordQuery
