import RecordQuery.Text.Numeral

/-! Decimal numerals of whole numbers: which characters they have, and that reading one gives the number back. -/

namespace RecordQuery.Text

theorem isDigit_of_mem_digitsOfNat {n : Nat} {c : Char} (h : c ∈ digitsOfNat n) : c.isDigit = true :=
  Nat.isDigit_of_mem_toDigits (by decide) (by decide) h

theorem digitsOfNat_ne_nil (n : Nat) : digitsOfNat n ≠ [] := Nat.toDigits_ne_nil

theorem isDigits_iff {ds : List Char} : isDigits ds = true ↔ ds ≠ [] ∧ ∀ c ∈ ds, c.isDigit = true := by
  simp [isDigits]

theorem isDigits_digitsOfNat (n : Nat) : isDigits (digitsOfNat n) = true :=
  isDigits_iff.mpr ⟨digitsOfNat_ne_nil n, fun _ => isDigit_of_mem_digitsOfNat⟩

theorem readInt64?_digits {ds : List Char} (h : isDigits ds = true) : readInt64? ds = int64? (natOfDigits ds) := by
  obtain ⟨-, hd⟩ := isDigits_iff.mp h
  unfold readInt64?
  split
  · exact absurd (hd '-' (by simp)) (by decide)
  · exact absurd (hd '+' (by simp)) (by decide)
  · rw [if_pos h]

theorem readInt64?_minus {ds : List Char} (h : isDigits ds = true) :
    readInt64? ('-' :: ds) = int64? (-(natOfDigits ds : Int)) := by
  rw [readInt64?, if_pos h]

theorem numeralOfInt_eq (n : Int) :
    numeralOfInt n = if n < 0 then '-' :: digitsOfNat n.natAbs else digitsOfNat n.natAbs := by
  cases n with
  | ofNat n => rfl
  | negSucc n =>
    rw [if_pos (Int.negSucc_lt_zero n)]
    rfl

theorem readInt64?_numeralOfInt (n : Int64) : readInt64? (numeralOfInt n.toInt) = some n := by
  have hd := isDigits_digitsOfNat n.toInt.natAbs
  rw [numeralOfInt_eq]
  by_cases h : n.toInt < 0
  · rw [if_pos h, readInt64?_minus hd, natOfDigits_digitsOfNat, show -(n.toInt.natAbs : Int) = n.toInt by omega]
    exact int64?_toInt n
  · rw [if_neg h, readInt64?_digits hd, natOfDigits_digitsOfNat, show (n.toInt.natAbs : Int) = n.toInt by omega]
    exact int64?_toInt n

/-! ### Places -/

theorem natOfDigits_append_zeros (ds : List Char) (zeros : Nat) :
    natOfDigits (ds ++ List.replicate zeros '0') = natOfDigits ds * 10 ^ zeros := by
  rw [natOfDigits, Nat.ofDigitChars_append, Nat.ofDigitChars_replicate_zero, Nat.mul_comm]
  rfl

theorem natOfDigits_zeros_append (zeros : Nat) (ds : List Char) :
    natOfDigits (List.replicate zeros '0' ++ ds) = natOfDigits ds := by
  rw [natOfDigits, Nat.ofDigitChars_append, Nat.ofDigitChars_replicate_zero, Nat.mul_zero]
  rfl

theorem lt_ten_pow_length (n : Nat) : n < 10 ^ (digitsOfNat n).length :=
  (Nat.length_toDigits_le_iff (by decide) (List.length_pos_iff.mpr (digitsOfNat_ne_nil n))).mp (Nat.le_refl _)

theorem ten_pow_le_of_length {n k : Nat} (hk : 0 < k) (h : k < (digitsOfNat n).length) : 10 ^ k ≤ n := by
  rcases Nat.lt_or_ge n (10 ^ k) with hn | hn
  · have := (Nat.length_toDigits_le_iff (by decide) hk).mpr hn
    exact absurd h (Nat.not_lt_of_le this)
  · exact hn

theorem head?_digitsOfNat {n : Nat} (hn : n ≠ 0) : (digitsOfNat n).head? ≠ some '0' := by
  induction n using Nat.strongRecOn with
  | _ n ih =>
    rcases Nat.lt_or_ge n 10 with h | h
    · rw [digitsOfNat, Nat.toDigits_of_lt_base h]
      simpa using hn
    · have hhead := ih (n / 10) (by omega) (by omega)
      rw [digitsOfNat, Nat.toDigits_of_base_le (by decide) h]
      obtain ⟨d, ds, hds⟩ := List.exists_cons_of_ne_nil (digitsOfNat_ne_nil (n / 10))
      rw [digitsOfNat] at hds
      rw [digitsOfNat, hds] at hhead
      rwa [hds]

theorem digitChar_of_isDigit {c : Char} (h : c.isDigit = true) :
    c.toNat - '0'.toNat < 10 ∧ (c.toNat - '0'.toNat).digitChar = c := by
  simp only [Char.isDigit, Bool.and_eq_true, decide_eq_true_eq, UInt32.le_iff_toNat_le] at h
  have hlo : 48 ≤ c.toNat := h.1
  have hhi : c.toNat ≤ 57 := h.2
  have hlt : c.toNat - '0'.toNat < 10 := Nat.lt_of_le_of_lt (Nat.sub_le_sub_right hhi 48) (by decide)
  refine ⟨hlt, Char.toNat_inj.mp ?_⟩
  rw [Nat.toNat_digitChar_of_lt_ten hlt]
  exact Nat.add_sub_cancel' hlo

theorem natOfDigits_concat (ds : List Char) (c : Char) :
    natOfDigits (ds ++ [c]) = 10 * natOfDigits ds + (c.toNat - '0'.toNat) := by
  rw [natOfDigits, Nat.ofDigitChars_append, Nat.ofDigitChars_cons, Nat.ofDigitChars_nil]
  rfl

theorem digitsOfNat_concat {n : Nat} {c : Char} (hn : 0 < n) (hc : c.isDigit = true) :
    digitsOfNat (10 * n + (c.toNat - '0'.toNat)) = digitsOfNat n ++ [c] := by
  obtain ⟨hlt, hchar⟩ := digitChar_of_isDigit hc
  rw [digitsOfNat, ← Nat.toDigits_append_toDigits (by decide) hn hlt, Nat.toDigits_of_lt_base hlt, hchar]
  rfl

theorem digitsOfNat_natOfDigits_reverse {ds : List Char} (hne : ds ≠ []) (hd : ∀ c ∈ ds, c.isDigit = true)
    (hz : ds.reverse.head? ≠ some '0') :
    0 < natOfDigits ds.reverse ∧ digitsOfNat (natOfDigits ds.reverse) = ds.reverse := by
  induction ds with
  | nil => exact absurd rfl hne
  | cons c ds ih =>
    obtain ⟨hc, hd⟩ := List.forall_mem_cons.mp hd
    rw [List.reverse_cons, natOfDigits_concat]
    rw [List.reverse_cons] at hz
    by_cases hds : ds = []
    · subst hds
      obtain ⟨hlt, hchar⟩ := digitChar_of_isDigit hc
      rw [List.reverse_nil, show natOfDigits [] = 0 from rfl, Nat.mul_zero, Nat.zero_add]
      refine ⟨Nat.pos_of_ne_zero fun h0 => ?_, ?_⟩
      · rw [h0] at hchar
        exact hz (by rw [← hchar]; rfl)
      · rw [digitsOfNat, Nat.toDigits_of_lt_base hlt, hchar]
        rfl
    · have hrev : ds.reverse ≠ [] := by simpa using hds
      obtain ⟨d, more, hmore⟩ := List.exists_cons_of_ne_nil hrev
      rw [hmore] at hz
      obtain ⟨hpos, hdigits⟩ := ih hds hd (by rw [hmore]; exact hz)
      refine ⟨by omega, ?_⟩
      rw [digitsOfNat_concat hpos hc, hdigits]

/-- A numeral without zeros in front is the only one of its number. -/
theorem digitsOfNat_natOfDigits {ds : List Char} (h : isDigits ds = true) (hz : ds.head? = some '0' → ds = ['0']) :
    digitsOfNat (natOfDigits ds) = ds := by
  obtain ⟨hne, hd⟩ := isDigits_iff.mp h
  by_cases hzero : ds = ['0']
  · subst hzero
    rfl
  · have hrev := @digitsOfNat_natOfDigits_reverse ds.reverse (by simpa using hne)
      (fun c hc => hd c (List.mem_reverse.mp hc)) (by rw [List.reverse_reverse]; exact fun h0 => hzero (hz h0))
    rw [List.reverse_reverse] at hrev
    exact hrev.2

end RecordQuery.Text
