import RecordQuery.Proofs.Binary64.Fewest

/-! How a double is written: its shortest digits, laid out by where the point stands among them, as JavaScript lays them
    out. The layout is chosen by comparing doubles, which comes to the same. -/

namespace RecordQuery
open Text Json

/-- The number `0.s · 10 ^ n` as JavaScript writes it, for the digits `s`. -/
def numberText (s : List Char) (n : Int) : List Char :=
  if s.length ≤ n ∧ n ≤ 21 then s ++ List.replicate (n - s.length).toNat '0'
  else if 0 < n ∧ n ≤ 21 then s.take n.toNat ++ '.' :: s.drop n.toNat
  else if -6 < n ∧ n ≤ 0 then '0' :: '.' :: (List.replicate (-n).toNat '0' ++ s)
  else
    let exponent := 'e' :: (if n - 1 < 0 then '-' else '+') :: digitsOfNat (n - 1).natAbs
    if s.length = 1 then s ++ exponent else s.take 1 ++ '.' :: (s.drop 1 ++ exponent)

/-- The numbers of JSON: an optional minus sign, digits without a zero in front, an optional fraction and an optional
    exponent. -/
def IsNumber (cs : List Char) : Prop :=
  ∃ minus whole fraction exponent, cs = minus ++ whole ++ fraction ++ exponent ∧
    (minus = [] ∨ minus = ['-']) ∧
    isDigits whole = true ∧ (whole.head? = some '0' → whole = ['0']) ∧
    (fraction = [] ∨ ∃ ds, isDigits ds = true ∧ fraction = '.' :: ds) ∧
    (exponent = [] ∨ ∃ mark sign ds, (mark = 'e' ∨ mark = 'E') ∧ (sign = [] ∨ sign = ['+'] ∨ sign = ['-']) ∧
      isDigits ds = true ∧ exponent = mark :: (sign ++ ds))

theorem Json.Numeral.Readable.isNumber {m : Numeral} (h : m.Readable) : IsNumber m.text := by
  refine ⟨if m.negative then ['-'] else [], m.whole, Numeral.fractionText m.fraction,
    Numeral.exponentText m.exponent, ?_, ?_, h.whole, h.zero, ?_, ?_⟩
  · rw [Numeral.text, Numeral.unsigned]
    split
    · simp
    · simp
  · split
    · exact .inr rfl
    · exact .inl rfl
  · by_cases hf : m.fraction = []
    · exact .inl (if_pos hf)
    · exact .inr ⟨m.fraction, isDigits_iff.mpr ⟨hf, h.fraction⟩, if_neg hf⟩
  · cases he : m.exponent with
    | none => exact .inl rfl
    | some e =>
      refine .inr ⟨'e', [if e.1 then '-' else '+'], e.2, .inl rfl, ?_, h.exponent e he, rfl⟩
      split
      · exact .inr (.inr rfl)
      · exact .inr (.inl rfl)

/-! ### Layouts -/

section Layouts
variable {s : List Char} {n : Int} (hs : s ≠ [])
include hs

theorem positional_eq (hlo : -6 < n) (hhi : n ≤ 21) : positional s n = numberText s n := by
  have hlen := List.length_pos_iff.mpr hs
  rw [positional, numberText]
  by_cases hn : n ≤ 0
  · rw [if_pos hn, if_neg (by omega), if_neg (by omega), if_pos ⟨hlo, hn⟩]
  · rw [if_neg hn]
    by_cases hk : s.length ≤ n
    · rw [if_pos hk, if_pos ⟨hk, hhi⟩, Int.toNat_sub' n s.length]
    · rw [if_neg hk, if_neg (hk ·.1), if_pos ⟨by omega, hhi⟩]

theorem scientific_eq (h : ¬(-6 < n ∧ n ≤ 21)) : scientific s n = numberText s n := by
  have hlen := List.length_pos_iff.mpr hs
  have hexp : (if n ≤ 0 then '-' :: digitsOfNat (1 - n).toNat else '+' :: digitsOfNat (n - 1).toNat) =
      (if n - 1 < 0 then '-' else '+') :: digitsOfNat (n - 1).natAbs := by
    by_cases hn : n ≤ 0
    · rw [if_pos hn, if_pos (by omega), show (1 - n).toNat = (n - 1).natAbs by omega]
    · rw [if_neg hn, if_neg (by omega), show (n - 1).toNat = (n - 1).natAbs by omega]
  have hout : ¬(s.length ≤ n ∧ n ≤ 21) ∧ ¬(0 < n ∧ n ≤ 21) ∧ ¬(-6 < n ∧ n ≤ 0) := by omega
  rw [numberText, if_neg hout.1, if_neg hout.2.1, if_neg hout.2.2]
  simp only [scientific, hexp]
  by_cases hone : s.length = 1
  · rw [if_pos hone.le, if_pos hone, List.take_of_length_le hone.le, List.append_nil]
  · rw [if_neg (by omega), if_neg hone, List.append_assoc, List.cons_append]

end Layouts

/-! ### The positional range -/

namespace Magnitude

/-- Whether a magnitude is below that of a power of ten can be seen from where the point of its shortest decimal stands. -/
theorem le_iff_lt_point {b c : Nat} {m : Int} (hc : attractsDecimal c ⟨1, m⟩ = true)
    (hnine : attractsDecimal c ⟨9, m - 1⟩ = false) {d : Decimal} (hb : 0 < b) (hd : Rounds d.toRat b)
    (hfew : ∀ e : Decimal, Rounds e.toRat b → d.length ≤ e.length) : c ≤ b ↔ m < d.point := by
  rw [attractsDecimal_iff] at hc
  constructor
  · intro hcb
    refine Int.not_le.mp fun hm => ?_
    -- below the power of ten there is only one of its own magnitude, which has one digit as well
    have hlt : d.toRat ≤ (⟨1, m⟩ : Decimal).toRat := by
      rw [Decimal.toRat_pow]
      exact d.toRat_lt.le.trans (Decimal.ten_pow_le hm)
    obtain rfl : b = c := Nat.le_antisymm (hd.mono hc hlt) hcb
    have hlen : d.length ≤ 1 := (hfew _ hc).trans_eq (Decimal.length_one m)
    have hexp : d.exponent < m := by
      have := d.length_pos
      rw [Decimal.point] at hm
      omega
    have hbetween : Rounds (⟨9, m - 1⟩ : Decimal).toRat b := by
      refine hd.between hc (Decimal.toRat_le_nine hlen hexp) ?_
      rw [Decimal.toRat_pow]
      exact Decimal.nine_le m
    rw [attractsDecimal_iff.mpr hbetween] at hnine
    cases hnine
  · intro hm
    refine hc.mono hd ?_
    rw [Decimal.toRat_pow]
    exact (Decimal.ten_pow_le (by omega)).trans (Decimal.le_toRat (digits_pos (attractsDecimal_iff.mpr hd) hb))

end Magnitude

namespace Binary64

/-- The positional range begins and ends with the doubles that `1e-6` and `1e21` are read as. -/
theorem positional_ends :
    nearest? false 1 (-6) = some (ofMagnitude false positionalFrom) ∧
      nearest? false 1 21 = some (ofMagnitude false positionalBelow) := by
  constructor
  · exact nearest?_of_attracts (x := ⟨1, -6⟩) false (by decide) (by decide) (by decide +kernel)
  · exact nearest?_of_attracts (x := ⟨1, 21⟩) false (by decide) (by decide) (by decide +kernel)

variable {x : Binary64}

theorem positional_iff {d : Decimal} (hpos : 0 < x.magnitude) (hfin : x.magnitude < Magnitude.infinite)
    (hd : x.IsShortest d) :
    positionalFrom ≤ x.magnitude ∧ x.magnitude < positionalBelow ↔ -6 < d.point ∧ d.point ≤ 21 := by
  have hreads := (reads_iff hpos hfin).mp hd.reads
  have hfew (e : Decimal) (he : Magnitude.Rounds e.toRat x.magnitude) := hd.fewest e ((reads_iff hpos hfin).mpr he)
  rw [Magnitude.le_iff_lt_point (m := -6) (by decide +kernel) (by decide +kernel) hpos hreads hfew, ← Nat.not_le,
    Magnitude.le_iff_lt_point (m := 21) (by decide +kernel) (by decide +kernel) hpos hreads hfew, Int.not_lt]

/-- If the range agrees with the exponent, either layout is that of the exponent. -/
theorem unsigned_eq {s : List Char} {n : Int} {p : Prop} [Decidable p] (hs : s ≠ []) (hp : p ↔ -6 < n ∧ n ≤ 21) :
    (if p then positional s n else scientific s n) = numberText s n := by
  split
  · rename_i h
    exact positional_eq hs (hp.mp h).1 (hp.mp h).2
  · rename_i h
    exact scientific_eq hs (h <| hp.mpr ·)

/-- A finite double is written as JavaScript writes it: zero without a sign, and any other by its shortest digits, laid
    out by their exponent. What the layout is chosen by is whether the double is in the positional range, which is the
    same choice, and the text is a number of JSON. -/
theorem numeral_javascript (hx : x.isFinite = true) :
    (x.isZero = true → x.numeral = ['0']) ∧
      (x.isZero = false → ∃ d, (∀ e, x.IsShortest e ↔ e = d) ∧
        x.numeral = (if x.isNegative then ['-'] else []) ++ numberText (digitsOfNat d.digits) d.point ∧
        (positionalFrom ≤ x.magnitude ∧ x.magnitude < positionalBelow ↔ -6 < d.point ∧ d.point ≤ 21)) ∧
      IsNumber x.numeral := by
  have hfin : x.magnitude < Magnitude.infinite := of_decide_eq_true hx
  refine ⟨fun hzero => if_pos hzero, fun hzero => ?_, ?_⟩
  · have hpos : 0 < x.magnitude := Nat.pos_of_ne_zero (beq_eq_false_iff_ne.mp hzero)
    have hrange := positional_iff hpos hfin (isShortest_shortest hpos hfin)
    have hne := digitsOfNat_ne_nil (Magnitude.shortest x.magnitude).digits
    refine ⟨Magnitude.shortest x.magnitude, fun e => isShortest_iff hpos hfin, ?_, hrange⟩
    simp only [numeral, hzero, Bool.false_eq_true, if_false]
    rw [← unsigned_eq hne hrange]
    cases x.isNegative <;> rfl
  · obtain ⟨m, htext, hread, -⟩ := exists_numeral hx
    exact htext ▸ hread.isNumber

/-- The double nearest to 10⁻⁶ is less than that, and yet the least that is written without an exponent. -/
theorem numeral_javascript_millionth :
    (⟨0xBEB0C6F7A0B5ED8D⟩ : Binary64).isFinite = true ∧
      IsNumber (⟨0xBEB0C6F7A0B5ED8D⟩ : Binary64).numeral ∧
      ∃ d, (⟨0xBEB0C6F7A0B5ED8D⟩ : Binary64).IsShortest d ∧ -6 < d.point ∧ d.point ≤ 21 ∧
        '-' :: numberText (digitsOfNat d.digits) d.point = "-0.000001".toList := by
  obtain ⟨-, hnonzero, hnumber⟩ := numeral_javascript (x := ⟨0xBEB0C6F7A0B5ED8D⟩) (by decide)
  obtain ⟨d, hd, htext, hrange⟩ := hnonzero (by decide)
  have hpoint := hrange.mp (by decide)
  refine ⟨by decide, hnumber, d, (hd d).mpr rfl, hpoint.1, hpoint.2, ?_⟩
  rw [← List.singleton_append]
  exact htext.symm.trans (by decide +kernel)

end Binary64

end RecordQuery
