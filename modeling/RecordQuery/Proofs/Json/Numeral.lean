import RecordQuery.Json.NumberReader
import RecordQuery.Proofs.Basic
import RecordQuery.Proofs.Binary64.Nearest
import RecordQuery.Proofs.Decimal

/-! Reading a numeral back from its parts. Written out, a numeral is read as those parts as long as what
    follows does not go on with it, and its value depends on the number that the parts denote and not on how
    the digits are spread over them. -/

namespace RecordQuery.Json
open Text

/-- No numeral goes on with the next character. -/
def EndsNumeral (rest : List Char) : Prop := ∀ c ∈ rest.head?, c.isDigit = false ∧ c ≠ '.' ∧ c ≠ 'e' ∧ c ≠ 'E'

namespace Numeral

/-- The exponent of a numeral, written out. -/
def exponentText : Option (Bool × List Char) → List Char
  | none => []
  | some (negative, ds) => 'e' :: (if negative then '-' else '+') :: ds

/-- The point and the digits after it, written out. -/
def fractionText (ds : List Char) : List Char := if ds = [] then [] else '.' :: ds

/-- A numeral written out without its sign. -/
def unsigned (n : Numeral) : List Char := n.whole ++ (fractionText n.fraction ++ exponentText n.exponent)

/-- A numeral written out. -/
def text (n : Numeral) : List Char := if n.negative then '-' :: n.unsigned else n.unsigned

/-- A numeral that can be read: a whole part that starts with a zero is that zero, and no part with a mark
    before it is empty. -/
structure Readable (n : Numeral) : Prop where
  whole : isDigits n.whole = true
  zero : n.whole.head? = some '0' → n.whole = ['0']
  fraction : ∀ c ∈ n.fraction, c.isDigit = true
  exponent : ∀ e ∈ n.exponent, isDigits e.2 = true

end Numeral

/-! ### Parts -/

theorem readDigits_append {ds rest : List Char} {p : Problem} (h : isDigits ds = true)
    (hr : ∀ c ∈ rest.head?, c.isDigit = false) : readDigits p (ds ++ rest) = .ok (ds, rest) := by
  obtain ⟨hne, hd⟩ := isDigits_iff.mp h
  obtain ⟨c, cs, rfl⟩ := List.exists_cons_of_ne_nil hne
  have ht := takeWhile_append hd hr
  have hw := dropWhile_append hd hr
  rw [List.cons_append] at ht hw ⊢
  rw [readDigits, if_pos (hd c (by simp)), ht, hw]

theorem readWhole_append {ds rest : List Char} (h : isDigits ds = true) (hz : ds.head? = some '0' → ds = ['0'])
    (hr : ∀ c ∈ rest.head?, c.isDigit = false) : readWhole (ds ++ rest) = .ok (ds, rest) := by
  have hread : readDigits .endInValue (ds ++ rest) = .ok (ds, rest) := readDigits_append h hr
  unfold readWhole
  split
  · rename_i c cs heq
    obtain ⟨hne, -⟩ := isDigits_iff.mp h
    obtain ⟨d, ds, rfl⟩ := List.exists_cons_of_ne_nil hne
    obtain ⟨rfl, htail⟩ := List.cons.inj heq
    obtain ⟨-, rfl⟩ := List.cons.inj (hz rfl)
    obtain rfl : rest = c :: cs := htail
    rw [if_neg (by simp [hr c rfl])]
  · exact hread

theorem readFraction_append {ds rest : List Char} (h : ∀ c ∈ ds, c.isDigit = true)
    (hr : ∀ c ∈ rest.head?, c.isDigit = false ∧ c ≠ '.') :
    readFraction (Numeral.fractionText ds ++ rest) = .ok (ds, rest) := by
  by_cases hds : ds = []
  · subst hds
    simp only [Numeral.fractionText, if_pos, List.nil_append]
    unfold readFraction
    split
    · exact absurd rfl (hr '.' rfl).2
    · rfl
  · rw [Numeral.fractionText, if_neg hds, List.cons_append, readFraction]
    exact readDigits_append (isDigits_iff.mpr ⟨hds, h⟩) fun c hc => (hr c hc).1

theorem readExponent_append {e : Option (Bool × List Char)} {rest : List Char}
    (h : ∀ x ∈ e, isDigits x.2 = true) (hr : EndsNumeral rest) :
    readExponent (Numeral.exponentText e ++ rest) = .ok (e, rest) := by
  cases e with
  | none =>
    cases rest with
    | nil => rfl
    | cons c rest =>
      obtain ⟨-, -, he, hE⟩ := hr c rfl
      rw [Numeral.exponentText, List.nil_append, readExponent, if_neg (not_or.mpr ⟨he, hE⟩)]
  | some x =>
    obtain ⟨negative, ds⟩ := x
    have hread : readDigits .endInValue (ds ++ rest) = .ok (ds, rest) :=
      readDigits_append (h _ rfl) fun c hc => (hr c hc).1
    cases negative with
    | false => simp [Numeral.exponentText, readExponent, readSign, hread]
    | true => simp [Numeral.exponentText, readExponent, readSign, hread]

theorem head?_exponentText {e : Option (Bool × List Char)} {rest : List Char} (hr : EndsNumeral rest) :
    ∀ c ∈ (Numeral.exponentText e ++ rest).head?, c.isDigit = false ∧ c ≠ '.' := by
  intro c hc
  cases e with
  | none => exact ⟨(hr c hc).1, (hr c hc).2.1⟩
  | some x =>
    obtain rfl : 'e' = c := Option.some.inj hc
    decide

theorem readNumeral_unsigned {n : Numeral} {rest : List Char} (h : n.Readable) (hr : EndsNumeral rest) :
    readNumeral n.negative (n.unsigned ++ rest) = .ok (n, rest) := by
  have hexp := head?_exponentText (e := n.exponent) hr
  have hfrac : ∀ c ∈ (Numeral.fractionText n.fraction ++ (Numeral.exponentText n.exponent ++ rest)).head?,
      c.isDigit = false := by
    intro c hc
    by_cases hf : n.fraction = []
    · rw [hf] at hc
      exact (hexp c hc).1
    · rw [Numeral.fractionText, if_neg hf] at hc
      obtain rfl : '.' = c := Option.some.inj hc
      rfl
  rw [Numeral.unsigned, List.append_assoc, List.append_assoc, readNumeral,
    readWhole_append h.whole h.zero hfrac]
  simp only [readFraction_append h.fraction hexp, readExponent_append h.exponent hr]

theorem readNumber_unsigned {n : Numeral} {rest : List Char} (h : n.Readable) (hr : EndsNumeral rest) :
    readNumber n.negative (n.unsigned ++ rest) = (n.value rest).map (·, rest) := by
  rw [readNumber, readNumeral_unsigned h hr]

namespace Numeral

/-! ### Integers -/

theorem readInt64?_eq_none {ds more : List Char} {c : Char} (hc : c.isDigit = false) (h : isDigits ds = true) :
    readInt64? (ds ++ c :: more) = none ∧ readInt64? ('-' :: (ds ++ c :: more)) = none := by
  have hno : isDigits (ds ++ c :: more) = false := by
    rw [Bool.eq_false_iff, ne_eq, isDigits_iff]
    intro ⟨_, hall⟩
    have := hall c (by simp)
    rw [hc] at this
    cases this
  obtain ⟨hne, hd⟩ := isDigits_iff.mp h
  obtain ⟨d, ds, rfl⟩ := List.exists_cons_of_ne_nil hne
  have hdigit := hd d (by simp)
  refine ⟨?_, by rw [readInt64?, hno]; rfl⟩
  unfold readInt64?
  split
  · rename_i heq
    obtain ⟨rfl, -⟩ := List.cons.inj heq
    cases hdigit
  · rename_i heq
    obtain ⟨rfl, -⟩ := List.cons.inj heq
    cases hdigit
  · rw [hno]
    rfl

theorem significand_of_fraction {n : Numeral} (h : n.fraction = []) : n.significand = natOfDigits n.whole := by
  rw [significand_eq, decimals, h]
  simp

/-- Apart from the negative zero, a numeral is an integer in range if it is one as a text. -/
theorem readInt64?_text {n : Numeral} (h : n.Readable) (hz : n.significand = 0 → n.negative = false) :
    readInt64? n.text = n.integer? := by
  obtain ⟨negative, whole, fraction, exponent⟩ := n
  have hwhole : isDigits whole = true := h.whole
  have hmark {c : Char} {more : List Char} (hc : c.isDigit = false)
      (htail : fractionText fraction ++ exponentText exponent = c :: more) :
      readInt64? (text ⟨negative, whole, fraction, exponent⟩) = none := by
    obtain ⟨hpos, hneg⟩ := @readInt64?_eq_none whole more c hc hwhole
    simp only [text, unsigned, htail]
    split
    · exact hneg
    · exact hpos
  cases fraction with
  | cons c cs => exact hmark (c := '.') rfl rfl
  | nil =>
    cases exponent with
    | some e => exact hmark (c := 'e') rfl rfl
    | none =>
      have hsig : significand ⟨negative, whole, [], none⟩ = natOfDigits whole := significand_of_fraction rfl
      rw [hsig] at hz
      simp only [text, unsigned, fractionText, exponentText, integer?, hsig, if_pos, List.append_nil]
      cases negative with
      | false => exact readInt64?_digits hwhole
      | true =>
        have hne : natOfDigits whole ≠ 0 := fun h0 => nomatch hz h0
        rw [if_pos rfl, if_pos rfl, if_neg hne]
        exact readInt64?_minus hwhole

theorem integer?_eq_some {n : Numeral} {i : Int64} (h : n.integer? = some i) :
    n.fraction = [] ∧ n.exponent = none ∧
      i.toInt = if n.negative then -(n.significand : Int) else n.significand := by
  unfold integer? at h
  split at h
  · rename_i hf he
    refine ⟨hf, he, ?_⟩
    split at h
    · rename_i hneg
      split at h
      · cases h
      · rw [toInt_of_int64? h, if_pos hneg]
    · rename_i hneg
      rw [toInt_of_int64? h, if_neg hneg]
  · cases h

theorem numeralOfInt_of_integer? {n : Numeral} {i : Int64} (h : n.Readable)
    (hz : n.significand = 0 → n.negative = false) (hi : n.integer? = some i) : numeralOfInt i.toInt = n.text := by
  obtain ⟨hf, he, hval⟩ := integer?_eq_some hi
  have hunsigned : n.unsigned = digitsOfNat n.significand := by
    rw [significand_of_fraction hf, digitsOfNat_natOfDigits h.whole h.zero, unsigned, hf, he]
    simp [fractionText, exponentText]
  rw [numeralOfInt_eq, text, hunsigned, hval]
  by_cases hneg : n.negative = true
  · have hne : n.significand ≠ 0 := fun h0 => by
      rw [hz h0] at hneg
      cases hneg
    simp only [hneg, if_true, Int.natAbs_neg, Int.natAbs_natCast]
    rw [if_pos (by omega)]
  · simp [hneg]

/-! ### Doubles -/

/-- The number that an exponent denotes, zero if there is none. -/
def exponentValue : Option (Bool × List Char) → Int
  | none => 0
  | some (true, ds) => -(natOfDigits ds : Int)
  | some (false, ds) => natOfDigits ds

/-- The number that the parts denote without the sign. -/
def decimal (n : Numeral) : Decimal :=
  ⟨natOfDigits (n.whole ++ n.fraction), exponentValue n.exponent - n.fraction.length⟩

theorem power_eq (n : Numeral) : n.power = exponentValue n.exponent - n.decimals.length := by
  rw [power]
  rcases n.exponent with _ | ⟨_ | _, ds⟩ <;> rfl

/-- Of the digits after the point, those that are no decimals are zeros. -/
theorem exists_zeros (n : Numeral) : ∃ zeros, n.fraction = n.decimals ++ List.replicate zeros '0' := by
  have hall : ∀ c ∈ n.fraction.reverse.takeWhile (· == '0'), c = '0' := by
    intro c hc
    simpa using List.all_eq_true.mp List.all_takeWhile c hc
  have hsplit := List.takeWhile_append_dropWhile (p := (· == '0')) (l := n.fraction.reverse)
  rw [List.eq_replicate_of_mem hall] at hsplit
  have hreverse := congrArg List.reverse hsplit
  rw [List.reverse_append, List.reverse_replicate, List.reverse_reverse] at hreverse
  exact ⟨_, hreverse.symm⟩

theorem attractsDecimal_significand (n : Numeral) (b : Nat) :
    Magnitude.attractsDecimal b ⟨n.significand, n.power⟩ = Magnitude.attractsDecimal b n.decimal := by
  obtain ⟨zeros, hz⟩ := n.exists_zeros
  have hdigits : n.decimal.digits = n.significand * 10 ^ zeros := by
    rw [decimal, hz, ← List.append_assoc, natOfDigits_append_zeros, significand_eq]
  have hpower : n.power = n.decimal.exponent + zeros := by
    have hlen := congrArg List.length hz
    rw [List.length_append, List.length_replicate] at hlen
    simp only [power_eq, decimal]
    omega
  rw [hpower, ← Magnitude.attractsDecimal_zeros, ← hdigits]

/-- A numeral that is no integer has the value of any magnitude that its number rounds to. -/
theorem value_eq_float {n : Numeral} {b : Nat} (rest : List Char) (hb : 0 < b) (hfin : b < Magnitude.infinite)
    (h : Magnitude.attractsDecimal b n.decimal = true) (hint : n.integer? = none)
    (hdigits : n.digits.length ≤ digitLimit) (hexp : ∀ e ∈ n.exponent, pastLimit? 0 e.2 = none) :
    n.value rest = .ok (.float (.ofMagnitude n.negative b)) := by
  rw [← attractsDecimal_significand] at h
  have hdouble : n.double? = some (.ofMagnitude n.negative b) := by
    rw [double?, if_pos hdigits]
    exact Binary64.nearest?_of_attracts n.negative hb hfin h
  unfold value
  rw [hint, hdouble]
  cases he : n.exponent with
  | none => rfl
  | some e =>
    simp only [Option.bind_some, hexp e he]
    rfl

theorem pastLimit?_eq_none {m : Nat} {ds : List Char} (h : Nat.ofDigitChars 10 ds m ≤ exponentLimit) :
    pastLimit? m ds = none := by
  induction ds generalizing m with
  | nil => rfl
  | cons d ds ih =>
    rw [Nat.ofDigitChars_cons] at h
    have hle : 10 * m + (d.toNat - '0'.toNat) ≤ exponentLimit := by
      rw [Nat.ofDigitChars_eq_ofDigitChars_zero] at h
      have hpos : 1 ≤ 10 ^ ds.length := Nat.pow_pos (by decide)
      have := Nat.mul_le_mul_right (10 * m + (d.toNat - '0'.toNat)) hpos
      omega
    rw [pastLimit?, if_neg (Nat.not_lt_of_le hle)]
    exact ih h

end Numeral

end RecordQuery.Json
