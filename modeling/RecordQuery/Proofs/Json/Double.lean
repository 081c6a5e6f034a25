import RecordQuery.Binary64.Numeral
import RecordQuery.Proofs.Binary64.Shortest
import RecordQuery.Proofs.Json.Numeral

/-! The numeral of a double is read back as that double. Whichever way the digits are laid out, the parts of
    the numeral denote the shortest decimal, and that rounds to the double. -/

namespace RecordQuery

open Text Magnitude

namespace Binary64

theorem ofMagnitude_magnitude (x : Binary64) : ofMagnitude x.isNegative x.magnitude = x := by
  have hlt := x.bits.toNat_lt
  have hbits : (if x.isNegative then 2 ^ 63 + x.magnitude else x.magnitude) = x.bits.toNat := by
    simp only [isNegative, magnitude, decide_eq_true_eq]
    split <;> omega
  rw [ofMagnitude, hbits, UInt64.ofNat_toNat]

end Binary64

namespace Json.Numeral

/-! ### Layouts -/

/-- The parts of the positional layout. -/
def ofPositional (negative : Bool) (ds : List Char) (n : Int) : Numeral :=
  if n ≤ 0 then ⟨negative, ['0'], List.replicate (-n).toNat '0' ++ ds, none⟩
  else if ds.length ≤ n then ⟨negative, ds ++ List.replicate (n.toNat - ds.length) '0', [], none⟩
  else ⟨negative, ds.take n.toNat, ds.drop n.toNat, none⟩

/-- The parts of the layout with an exponent. -/
def ofScientific (negative : Bool) (ds : List Char) (n : Int) : Numeral :=
  ⟨negative, ds.take 1, ds.drop 1,
    some (if n ≤ 0 then (true, digitsOfNat (1 - n).toNat) else (false, digitsOfNat (n - 1).toNat))⟩

variable {negative : Bool} {ds : List Char} {n : Int}

theorem negative_ofPositional : (ofPositional negative ds n).negative = negative := by
  unfold ofPositional
  split
  · rfl
  · split <;> rfl

theorem exponent_ofPositional : (ofPositional negative ds n).exponent = none := by
  unfold ofPositional
  split
  · rfl
  · split <;> rfl

theorem unsigned_ofPositional (hd : isDigits ds = true) : (ofPositional negative ds n).unsigned = positional ds n := by
  have hne := (isDigits_iff.mp hd).1
  unfold ofPositional positional
  split
  · simp [unsigned, fractionText, exponentText, hne]
  · split
    · simp [unsigned, fractionText, exponentText]
    · rename_i hlen
      have hdrop : ds.drop n.toNat ≠ [] := by
        rw [ne_eq, List.drop_eq_nil_iff]
        omega
      simp [unsigned, fractionText, exponentText, hdrop]

theorem unsigned_ofScientific : (ofScientific negative ds n).unsigned = scientific ds n := by
  have hfraction : fractionText (ds.drop 1) = if ds.length ≤ 1 then [] else '.' :: ds.drop 1 := by
    simp only [fractionText, List.drop_eq_nil_iff]
  simp only [ofScientific, scientific, unsigned, hfraction, List.append_assoc]
  by_cases hn : n ≤ 0
  · simp [exponentText, hn]
  · simp [exponentText, hn]

theorem readable_ofPositional (hd : isDigits ds = true) (hz : ds.head? ≠ some '0') :
    (ofPositional negative ds n).Readable := by
  obtain ⟨hne, hall⟩ := isDigits_iff.mp hd
  obtain ⟨d, more, rfl⟩ := List.exists_cons_of_ne_nil hne
  have hfirst : d ≠ '0' := fun h => hz (by rw [h]; rfl)
  have hzero : ∀ c ∈ List.replicate (-n).toNat '0', c.isDigit = true := by
    intro c hc
    rw [List.eq_of_mem_replicate hc]
    rfl
  unfold ofPositional
  split
  · refine ⟨rfl, fun _ => rfl, ?_, nofun⟩
    intro c hc
    rcases List.mem_append.mp hc with hc | hc
    · exact hzero c hc
    · exact hall c hc
  · split
    · refine ⟨isDigits_iff.mpr ⟨by simp, ?_⟩, fun h => absurd (Option.some.inj h) hfirst, nofun, nofun⟩
      intro c hc
      rcases List.mem_append.mp hc with hc | hc
      · exact hall c hc
      · rw [List.eq_of_mem_replicate hc]
        rfl
    · rename_i hn _
      obtain ⟨k, hk⟩ : ∃ k, n.toNat = k + 1 := ⟨n.toNat - 1, by omega⟩
      rw [hk, List.take_succ_cons]
      refine ⟨isDigits_iff.mpr ⟨by simp, ?_⟩, fun h => absurd (Option.some.inj h) hfirst, ?_, nofun⟩
      · intro c hc
        rw [← List.take_succ_cons] at hc
        exact hall c (List.mem_of_mem_take hc)
      · exact fun c hc => hall c (List.mem_of_mem_drop hc)

theorem readable_ofScientific (hd : isDigits ds = true) (hz : ds.head? ≠ some '0') :
    (ofScientific negative ds n).Readable := by
  obtain ⟨hne, hall⟩ := isDigits_iff.mp hd
  obtain ⟨d, more, rfl⟩ := List.exists_cons_of_ne_nil hne
  have hfirst : d ≠ '0' := fun h => hz (by rw [h]; rfl)
  have hdigit : d.isDigit = true := hall d (by simp)
  refine ⟨isDigits_iff.mpr ⟨nofun, ?_⟩, fun h => absurd (Option.some.inj h) hfirst, ?_, ?_⟩
  · intro c hc
    obtain rfl := List.mem_singleton.mp hc
    exact hdigit
  · exact fun c hc => hall c (List.mem_cons_of_mem d hc)
  · intro e he
    obtain rfl := Option.some.inj he
    split
    · exact isDigits_digitsOfNat _
    · exact isDigits_digitsOfNat _

/-! ### What the layouts denote -/

theorem attractsDecimal_ofPositional (b : Nat) :
    attractsDecimal b (ofPositional negative ds n).decimal = attractsDecimal b ⟨natOfDigits ds, n - ds.length⟩ := by
  unfold ofPositional
  split
  · have hdigits : natOfDigits ('0' :: (List.replicate (-n).toNat '0' ++ ds)) = natOfDigits ds := by
      rw [← List.cons_append, ← List.replicate_succ, natOfDigits_zeros_append]
    simp only [decimal, exponentValue, List.cons_append, List.nil_append, hdigits, List.length_append,
      List.length_replicate]
    congr 2
    omega
  · split
    · simp only [decimal, exponentValue, List.append_nil, natOfDigits_append_zeros, attractsDecimal_zeros,
        List.length_nil]
      congr 2
      omega
    · simp only [decimal, exponentValue, List.take_append_drop, List.length_drop]
      congr 2
      omega

theorem decimal_ofScientific (hne : ds ≠ []) :
    (ofScientific negative ds n).decimal = ⟨natOfDigits ds, n - ds.length⟩ := by
  have hlen := List.length_pos_iff.mpr hne
  have hexp : exponentValue (ofScientific negative ds n).exponent = n - 1 := by
    simp only [ofScientific]
    split
    · rw [exponentValue, natOfDigits_digitsOfNat]
      omega
    · rw [exponentValue, natOfDigits_digitsOfNat]
      omega
  have hdigits : (ofScientific negative ds n).whole ++ (ofScientific negative ds n).fraction = ds :=
    List.take_append_drop 1 ds
  rw [decimal, hexp, hdigits]
  simp only [ofScientific, List.length_drop]
  congr 1
  omega

/-! ### How long the parts are -/

theorem digits_length_le (m : Numeral) :
    m.digits.length ≤ ((m.whole ++ m.fraction).dropWhile (· == '0')).length := by
  obtain ⟨zeros, hz⟩ := m.exists_zeros
  rw [digits, hz, ← List.append_assoc, @List.dropWhile_append _ _ _ (List.replicate zeros '0')]
  split
  · rename_i h
    rw [List.isEmpty_iff.mp h]
    exact Nat.zero_le _
  · rw [List.length_append]
    exact Nat.le_add_right _ _

theorem length_digits_ofPositional :
    ((ofPositional negative ds n).digits.length : Int) ≤ max (ds.length : Int) n := by
  have hle := digits_length_le (ofPositional negative ds n)
  have hdrop (cs : List Char) : (cs.dropWhile (· == '0')).length ≤ cs.length :=
    (List.dropWhile_sublist _).length_le
  have hds := hdrop ds
  revert hle
  unfold ofPositional
  split
  · intro hle
    have hzeros : ('0' :: (List.replicate (-n).toNat '0' ++ ds)).dropWhile (· == '0') = ds.dropWhile (· == '0') := by
      rw [← List.cons_append, ← List.replicate_succ, List.dropWhile_append_of_pos]
      intro c hc
      rw [List.eq_of_mem_replicate hc]
      rfl
    simp only [List.cons_append, List.nil_append, hzeros] at hle
    omega
  · split
    · intro hle
      have hall := hdrop (ds ++ List.replicate (n.toNat - ds.length) '0')
      simp only [List.append_nil] at hle
      rw [List.length_append, List.length_replicate] at hall
      omega
    · intro hle
      simp only [List.take_append_drop] at hle
      omega

theorem length_digits_ofScientific : (ofScientific negative ds n).digits.length ≤ ds.length := by
  have hle := digits_length_le (ofScientific negative ds n)
  have hdigits : (ofScientific negative ds n).whole ++ (ofScientific negative ds n).fraction = ds :=
    List.take_append_drop 1 ds
  rw [hdigits] at hle
  exact Nat.le_trans hle (List.dropWhile_sublist _).length_le

theorem pastLimit?_ofScientific (hlo : -400 < n) (hhi : n < 400) :
    ∀ e ∈ (ofScientific negative ds n).exponent, pastLimit? 0 e.2 = none := by
  intro e he
  obtain rfl := Option.some.inj he
  have hread (k : Nat) (hk : k ≤ 401) : pastLimit? 0 (digitsOfNat k) = none := by
    refine pastLimit?_eq_none ?_
    have := natOfDigits_digitsOfNat k
    rw [natOfDigits] at this
    rw [this]
    exact Nat.le_trans hk (by decide)
  split
  · exact hread _ (by omega)
  · exact hread _ (by omega)

end Json.Numeral

namespace Binary64

open Json

theorem shortest_bounds {b : Nat} (hb : 0 < b) (hfin : b < infinite) :
    (digitsOfNat (shortest b).digits).length ≤ 662 ∧
      -324 < (shortest b).exponent + (digitsOfNat (shortest b).digits).length ∧
      (shortest b).exponent + (digitsOfNat (shortest b).digits).length ≤ 309 := by
  obtain ⟨hd, he⟩ := attractsDecimal_shortest hb hfin
  have hlow := lt_order hd hb (lt_ten_pow_length (shortest b).digits)
  have hpos := digits_pos hd hb
  have hhigh : ((digitsOfNat (shortest b).digits).length - 1 : Nat) + (shortest b).exponent < 309 := by
    refine order_lt hd hfin ?_
    rcases Nat.eq_zero_or_pos ((digitsOfNat (shortest b).digits).length - 1) with h0 | h0
    · rw [h0]
      exact hpos
    · exact ten_pow_le_of_length h0 (by omega)
  omega

/-- The parts of the numeral of a double other than zero. -/
def parts (x : Binary64) : Numeral :=
  let ds := digitsOfNat (shortest x.magnitude).digits
  let n := (shortest x.magnitude).exponent + ds.length
  if positionalFrom ≤ x.magnitude ∧ x.magnitude < positionalBelow then .ofPositional x.isNegative ds n
  else .ofScientific x.isNegative ds n

theorem negative_parts {x : Binary64} : x.parts.negative = x.isNegative := by
  simp only [parts]
  split
  · exact Numeral.negative_ofPositional
  · rfl

section Parts
variable {x : Binary64} (hpos : 0 < x.magnitude) (hfin : x.magnitude < infinite)
include hpos

theorem text_parts : x.parts.text = x.numeral := by
  have hzero : ¬x.isZero = true := by
    rw [isZero, beq_iff_eq]
    omega
  have hdigits := isDigits_digitsOfNat (shortest x.magnitude).digits
  rw [numeral, if_neg hzero]
  simp only [parts]
  split
  · rw [Numeral.text, Numeral.negative_ofPositional, Numeral.unsigned_ofPositional hdigits]
  · rw [Numeral.text, Numeral.unsigned_ofScientific]
    rfl

include hfin

theorem readable_parts : x.parts.Readable := by
  have hdigits := isDigits_digitsOfNat (shortest x.magnitude).digits
  have hhead := head?_digitsOfNat (Nat.ne_of_gt (digits_pos (attractsDecimal_shortest hpos hfin).1 hpos))
  simp only [parts]
  split
  · exact Numeral.readable_ofPositional hdigits hhead
  · exact Numeral.readable_ofScientific hdigits hhead

theorem attractsDecimal_parts : attractsDecimal x.magnitude x.parts.decimal = true := by
  obtain ⟨hd, -⟩ := attractsDecimal_shortest hpos hfin
  have hdenotes : (⟨natOfDigits (digitsOfNat (shortest x.magnitude).digits), (shortest x.magnitude).exponent +
      (digitsOfNat (shortest x.magnitude).digits).length - (digitsOfNat (shortest x.magnitude).digits).length⟩ :
      Decimal) = shortest x.magnitude := by
    rw [natOfDigits_digitsOfNat, Int.add_sub_cancel]
  simp only [parts]
  split
  · rw [Numeral.attractsDecimal_ofPositional, hdenotes]
    exact hd
  · rw [Numeral.decimal_ofScientific (digitsOfNat_ne_nil _), hdenotes]
    exact hd

theorem limits_parts :
    x.parts.digits.length ≤ digitLimit ∧ ∀ e ∈ x.parts.exponent, pastLimit? 0 e.2 = none := by
  obtain ⟨hlen, hlo, hhi⟩ := shortest_bounds hpos hfin
  simp only [parts, digitLimit]
  split
  · have hle := @Numeral.length_digits_ofPositional x.isNegative (digitsOfNat (shortest x.magnitude).digits)
      ((shortest x.magnitude).exponent + (digitsOfNat (shortest x.magnitude).digits).length)
    refine ⟨by omega, ?_⟩
    rw [Numeral.exponent_ofPositional]
    nofun
  · exact ⟨Nat.le_trans Numeral.length_digits_ofScientific (by omega),
      Numeral.pastLimit?_ofScientific (by omega) (by omega)⟩

theorem value_parts (hint : x.parts.integer? = none) (rest : List Char) : x.parts.value rest = .ok (.float x) := by
  obtain ⟨hdigits, hexp⟩ := limits_parts hpos hfin
  rw [Numeral.value_eq_float rest hpos hfin (attractsDecimal_parts hpos hfin) hint hdigits hexp, negative_parts,
    ofMagnitude_magnitude]

theorem significand_parts : x.parts.significand ≠ 0 := by
  have hsig := Numeral.attractsDecimal_significand x.parts x.magnitude
  rw [attractsDecimal_parts hpos hfin] at hsig
  exact Nat.ne_of_gt (digits_pos hsig hpos)

end Parts

/-- The numeral of a finite double has parts that can be read, and unless they are an integer in range their
    value is the double. -/
theorem exists_numeral {x : Binary64} (hx : x.isFinite = true) :
    ∃ m : Numeral, m.text = x.numeral ∧ m.Readable ∧ (m.significand = 0 → m.negative = false ∧ x.isZero = true) ∧
      (m.integer? = none → ∀ rest, m.value rest = .ok (.float x)) := by
  have hfin : x.magnitude < infinite := of_decide_eq_true hx
  rcases Nat.eq_zero_or_pos x.magnitude with h0 | hpos
  · have hzero : x.isZero = true := by
      rw [isZero, h0]
      rfl
    refine ⟨⟨false, ['0'], [], none⟩, ?_, ⟨rfl, fun _ => rfl, nofun, nofun⟩, fun _ => ⟨rfl, hzero⟩, nofun⟩
    rw [numeral, if_pos hzero]
    rfl
  · exact ⟨x.parts, text_parts hpos, readable_parts hpos hfin, fun h0 => absurd h0 (significand_parts hpos hfin),
      value_parts hpos hfin⟩

end Binary64

end RecordQuery
