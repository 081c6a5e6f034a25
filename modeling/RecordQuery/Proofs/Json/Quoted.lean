import RecordQuery.Json.Printer
import RecordQuery.Json.StringReader

/-! A string is read back as it was written. Every character is written as itself or as an escape, and reading
    takes one step for either. -/

namespace RecordQuery.Json

theorem hexValue?_digitChar {d : Nat} (h : d < 16) : hexValue? d.digitChar = some d := by
  have hall : ∀ d < 16, hexValue? d.digitChar = some d := by decide
  exact hall d h

theorem readUnicodeEscape_control {c : Char} (h : c.toNat < 0x20) (rest : List Char) :
    readUnicodeEscape ('0' :: '0' :: (c.toNat / 16).digitChar :: (c.toNat % 16).digitChar :: rest) = .ok (c, rest) := by
  have h0 : hexValue? '0' = some 0 := rfl
  have hhigh := hexValue?_digitChar (d := c.toNat / 16) (by omega)
  have hlow := hexValue?_digitChar (d := c.toNat % 16) (by omega)
  have hunit : readCodeUnit ('0' :: '0' :: (c.toNat / 16).digitChar :: (c.toNat % 16).digitChar :: rest) =
      .ok (c.toNat, rest) := by
    simp [readCodeUnit, h0, hhigh, hlow]
    omega
  have hsurrogate : isLowSurrogate c.toNat = false ∧ isHighSurrogate c.toNat = false := by
    simp only [isLowSurrogate, isHighSurrogate, Bool.and_eq_false_iff, decide_eq_false_iff_not]
    omega
  simp [readUnicodeEscape, hunit, hsurrogate, Char.ofNat_toNat]

/-- A character is read in one step, whether it is written as itself or as an escape. -/
theorem readStringFrom_escaped (seen : List Char) (k : Nat) (c : Char) (rest : List Char) :
    readStringFrom seen (k + 1) (escaped c ++ rest) = readStringFrom (c :: seen) k rest := by
  unfold escaped
  split
  · rfl
  · rfl
  · rfl
  · rfl
  · rfl
  · rfl
  · rfl
  · rename_i hquote hback _ _ _ _ _
    split
    · rename_i hcontrol
      have hread := readUnicodeEscape_control hcontrol rest
      simp [readStringFrom, readEscape, hread]
    · rename_i hcontrol
      rw [List.singleton_append, readStringFrom, if_neg hquote, if_neg hback, if_neg hcontrol]

theorem readStringFrom_written (seen cs : List Char) {k : Nat} (hk : cs.length ≤ k) (rest : List Char) :
    readStringFrom seen (k + 1) (cs.flatMap escaped ++ '"' :: rest) = .ok (seen.reverse ++ cs, rest) := by
  induction cs generalizing seen k with
  | nil => simp [readStringFrom]
  | cons c cs ih =>
    obtain ⟨k, rfl⟩ : ∃ j, k = j + 1 := ⟨k - 1, by simp at hk; omega⟩
    rw [List.flatMap_cons, List.append_assoc, readStringFrom_escaped, ih (c :: seen) (by simpa using hk)]
    simp

theorem length_le_flatMap_escaped (cs : List Char) : cs.length ≤ (cs.flatMap escaped).length := by
  have hone (c : Char) : 1 ≤ (escaped c).length := by
    unfold escaped
    repeat' split
    all_goals simp
  induction cs with
  | nil => exact Nat.zero_le _
  | cons c cs ih =>
    have hc := hone c
    rw [List.flatMap_cons, List.length_append, List.length_cons]
    omega

/-- The text of a string is read back after its opening quotation mark. -/
theorem readString_stringText {bound : Nat} {s : String} (h : (stringText s).length ≤ bound) (rest : List Char) :
    readString bound (s.toList.flatMap escaped ++ '"' :: rest) = .ok (s, rest) := by
  have hlen := length_le_flatMap_escaped s.toList
  simp only [stringText, List.length_cons, List.length_append] at h
  have hread := readStringFrom_written [] s.toList (k := bound) (by omega) rest
  rw [readString, hread]
  simp

end RecordQuery.Json
