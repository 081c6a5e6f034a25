import RecordQuery.Proofs.Binary64.Integral
import RecordQuery.Proofs.Paths

/-! When a condition holds of a value that is read again. Integers and doubles are compared exactly, so a double
    that is written as an integer compares with every number as before if the two are equal. From 2⁵³ on they need
    not be, since the shortest digits of a double are filled up with zeros, and then a comparison with a number as
    great as they are can tell them apart. -/

namespace RecordQuery

namespace Value

/-- A value that is no double, or a double that is equal to what it is read again as. -/
def Exact (v : Value) : Prop := ∀ x, v = .float x → v.reread.strictEq v = true

/-- The number is small, or the value does not change in size when it is read again. -/
def Steady (v : Value) (n : Int64) : Prop := n.toInt.natAbs < 2 ^ 53 ∨ v.Exact

/-- Doubles below 2⁵³ are written exactly. -/
theorem exact_of_lt {x : Binary64} (h : x.magnitude < 0x4340000000000000) : (Value.float x).Exact := by
  rintro _ ⟨⟩
  have hx : x.isFinite = true := decide_eq_true (Nat.lt_trans h (by decide))
  have hnan := Binary64.isNaN_of_isFinite hx
  rcases reread_float hx with hx' | ⟨n, hx', -⟩
  · rw [hx', strictEq, numericOrder?, Binary64.compare, hnan, Int.compare_eq_eq.mpr rfl]
    rfl
  · obtain ⟨k, hk⟩ := rounds_of_reread hx hx'
    have hunits := hk.units_eq (Magnitude.lt_of_attracts hk.attracts h)
    rw [hx', strictEq, numericOrder?, Binary64.compareInt_of_units hnan hunits, Int.compare_eq_eq.mpr rfl]
    rfl

/-- A double of absolute value 2⁵³ at least that is not equal to what it is read again as. -/
def Altered (v : Value) : Prop :=
  ∃ x, v = .float x ∧ 2 ^ 53 * Binary64.one ≤ x.units.natAbs ∧ v.reread.strictEq v = false

theorem altered_of_not_steady {v : Value} {n : Int64} (h : ¬v.Steady n) : 2 ^ 53 ≤ n.toInt.natAbs ∧ v.Altered := by
  obtain ⟨hn, hv⟩ := not_or.mp h
  refine ⟨Nat.le_of_not_lt hn, ?_⟩
  obtain ⟨x, hv⟩ := Classical.not_forall.mp hv
  obtain ⟨rfl, hx⟩ := Classical.not_imp.mp hv
  have hlarge : 0x4340000000000000 ≤ x.magnitude := Nat.le_of_not_lt fun hlt => hx (exact_of_lt hlt x rfl)
  refine ⟨x, rfl, ?_, Bool.eq_false_iff.mpr hx⟩
  rw [← Binary64.units_two_pow, Binary64.natAbs_units]
  exact Int.ofNat_le.mpr (Magnitude.units_le_units hlarge)

/-! ### Comparisons with a constant -/

/-- Whether a value is null, a boolean or a string. -/
def isWord : Value → Bool
  | .null | .bool _ | .string _ => true
  | _ => false

theorem Plain.alikeTo_word {v c : Value} (h : v.Plain) (hc : c.isWord = true) : AlikeTo c v.reread v := by
  cases v with
  | null | bool b | integer n | string s => exact .refl _ _
  | float x =>
    rcases reread_float h.holdable with hx' | ⟨n, hx', -⟩
    · rw [hx']
      exact .refl _ _
    · rw [hx']
      cases c with
      | null | bool b | string s => exact ⟨rfl, rfl, rfl, rfl⟩
      | _ => cases hc
  | array _ | object _ =>
    cases c with
    | null | bool b | string s => exact ⟨rfl, rfl, rfl, rfl⟩
    | _ => cases hc

theorem alikeTo_of_compareInt {n m : Int64} {x : Binary64}
    (h : Binary64.compareInt m x = some (compare m.toInt n.toInt)) : AlikeTo (.integer m) (.integer n) (.float x) := by
  have hleft : numericOrder? (.integer n) (.integer m) = numericOrder? (.float x) (.integer m) := by
    rw [numericOrder?, numericOrder?, h, Option.map_some, Int.compare_swap]
  have hright : numericOrder? (.integer m) (.integer n) = numericOrder? (.integer m) (.float x) := h.symm
  refine ⟨?_, ?_, hleft, hright⟩
  · rw [strictEq, strictEq, hleft]
  · rw [strictEq, strictEq, hright]

theorem Plain.alikeTo_integer {v : Value} (h : v.Plain) {m : Int64} (hm : v.Steady m) :
    AlikeTo (.integer m) v.reread v := by
  cases v with
  | null | bool b | integer n | string s => exact .refl _ _
  | float x =>
    have hx : x.isFinite = true := h.holdable
    rcases reread_float hx with hx' | ⟨n, hx', -⟩
    · rw [hx']
      exact .refl _ _
    · have hnan := Binary64.isNaN_of_isFinite hx
      rw [hx']
      rcases hm with hsmall | hexact
      · obtain ⟨k, hk⟩ := rounds_of_reread hx hx'
        exact alikeTo_of_compareInt (hk.compareInt_of_lt hnan hsmall)
      · have heq : (Value.integer n).strictEq (.float x) = true := hx' ▸ hexact x rfl
        have hcompare : Binary64.compareInt n x = some .eq := eq_of_beq heq
        rw [Binary64.compareInt_eq hnan] at hcompare
        have hunits := Int.compare_eq_eq.mp (Option.some.inj hcompare)
        exact alikeTo_of_compareInt (Binary64.compareInt_of_units hnan hunits.symm m)
  | array _ | object _ => exact ⟨rfl, rfl, rfl, rfl⟩

end Value

/-! ### Conditions -/

theorem Value.Plain.alikeTo_literal {v : Value} (h : v.Plain) {e : Expr} (he : e.isLiteral = true)
    (hn : ∀ n, e = .number n → v.Steady n) (r : Value) : AlikeTo (e.valueIn r) v.reread v := by
  cases e with
  | number n => exact h.alikeTo_integer (hn n rfl)
  | string s => exact h.alikeTo_word rfl
  | keyword k => exact h.alikeTo_word (by cases k <;> rfl)
  | _ => cases he

/-- A condition holds of a record that is read again as of the record itself, if each number that it compares is
    small or compared with an exact value. -/
theorem Expr.Simple.holds_reread {e : Expr} (h : e.Simple) {r : Value} (hr : r.Plain)
    (hm : ∀ m ∈ e.measured, (r.walk m.1.fields).Steady m.2) : e.holds r.reread = e.holds r := by
  refine h.holds_congr (fun p _ => ?_) fun p _ l hl hmeasured => ?_
  · rw [hr.walk_reread]
    exact (hr.walk p.fields).isTruthy_reread
  · rw [hr.walk_reread]
    exact (hr.walk p.fields).alikeTo_literal hl (fun n hn => hm (p, n) (hmeasured n hn)) _

end RecordQuery
