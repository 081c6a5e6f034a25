import RecordQuery.Proofs.Binary64.Steps
import RecordQuery.Value.Order

/-! The numbers among values. Whether two of them are equal and how they are ordered is decided by the quantities that
    they denote, exactly, for integers and doubles alike and for a mixture of the two. -/

namespace RecordQuery.Value
open Binary64 (compareInt compareIntStepwise compare_eq_quantity compareInt_eq_quantity)

/-- The quantity that a number denotes. NaN denotes none, and neither does a value that is no number. -/
def quantity? : Value → Option (WithBot (WithTop ℚ))
  | .integer n => some ((n.toInt : ℚ) : WithTop ℚ)
  | .float x => if x.isNaN then none else some x.quantity
  | _ => none

/-- The values that are numbers. -/
inductive IsNumber : Value → Prop
  | integer (n : Int64) : IsNumber (.integer n)
  | float (x : Binary64) : IsNumber (.float x)

theorem quantity?_eq_none_iff {v : Value} (h : v.IsNumber) :
    v.quantity? = none ↔ ∃ x, v = .float x ∧ x.isNaN = true := by
  cases h with
  | integer n => simp [quantity?]
  | float x => simp [quantity?]

theorem quantity?_of_isNaN {x : Binary64} (hx : x.isNaN = true) : (float x).quantity? = none := by
  rw [quantity?, if_pos hx]

theorem quantity?_of_not_isNaN {x : Binary64} (hx : x.isNaN = false) : (float x).quantity? = some x.quantity := by
  rw [quantity?, hx]
  rfl

theorem compare_toInt (n m : Int64) : compare n.toInt m.toInt =
    compare (((n.toInt : ℚ) : WithTop ℚ) : WithBot (WithTop ℚ)) ((m.toInt : ℚ) : WithTop ℚ) := by
  have hlt {a b : Int} (h : a < b) : (((a : ℚ) : WithTop ℚ) : WithBot (WithTop ℚ)) < ((b : ℚ) : WithTop ℚ) :=
    WithBot.coe_lt_coe.mpr (WithTop.coe_lt_coe.mpr (Int.cast_lt.mpr h))
  rcases Int.lt_trichotomy n.toInt m.toInt with h | h | h
  · rw [Int.compare_eq_lt.mpr h, compare_lt_iff_lt.mpr (hlt h)]
  · rw [h, Int.compare_eq_eq.mpr rfl, compare_eq_iff_eq.mpr rfl]
  · rw [Int.compare_eq_gt.mpr h, compare_gt_iff_gt.mpr (hlt h)]

theorem swap_compare (p q : WithBot (WithTop ℚ)) : (compare p q).swap = compare q p := by
  rw [← cmp_eq_compare, ← cmp_eq_compare, cmp_swap]

theorem compareInt_eq_quantity? (n : Int64) (x : Binary64) :
    Binary64.compareInt n x = Option.map₂ compare (integer n).quantity? (float x).quantity? := by
  cases hx : x.isNaN with
  | true =>
    rw [quantity?_of_isNaN hx, Option.map₂_none_right, Binary64.compareInt, if_pos hx]
  | false =>
    rw [quantity?_of_not_isNaN hx, Binary64.compareInt_eq_quantity hx]
    rfl

theorem compare_eq_quantity? (x y : Binary64) :
    x.compare y = Option.map₂ compare (float x).quantity? (float y).quantity? := by
  cases hx : x.isNaN with
  | true =>
    rw [quantity?_of_isNaN hx, Option.map₂_none_left, Binary64.compare, hx, Bool.true_or, if_pos rfl]
  | false =>
    cases hy : y.isNaN with
    | true =>
      rw [quantity?_of_isNaN hy, Option.map₂_none_right, Binary64.compare, hy, Bool.or_true, if_pos rfl]
    | false =>
      rw [quantity?_of_not_isNaN hx, quantity?_of_not_isNaN hy, Binary64.compare_eq_quantity hx hy]
      rfl

/-- The order of two values as numbers is the order of their quantities, if they have any. -/
theorem numericOrder?_eq (v w : Value) : numericOrder? v w = Option.map₂ compare v.quantity? w.quantity? := by
  cases v with
  | integer n =>
    cases w with
    | integer m => exact congrArg some (compare_toInt n m)
    | float x => exact compareInt_eq_quantity? n x
    | _ => rfl
  | float x =>
    cases w with
    | integer n =>
      rw [numericOrder?, compareInt_eq_quantity?, Option.map_map₂, Option.map₂_swap]
      simp only [swap_compare]
    | float y => exact compare_eq_quantity? x y
    | _ => exact (Option.map₂_none_right _ _).symm
  | _ => rfl

theorem order?_of_isNumber {v w : Value} (hv : v.IsNumber) : v.order? w = numericOrder? v w := by
  cases hv <;> rfl

theorem strictEq_of_isNumber {v w : Value} (hv : v.IsNumber) : v.strictEq w = (numericOrder? v w == some .eq) := by
  cases hv <;> rw [strictEq]

/-- Two numbers have no order if one of them is NaN, and else that of their quantities; they are equal if that is
    equality. A machine finds the order of an integer and a double without a loss: its arithmetic gives the same result
    as exact arithmetic, since the integral part of a finite double and what it leaves are not rounded, and the
    integral part of a double in the range of 64-bit integers does not change as one of them. -/
theorem order?_eq_compare {v w : Value} (hv : v.IsNumber) (hw : w.IsNumber) :
    v.order? w = Option.map₂ compare v.quantity? w.quantity? ∧
      (v.order? w = none ↔ ∃ x, (v = .float x ∨ w = .float x) ∧ x.isNaN = true) ∧
      (v.strictEq w = true ↔ v.order? w = some .eq) ∧
      (∀ n x, Binary64.compareIntStepwise n x = Binary64.compareInt n x) ∧
      ∀ x : Binary64, x.isFinite = true →
        x.whole = (if 0 ≤ x.toRat then ⌊x.toRat⌋ else ⌈x.toRat⌉) ∧ x.truncated.toRat = x.whole ∧
        (x.minus x.truncated).toRat = x.toRat - x.whole ∧
        (-2 ^ 63 ≤ x.toRat → x.toRat < 2 ^ 63 → x.truncated.saturated.toInt = x.whole) := by
  have horder := order?_of_isNumber (w := w) hv
  refine ⟨horder.trans (numericOrder?_eq v w), ?_, ?_, Binary64.compareIntStepwise_eq, fun x hx => ?_⟩
  · rw [horder, numericOrder?_eq, Option.map₂_eq_none_iff, quantity?_eq_none_iff hv, quantity?_eq_none_iff hw,
      ← exists_or]
    simp only [or_and_right]
  · rw [horder, strictEq_of_isNumber hv, beq_iff_eq]
  · exact ⟨x.whole_eq, Binary64.toRat_truncated hx, Binary64.toRat_minus hx, Binary64.toInt_saturated_of_toRat hx⟩

/-- 2⁵³ + 1 is above the double 2⁵³ that it would be rounded to. -/
theorem order?_eq_compare_above :
    (integer 9007199254740993).IsNumber ∧ (float ⟨0x4340000000000000⟩).IsNumber ∧
      (integer 9007199254740993).order? (float ⟨0x4340000000000000⟩) =
        Option.map₂ compare (integer 9007199254740993).quantity? (float ⟨0x4340000000000000⟩).quantity? ∧
      (integer 9007199254740993).order? (float ⟨0x4340000000000000⟩) = some .gt :=
  ⟨.integer _, .float _, (order?_eq_compare (.integer _) (.float _)).1, by decide +kernel⟩

end RecordQuery.Value
