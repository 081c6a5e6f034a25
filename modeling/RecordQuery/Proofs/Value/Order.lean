import RecordQuery.Proofs.Value.Atom

/-! The order of values and their equality as the operators of comparison see them. The order is that of what scalars
    say, so it is one order for integers and doubles; two values that have an order are equal if and only if it finds
    them equal. -/

namespace RecordQuery

namespace Value

/-! ### Laws of the order -/

theorem order?_swap (v w : Value) : w.order? v = (v.order? w).map Ordering.swap := by
  rw [order?_eq_atom?, order?_eq_atom?]
  cases v.atom? with
  | none => cases w.atom? <;> rfl
  | some a =>
    cases w.atom? with
    | none => rfl
    | some b => exact Atom.order?_swap a b

theorem order?_eq_some_iff {v w : Value} {o : Ordering} :
    v.order? w = some o ↔ ∃ a b, v.atom? = some a ∧ w.atom? = some b ∧ a.order? b = some o := by
  rw [order?_eq_atom?]
  simp only [Option.bind_eq_some_iff]
  exact ⟨fun ⟨a, ha, b, hb, h⟩ => ⟨a, b, ha, hb, h⟩, fun ⟨a, b, ha, hb, h⟩ => ⟨a, ha, b, hb, h⟩⟩

/-- Two values that the order finds equal say the same. -/
theorem order?_eq_some_eq_iff {v w : Value} :
    v.order? w = some .eq ↔ ∃ a, v.atom? = some a ∧ w.atom? = some a ∧ a ≠ .null := by
  rw [order?_eq_some_iff]
  constructor
  · rintro ⟨a, b, ha, hb, h⟩
    obtain ⟨rfl, hne⟩ := Atom.order?_eq_some_eq_iff.mp h
    exact ⟨a, ha, hb, hne⟩
  · rintro ⟨a, ha, hb, hne⟩
    exact ⟨a, a, ha, hb, Atom.order?_eq_some_eq_iff.mpr ⟨rfl, hne⟩⟩

/-- So either can stand for the other. -/
theorem order?_congr {u v : Value} (h : u.order? v = some .eq) (w : Value) :
    u.order? w = v.order? w ∧ w.order? u = w.order? v := by
  obtain ⟨a, hu, hv, -⟩ := order?_eq_some_eq_iff.mp h
  simp only [order?_eq_atom?, hu, hv, and_self]

theorem order?_trans {u v w : Value} (huv : u.order? v = some .lt)
    (hvw : v.order? w = some .lt ∨ v.order? w = some .eq) : u.order? w = some .lt := by
  rcases hvw with hvw | hvw
  · obtain ⟨a, b, hu, hv, hab⟩ := order?_eq_some_iff.mp huv
    obtain ⟨b', c, hv', hw, hbc⟩ := order?_eq_some_iff.mp hvw
    obtain rfl : b = b' := Option.some.inj (hv.symm.trans hv')
    exact order?_eq_some_iff.mpr ⟨a, c, hu, hw, Atom.order?_trans hab hbc⟩
  · rw [← (order?_congr hvw u).2]
    exact huv

/-! ### Order and equality -/

/-- Two numbers, two strings or two booleans. -/
inductive Comparable : Value → Value → Prop
  | numbers {v w : Value} (hv : v.IsNumber) (hw : w.IsNumber) : Comparable v w
  | strings (s t : String) : Comparable (.string s) (.string t)
  | bools (b c : Bool) : Comparable (.bool b) (.bool c)

theorem IsNumber.atom?_ne_null {v : Value} (h : v.IsNumber) : v.atom? ≠ some .null := fun hnull => by
  rw [atom?_eq_null_iff.mp hnull] at h
  cases h

/-- The order finds two values equal if and only if they are equal and of one of the types that have an order. -/
theorem order?_eq_some_eq_iff_strictEq {v w : Value} :
    v.order? w = some .eq ↔ v.strictEq w = true ∧ v.Comparable w := by
  rw [order?_eq_some_eq_iff]
  constructor
  · rintro ⟨a, hv, hw, hne⟩
    refine ⟨strictEq_of_atom? hv hw, ?_⟩
    cases a with
    | null => exact absurd rfl hne
    | bool b =>
      rw [atom?_eq_bool_iff.mp hv, atom?_eq_bool_iff.mp hw]
      exact .bools b b
    | number q => exact .numbers (isNumber_of_atom? hv) (isNumber_of_atom? hw)
    | string s =>
      rw [atom?_eq_string_iff.mp hv, atom?_eq_string_iff.mp hw]
      exact .strings s s
  · rintro ⟨heq, hcomparable⟩
    have hscalar : v.isContainer = false ∧ v.atom? ≠ some .null := by
      cases hcomparable with
      | numbers hv _ => exact ⟨hv.isContainer, hv.atom?_ne_null⟩
      | strings _ _ | bools _ _ => exact ⟨rfl, nofun⟩
    obtain ⟨a, hv, hw⟩ := (strictEq_iff_of_scalar hscalar.1).mp heq
    exact ⟨a, hv, hw, fun hnull => hscalar.2 (hnull ▸ hv)⟩

theorem strictEq_iff_of_order? {v w : Value} {o : Ordering} (h : v.order? w = some o) :
    v.strictEq w = true ↔ o = .eq := by
  obtain ⟨a, b, hv, hw, hab⟩ := order?_eq_some_iff.mp h
  have hnull : a ≠ .null := by
    rintro rfl
    cases hab
  calc v.strictEq w = true ↔ a = b := by
        rw [strictEq_iff_of_scalar (isContainer_of_atom? hv), hv, hw]
        simp [eq_comm]
    _ ↔ a.order? b = some .eq := by rw [Atom.order?_eq_some_eq_iff, and_iff_left hnull]
    _ ↔ o = .eq := by rw [hab, Option.some_inj]

end Value

/-! ### Operators -/

/-- Exactly one of three. -/
def Trichotomy (p q r : Bool) : Prop :=
  (p = true ∧ q = false ∧ r = false) ∨ (p = false ∧ q = true ∧ r = false) ∨ (p = false ∧ q = false ∧ r = true)

namespace CompareOp
open Value

/-- The operator with its sides exchanged. -/
def mirror : CompareOp → CompareOp
  | .equal => .equal
  | .notEqual => .notEqual
  | .less => .greater
  | .greater => .less
  | .lessEqual => .greaterEqual
  | .greaterEqual => .lessEqual

/-- Values without an order are neither less nor greater than each other. -/
theorem holds_of_order?_eq_none {v w : Value} (h : v.order? w = none) {op : CompareOp} (heq : op ≠ .equal)
    (hne : op ≠ .notEqual) : op.holds v w = false := by
  cases op with
  | equal => exact absurd rfl heq
  | notEqual => exact absurd rfl hne
  | less | greater | lessEqual | greaterEqual => simp [holds, h]

/-- Null is equal to null, but it has no order. -/
example : equal.holds .null .null = true ∧ lessEqual.holds .null .null = false := by decide

/-- Of two values that have an order, exactly one is less or they are equal. -/
theorem holds_of_order? {v w : Value} {o : Ordering} (h : v.order? w = some o) :
    Trichotomy (less.holds v w) (equal.holds v w) (greater.holds v w) ∧
      lessEqual.holds v w = (less.holds v w || equal.holds v w) ∧
      greaterEqual.holds v w = (greater.holds v w || equal.holds v w) := by
  have heq := strictEq_iff_of_order? h
  cases o with
  | eq => simp [Trichotomy, holds, h, heq.mpr rfl]
  | lt | gt =>
    have hne : v.strictEq w = false := Bool.eq_false_iff.mpr fun hvw => by simpa using heq.mp hvw
    simp [Trichotomy, holds, h, hne]

/-- A comparison with a scalar may be turned around. -/
theorem mirror_holds (op : CompareOp) {v w : Value} (hv : v.isContainer = false) :
    op.mirror.holds w v = op.holds v w := by
  have heq : w.strictEq v = v.strictEq w := strictEq_comm_of_scalar hv w
  have horder := order?_swap v w
  cases op with
  | equal | notEqual => simp only [mirror, holds, heq]
  | less | greater | lessEqual | greaterEqual =>
    simp only [mirror, holds, horder]
    cases v.order? w with
    | none => rfl
    | some o => cases o <;> rfl

end CompareOp

end RecordQuery
