import RecordQuery.Evaluation
import RecordQuery.Proofs.Value.Number
import RecordQuery.Proofs.Value.Parts

/-! What scalars say. A scalar is null, a truth value, a quantity or a text, whatever the type of its number is; NaN
    says nothing. How two scalars are ordered and whether they are equal depends on what they say alone, so the
    laws of the order of values are those of the orders of truth values, quantities and texts. -/

namespace RecordQuery

/-- What a scalar says. -/
inductive Atom where
  | null
  | bool (b : Bool)
  | number (q : WithBot (WithTop ℚ))
  | string (s : String)

namespace Atom

/-- The order of two atoms of one kind. Null has none. -/
def order? : Atom → Atom → Option Ordering
  | .bool a, .bool b => some (compare a b)
  | .number p, .number q => some (compare p q)
  | .string s, .string t => some (compare s t)
  | _, _ => none

theorem order?_swap (a b : Atom) : b.order? a = (a.order? b).map Ordering.swap := by
  have hswap {α : Type} [Ord α] [Std.OrientedOrd α] (x y : α) :
      some (compare y x) = (some (compare x y)).map Ordering.swap := congrArg some Std.OrientedCmp.eq_swap
  cases a with
  | null => cases b <;> rfl
  | bool x =>
    cases b with
    | bool y => exact hswap x y
    | _ => rfl
  | number p =>
    cases b with
    | number q => exact hswap p q
    | _ => rfl
  | string s =>
    cases b with
    | string t => exact hswap s t
    | _ => rfl

theorem order?_eq_some_eq_iff {a b : Atom} : a.order? b = some .eq ↔ a = b ∧ a ≠ .null := by
  have heq {α : Type} [Ord α] [Std.LawfulEqOrd α] {x y : α} : some (compare x y) = some .eq ↔ x = y :=
    Option.some_inj.trans Std.compare_eq_iff_eq
  cases a with
  | null => cases b <;> simp [order?]
  | bool x =>
    cases b with
    | bool y => simp only [order?, heq, bool.injEq, ne_eq, reduceCtorEq, not_false_eq_true, and_true]
    | _ => simp [order?]
  | number p =>
    cases b with
    | number q => simp only [order?, heq, number.injEq, ne_eq, reduceCtorEq, not_false_eq_true, and_true]
    | _ => simp [order?]
  | string s =>
    cases b with
    | string t => simp only [order?, heq, string.injEq, ne_eq, reduceCtorEq, not_false_eq_true, and_true]
    | _ => simp [order?]

theorem order?_trans {a b c : Atom} (hab : a.order? b = some .lt) (hbc : b.order? c = some .lt) :
    a.order? c = some .lt := by
  have htrans {α : Type} [Ord α] [Std.TransOrd α] {x y z : α} (hxy : some (compare x y) = some .lt)
      (hyz : some (compare y z) = some .lt) : some (compare x z) = some .lt :=
    congrArg some (Std.TransCmp.lt_trans (Option.some.inj hxy) (Option.some.inj hyz))
  cases b with
  | null => cases c <;> cases hbc
  | bool y =>
    cases a with
    | bool x =>
      cases c with
      | bool z => exact htrans hab hbc
      | _ => cases hbc
    | _ => cases hab
  | number q =>
    cases a with
    | number p =>
      cases c with
      | number r => exact htrans hab hbc
      | _ => cases hbc
    | _ => cases hab
  | string t =>
    cases a with
    | string s =>
      cases c with
      | string u => exact htrans hab hbc
      | _ => cases hbc
    | _ => cases hab

end Atom

namespace Value

/-- What a value says, if it is a scalar other than NaN. -/
def atom? : Value → Option Atom
  | .null => some .null
  | .bool b => some (.bool b)
  | .string s => some (.string s)
  | v => v.quantity?.map .number

theorem atom?_of_isNumber {v : Value} (h : v.IsNumber) : v.atom? = v.quantity?.map .number := by
  cases h <;> rfl

theorem atom?_of_isContainer {v : Value} (h : v.isContainer = true) : v.atom? = none := by
  cases v with
  | array _ | object _ => rfl
  | _ => cases h

theorem IsNumber.isContainer {v : Value} (h : v.IsNumber) : v.isContainer = false := by
  cases h <;> rfl

theorem isContainer_of_atom? {v : Value} {a : Atom} (h : v.atom? = some a) : v.isContainer = false := by
  cases v with
  | array _ | object _ => cases h
  | _ => rfl

theorem naNFree_iff_of_scalar {v : Value} (hv : v.isContainer = false) : v.NaNFree ↔ ∃ a, v.atom? = some a := by
  rw [NaNFree, everywhere_of_scalar hv]
  cases v with
  | array _ | object _ => cases hv
  | float x =>
    simp only [float.injEq, forall_eq', atom?, quantity?]
    cases x.isNaN <;> simp
  | _ => simp [atom?, quantity?]

/-- A number has no order with what is no number. -/
theorem bind_order?_of_isNumber {w : Value} (hw : w.IsNumber) {a : Atom} (ha : ∀ q, a ≠ .number q) :
    w.atom?.bind a.order? = none := by
  rw [atom?_of_isNumber hw]
  cases w.quantity? with
  | none => rfl
  | some q =>
    cases a with
    | number p => exact absurd rfl (ha p)
    | _ => rfl

/-- Two values are ordered as what they say is, and have no order if one of them says nothing. -/
theorem order?_eq_atom? (v w : Value) : v.order? w = v.atom?.bind fun a => w.atom?.bind a.order? := by
  have hnumber (hv : v.IsNumber) : v.order? w = v.atom?.bind fun a => w.atom?.bind a.order? := by
    rw [order?_of_isNumber hv, numericOrder?_eq, atom?_of_isNumber hv]
    cases v.quantity? with
    | none => rfl
    | some p =>
      cases w with
      | integer m => rfl
      | float y => cases h : (float y).quantity? <;> simp [atom?, h, Atom.order?]
      | _ => rfl
  cases v with
  | integer n => exact hnumber (.integer n)
  | float x => exact hnumber (.float x)
  | array _ | object _ => rfl
  | null =>
    cases w with
    | float y => exact (bind_order?_of_isNumber (a := .null) (.float y) nofun).symm
    | _ => rfl
  | bool b =>
    cases w with
    | float y => exact (bind_order?_of_isNumber (a := .bool b) (.float y) nofun).symm
    | _ => rfl
  | string s =>
    cases w with
    | float y => exact (bind_order?_of_isNumber (a := .string s) (.float y) nofun).symm
    | _ => rfl

theorem atom?_eq_null_iff {v : Value} : v.atom? = some .null ↔ v = .null := by
  cases v <;> simp [atom?, quantity?]

theorem atom?_eq_bool_iff {v : Value} {b : Bool} : v.atom? = some (.bool b) ↔ v = .bool b := by
  cases v <;> simp [atom?, quantity?]

theorem atom?_eq_string_iff {v : Value} {s : String} : v.atom? = some (.string s) ↔ v = .string s := by
  cases v <;> simp [atom?, quantity?]

theorem atom?_eq_number_iff {v : Value} {q : WithBot (WithTop ℚ)} :
    v.atom? = some (.number q) ↔ v.quantity? = some q := by
  cases v <;> simp [atom?, quantity?]

theorem isNumber_of_quantity? {v : Value} {q : WithBot (WithTop ℚ)} (h : v.quantity? = some q) : v.IsNumber := by
  cases v with
  | integer n => exact .integer n
  | float x => exact .float x
  | _ => cases h

theorem isContainer_of_quantity? {v : Value} {q : WithBot (WithTop ℚ)} (h : v.quantity? = some q) :
    v.isContainer = false :=
  (isNumber_of_quantity? h).isContainer

theorem isNumber_of_atom? {v : Value} {q : WithBot (WithTop ℚ)} (h : v.atom? = some (.number q)) : v.IsNumber :=
  isNumber_of_quantity? (atom?_eq_number_iff.mp h)

theorem strictEq_iff_quantity? {v w : Value} (hv : v.IsNumber) :
    v.strictEq w = true ↔ ∃ q, v.quantity? = some q ∧ w.quantity? = some q := by
  rw [strictEq_of_isNumber hv, numericOrder?_eq, beq_iff_eq]
  cases v.quantity? with
  | none => simp
  | some p =>
    cases w.quantity? with
    | none => simp
    | some q =>
      simp only [Option.map₂_some_some, Option.some.injEq, exists_eq_left', compare_eq_iff_eq]
      exact eq_comm

/-- A scalar is equal to what says the same. NaN says nothing and is equal to nothing. -/
theorem strictEq_iff_of_scalar {v : Value} (hv : v.isContainer = false) {w : Value} :
    v.strictEq w = true ↔ ∃ a, v.atom? = some a ∧ w.atom? = some a := by
  have hatom {a : Atom} (ha : v.atom? = some a) : (∃ b, v.atom? = some b ∧ w.atom? = some b) ↔ w.atom? = some a := by
    rw [ha]
    simp only [Option.some.injEq, exists_eq_left']
  have hnumber (hv : v.IsNumber) : v.strictEq w = true ↔ ∃ a, v.atom? = some a ∧ w.atom? = some a := by
    rw [strictEq_iff_quantity? hv, atom?_of_isNumber hv]
    cases v.quantity? <;> simp [atom?_eq_number_iff]
  cases v with
  | integer n => exact hnumber (.integer n)
  | float x => exact hnumber (.float x)
  | array _ | object _ => cases hv
  | null =>
    rw [hatom rfl, atom?_eq_null_iff]
    cases w <;> simp [strictEq]
  | bool b =>
    rw [hatom rfl, atom?_eq_bool_iff]
    cases w <;> simp [strictEq, eq_comm (a := b)]
  | string s =>
    rw [hatom rfl, atom?_eq_string_iff]
    cases w <;> simp [strictEq, eq_comm (a := s)]

theorem strictEq_of_atom? {v w : Value} {a : Atom} (hv : v.atom? = some a) (hw : w.atom? = some a) :
    v.strictEq w = true :=
  (strictEq_iff_of_scalar (isContainer_of_atom? hv)).mpr ⟨a, hv, hw⟩

theorem strictEq_of_isContainer {v w : Value} (hv : v.isContainer = true) (hw : w.isContainer = false) :
    v.strictEq w = false := by
  cases v with
  | array items =>
    cases w with
    | array _ => cases hw
    | _ => rfl
  | object fields =>
    cases w with
    | object _ => cases hw
    | _ => rfl
  | _ => cases hv

theorem strictEq_comm_of_scalar {v : Value} (hv : v.isContainer = false) (w : Value) :
    w.strictEq v = v.strictEq w := by
  rw [Bool.eq_iff_iff, strictEq_iff_of_scalar hv]
  cases hw : w.isContainer with
  | false =>
    rw [strictEq_iff_of_scalar hw]
    exact exists_congr fun a => and_comm
  | true => simp [strictEq_of_isContainer hw hv, atom?_of_isContainer hw]

end Value

end RecordQuery
