import RecordQuery.Proofs.Paths
import RecordQuery.Proofs.Value.Respelled

/-! Values that no condition can tell apart. Containers all look alike, and so do all NaNs; other scalars look alike if
    they are equal, whichever way a number is written. -/

namespace RecordQuery.Value

/-- The two values are containers, NaNs or equal scalars. -/
inductive LooksLike : Value → Value → Prop
  | containers {v w : Value} (hv : v.isContainer = true) (hw : w.isContainer = true) : LooksLike v w
  | nan {x y : Binary64} (hx : x.isNaN = true) (hy : y.isNaN = true) : LooksLike (.float x) (.float y)
  | equal {v w : Value} (hv : v.isContainer = false) (hw : w.isContainer = false) (h : v.strictEq w = true) :
      LooksLike v w

theorem exists_nan_of_atom? {v : Value} (hv : v.isContainer = false) (h : v.atom? = none) :
    ∃ x, v = .float x ∧ x.isNaN = true := by
  cases v with
  | array _ | object _ => cases hv
  | float x => exact ⟨x, rfl, by simpa [atom?, quantity?] using h⟩
  | _ => cases h

/-- What can be told of a value is whether it is a container, and what it says if it is none. -/
theorem looksLike_iff {v w : Value} : v.LooksLike w ↔ v.isContainer = w.isContainer ∧ v.atom? = w.atom? := by
  constructor
  · rintro (⟨hv, hw⟩ | ⟨hx, hy⟩ | ⟨hv, hw, h⟩)
    · exact ⟨hv.trans hw.symm, (atom?_of_isContainer hv).trans (atom?_of_isContainer hw).symm⟩
    · exact ⟨rfl, by simp [atom?, quantity?_of_isNaN hx, quantity?_of_isNaN hy]⟩
    · obtain ⟨a, ha, hb⟩ := (strictEq_iff_of_scalar hv).mp h
      exact ⟨hv.trans hw.symm, ha.trans hb.symm⟩
  · rintro ⟨hcontainer, hatom⟩
    cases hv : v.isContainer with
    | true => exact .containers hv (hcontainer ▸ hv)
    | false =>
      have hw : w.isContainer = false := hcontainer ▸ hv
      cases ha : v.atom? with
      | none =>
        obtain ⟨x, rfl, hx⟩ := exists_nan_of_atom? hv ha
        obtain ⟨y, rfl, hy⟩ := exists_nan_of_atom? hw (hatom ▸ ha)
        exact .nan hx hy
      | some a => exact .equal hv hw (strictEq_of_atom? ha (hatom ▸ ha))

theorem LooksLike.refl (v : Value) : v.LooksLike v := looksLike_iff.mpr ⟨rfl, rfl⟩

theorem LooksLike.trans {u v w : Value} (huv : u.LooksLike v) (hvw : v.LooksLike w) : u.LooksLike w := by
  obtain ⟨huc, hua⟩ := looksLike_iff.mp huv
  obtain ⟨hvc, hva⟩ := looksLike_iff.mp hvw
  exact looksLike_iff.mpr ⟨huc.trans hvc, hua.trans hva⟩

/-! ### What is asked of them -/

/-- A number counts as true if it is above or below zero. -/
theorem isTruthy_iff_of_isNumber {v : Value} (hv : v.IsNumber) :
    v.isTruthy = true ↔ (integer 0).order? v = some .lt ∨ (integer 0).order? v = some .gt := by
  have hne (n : Int) : n ≠ 0 ↔ some (compare 0 n) = some Ordering.lt ∨ some (compare 0 n) = some Ordering.gt := by
    simp only [Option.some_inj, Int.compare_eq_lt, Int.compare_eq_gt]
    omega
  cases hv with
  | integer n =>
    have hzero : n ≠ 0 ↔ n.toInt ≠ 0 := not_congr Int64.toInt_inj.symm
    simpa [isTruthy, order?, numericOrder?, hzero] using hne n.toInt
  | float x =>
    have horder : (integer 0).order? (.float x) = Binary64.compareInt 0 x := rfl
    rw [horder]
    cases hx : x.isNaN with
    | true => simp [isTruthy, hx, Binary64.compareInt]
    | false =>
      have hzero : x.isZero = false ↔ x.units ≠ 0 := by rw [Ne, Binary64.units_eq_zero_iff, Bool.not_eq_true]
      have hcompare : Binary64.compareInt 0 x = some (compare 0 x.units) := by
        rw [Binary64.compareInt_eq hx, Int64.toInt_zero, Int.zero_mul]
      rw [hcompare, ← hne, ← hzero]
      simp [isTruthy, hx]

theorem isTruthy_of_isContainer {v : Value} (hv : v.isContainer = true) : v.isTruthy = true := by
  cases v with
  | array _ | object _ => rfl
  | _ => cases hv

theorem LooksLike.isTruthy_eq {v w : Value} (h : v.LooksLike w) : v.isTruthy = w.isTruthy := by
  cases h with
  | containers hv hw => rw [isTruthy_of_isContainer hv, isTruthy_of_isContainer hw]
  | nan hx hy => simp [isTruthy, hx, hy]
  | equal hv hw h =>
    obtain ⟨a, ha, hb⟩ := (strictEq_iff_of_scalar hv).mp h
    cases a with
    | null => rw [atom?_eq_null_iff.mp ha, atom?_eq_null_iff.mp hb]
    | bool b => rw [atom?_eq_bool_iff.mp ha, atom?_eq_bool_iff.mp hb]
    | string s => rw [atom?_eq_string_iff.mp ha, atom?_eq_string_iff.mp hb]
    | number q =>
      have horder : (integer 0).order? v = (integer 0).order? w := by rw [order?_eq_atom?, order?_eq_atom?, ha, hb]
      rw [Bool.eq_iff_iff, isTruthy_iff_of_isNumber (isNumber_of_atom? ha),
        isTruthy_iff_of_isNumber (isNumber_of_atom? hb), horder]

/-- To a scalar they are alike in all respects. -/
theorem LooksLike.alikeTo {c v w : Value} (h : v.LooksLike w) (hc : c.isContainer = false) : c.AlikeTo v w := by
  obtain ⟨-, hatom⟩ := looksLike_iff.mp h
  have heq : c.strictEq v = c.strictEq w := by
    rw [Bool.eq_iff_iff, strictEq_iff_of_scalar hc, strictEq_iff_of_scalar hc, hatom]
  refine ⟨?_, heq, ?_, ?_⟩
  · rw [strictEq_comm_of_scalar hc, strictEq_comm_of_scalar hc, heq]
  · rw [order?_eq_atom?, order?_eq_atom?, hatom]
  · rw [order?_eq_atom?, order?_eq_atom?, hatom]

/-! ### Changes that cannot be seen -/

/-- A value and a respelling of it look alike. -/
theorem Respelled.looksLike {v w : Value} (h : v.Respelled w) : v.LooksLike w := by
  induction h with
  | refl v => exact .refl v
  | number hv hw =>
    have hatom := (atom?_eq_number_iff.mpr hv).trans (atom?_eq_number_iff.mpr hw).symm
    exact looksLike_iff.mpr ⟨(isContainer_of_quantity? hv).trans (isContainer_of_quantity? hw).symm, hatom⟩
  | fields _ _ | item _ _ _ _ | field _ _ _ _ _ => exact .containers rfl rfl
  | trans _ _ ih ih' => exact ih.trans ih'

/-- The two values are the same but for what none of the paths reads. Two arrays always are, since no path leads into an
    array. Two objects are if under each key that a path reads first there is no field in either, or there are fields
    that are the same but for what the rest of these paths do not read. -/
inductive SameOn : (List String → Prop) → Value → Value → Prop
  | refl {reads : List String → Prop} (v : Value) : SameOn reads v v
  | array {reads : List String → Prop} (items items' : List Value) : SameOn reads (.array items) (.array items')
  | object {reads : List String → Prop} {fs gs : List (String × Value)}
      (hmissing : ∀ key keys, reads (key :: keys) → (fs.lookup key = none ↔ gs.lookup key = none))
      (hfields : ∀ key keys v w, reads (key :: keys) → fs.lookup key = some v → gs.lookup key = some w →
        SameOn (fun keys => reads (key :: keys)) v w) :
      SameOn reads (.object fs) (.object gs)

theorem SameOn.walk {reads : List String → Prop} {v w : Value} (h : SameOn reads v w) {keys : List String}
    (hkeys : reads keys) : (v.walk keys).LooksLike (w.walk keys) := by
  induction h generalizing keys with
  | refl v => exact .refl _
  | array items items' =>
    cases keys with
    | nil => exact .containers rfl rfl
    | cons key keys => exact .refl _
  | @object reads fs gs hmissing _ ih =>
    cases keys with
    | nil => exact .containers rfl rfl
    | cons key keys =>
      have hnone := hmissing key keys hkeys
      rw [Value.walk, Value.walk, get?, get?]
      cases hv : fs.lookup key with
      | none =>
        rw [hnone.mp hv]
        exact .refl _
      | some v =>
        cases hw : gs.lookup key with
        | none =>
          rw [hnone.mpr hw] at hv
          cases hv
        | some w => exact ih key keys v w hkeys hv hw hkeys

/-- A field that no path reads may be given another value, and it may be added where it is missing. -/
theorem sameOn_put {reads : List String → Prop} {key : String} (hkey : ∀ keys, ¬reads (key :: keys)) (v : Value)
    (fs : Fields) : SameOn reads (.object fs) (.object (Fields.put key v fs)) := by
  have hlookup (k : String) (keys : List String) (hk : reads (k :: keys)) :
      (Fields.put key v fs).lookup k = fs.lookup k := by
    rw [Fields.lookup_put, if_neg]
    rintro rfl
    exact hkey keys hk
  refine .object (fun k keys hk => by rw [hlookup k keys hk]) fun k keys u w hk hu hw => ?_
  rw [hlookup k keys hk, hu] at hw
  cases hw
  exact .refl u

/-- So it is in the objects under other keys. -/
theorem SameOn.field {reads : List String → Prop} {key : String} {v w : Value}
    (h : SameOn (fun keys => reads (key :: keys)) v w) (before after : List (String × Value))
    (hbefore : before.lookup key = none) :
    SameOn reads (.object (before ++ (key, v) :: after)) (.object (before ++ (key, w) :: after)) := by
  refine .object (fun k keys _ => ?_) fun k keys u u' _ hu hu' => ?_
  · rw [lookup_field, lookup_field]
    split <;> simp
  · rw [lookup_field] at hu hu'
    by_cases hk : k = key
    · subst hk
      rw [hbefore, Option.none_or, if_pos rfl] at hu hu'
      cases hu
      cases hu'
      exact h
    · rw [if_neg hk] at hu hu'
      rw [hu] at hu'
      cases hu'
      exact .refl u

end RecordQuery.Value
