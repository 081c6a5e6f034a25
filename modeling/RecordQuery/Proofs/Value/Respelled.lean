import RecordQuery.Proofs.Value.Atom

/-! Values that are written differently and say the same: the fields of an object stand in another order, or a number
    is an integer in one value and a double in the other. Both may happen anywhere in a value, and the same fields are
    found in it as before. -/

namespace RecordQuery.Value

/-- One value is the other one with numbers in it written as other numbers of the same quantity, and with the fields
    of objects in which no key comes twice in another order. -/
inductive Respelled : Value → Value → Prop
  | refl (v : Value) : Respelled v v
  | number {v w : Value} {q : WithBot (WithTop ℚ)} (hv : v.quantity? = some q) (hw : w.quantity? = some q) :
      Respelled v w
  | fields {fs gs : List (String × Value)} (hkeys : (fs.map (·.1)).Nodup) (h : fs.Perm gs) :
      Respelled (.object fs) (.object gs)
  | item {v w : Value} (before after : List Value) (h : Respelled v w) :
      Respelled (.array (before ++ v :: after)) (.array (before ++ w :: after))
  | field {v w : Value} (key : String) (before after : List (String × Value)) (h : Respelled v w) :
      Respelled (.object (before ++ (key, v) :: after)) (.object (before ++ (key, w) :: after))
  | trans {u v w : Value} (huv : Respelled u v) (hvw : Respelled v w) : Respelled u w

/-- Numbers that are equal can stand for each other, such as 12 and 12.0 or the two zeros. -/
theorem respelled_of_strictEq {v w : Value} (hv : v.IsNumber) (h : v.strictEq w = true) : v.Respelled w := by
  obtain ⟨q, hvq, hwq⟩ := (strictEq_iff_quantity? hv).mp h
  exact .number hvq hwq

/-! ### What is found in them -/

/-- Under distinct keys the order of the fields does not matter. -/
theorem lookup_eq_of_perm {fs gs : List (String × Value)} (hkeys : (fs.map (·.1)).Nodup) (h : fs.Perm gs)
    (key : String) : fs.lookup key = gs.lookup key := by
  have hfound {fs : List (String × Value)} (hkeys : (fs.map (·.1)).Nodup) (v : Value) :
      fs.lookup key = some v ↔ (key, v) ∈ fs :=
    ⟨mem_of_lookup, fun hmem => lookup_of_nodup hkeys hmem⟩
  refine Option.ext fun v => ?_
  rw [hfound hkeys, hfound ((h.map _).nodup hkeys), h.mem_iff]

theorem lookup_field (k key : String) (v : Value) (before after : List (String × Value)) :
    (before ++ (key, v) :: after).lookup k = (before.lookup k).or (if k = key then some v else after.lookup k) := by
  rw [List.lookup_append, lookup_cons]

theorem rel_refl (o : Option Value) : Option.Rel Respelled o o := by
  cases o with
  | none => exact .none
  | some v => exact .some (.refl v)

theorem rel_trans {a b c : Option Value} (hab : Option.Rel Respelled a b) (hbc : Option.Rel Respelled b c) :
    Option.Rel Respelled a c := by
  cases hab with
  | none => exact hbc
  | some huv =>
    cases hbc with
    | some hvw => exact .some (huv.trans hvw)

/-- Under every key both have nothing, or a value each that is a respelling of the other. -/
theorem Respelled.get? {v w : Value} (h : v.Respelled w) (key : String) :
    Option.Rel Respelled (v.get? key) (w.get? key) := by
  induction h with
  | refl v => exact rel_refl _
  | number hv hw => cases isNumber_of_quantity? hv <;> cases isNumber_of_quantity? hw <;> exact .none
  | fields hkeys h =>
    rw [Value.get?, Value.get?, lookup_eq_of_perm hkeys h]
    exact rel_refl _
  | item before after _ _ => exact .none
  | field k before after h _ =>
    rw [Value.get?, Value.get?, lookup_field, lookup_field]
    cases before.lookup key with
    | some u => exact rel_refl (some u)
    | none =>
      simp only [Option.none_or]
      split
      · exact .some h
      · exact rel_refl _
  | trans _ _ ih ih' => exact rel_trans ih ih'

/-- The same path leads to values that are respellings of each other. -/
theorem Respelled.walk {v w : Value} (h : v.Respelled w) (keys : List String) :
    (v.walk keys).Respelled (w.walk keys) := by
  induction keys generalizing v w with
  | nil => exact h
  | cons key keys ih =>
    have hget := h.get? key
    rw [Value.walk, Value.walk]
    cases hv : v.get? key with
    | none =>
      cases hw : w.get? key with
      | none => exact .refl _
      | some _ =>
        rw [hv, hw] at hget
        cases hget
    | some _ =>
      cases hw : w.get? key with
      | none =>
        rw [hv, hw] at hget
        cases hget
      | some _ =>
        rw [hv, hw] at hget
        cases hget with
        | some h => exact ih h

/-! ### Their parts -/

theorem Respelled.distinctKeys_iff {v w : Value} (h : v.Respelled w) : v.DistinctKeys ↔ w.DistinctKeys := by
  induction h with
  | refl v => rfl
  | number hv hw =>
    exact iff_of_true (distinctKeys_of_scalar (isContainer_of_quantity? hv))
      (distinctKeys_of_scalar (isContainer_of_quantity? hw))
  | fields hkeys h =>
    rw [distinctKeys_object_iff, distinctKeys_object_iff, (h.map _).nodup_iff]
    simp only [h.mem_iff]
  | item before after _ ih => simp only [distinctKeys_array_iff, List.forall_mem_append, List.forall_mem_cons, ih]
  | field key before after _ ih =>
    simp only [distinctKeys_object_iff, List.forall_mem_append, List.forall_mem_cons, ih, List.map_append,
      List.map_cons]
  | trans _ _ ih ih' => exact ih.trans ih'

theorem Respelled.naNFree_iff {v w : Value} (h : v.Respelled w) : v.NaNFree ↔ w.NaNFree := by
  have hnumber {v : Value} {q : WithBot (WithTop ℚ)} (hv : v.quantity? = some q) : v.NaNFree :=
    (naNFree_iff_of_scalar (isContainer_of_quantity? hv)).mpr ⟨_, atom?_eq_number_iff.mpr hv⟩
  induction h with
  | refl v => rfl
  | number hv hw => exact iff_of_true (hnumber hv) (hnumber hw)
  | fields _ h =>
    rw [naNFree_object_iff, naNFree_object_iff]
    simp only [h.mem_iff]
  | item before after _ ih => simp only [naNFree_array_iff, List.forall_mem_append, List.forall_mem_cons, ih]
  | field key before after _ ih => simp only [naNFree_object_iff, List.forall_mem_append, List.forall_mem_cons, ih]
  | trans _ _ ih ih' => exact ih.trans ih'

end RecordQuery.Value
