import RecordQuery.Proofs.Value.Equality
import RecordQuery.Proofs.Value.Respelled

/-! What values mean as JSON, where a number is its quantity and an object a map from keys to values. Where no key
    comes twice in an object and there is no NaN, equality of values is equality of what they mean. -/

namespace RecordQuery

/-- What a value means: what it says if it is a scalar, which is nothing for NaN, a list of meanings or a map from keys
    to meanings. -/
inductive Meaning where
  | scalar (a : Option Atom)
  | array (items : List Meaning)
  | object (fields : String → Option Meaning)

namespace Value

mutual

/-- What a value means. -/
def meaning : Value → Meaning
  | .array items => .array (meaningItems items)
  | .object fields => .object (meaningFields fields)
  | v => .scalar v.atom?

/-- What the items of an array mean. -/
def meaningItems : List Value → List Meaning
  | [] => []
  | v :: vs => v.meaning :: meaningItems vs

/-- What the field under a key means. -/
def meaningFields : List (String × Value) → String → Option Meaning
  | [], _ => none
  | (k, v) :: fs, key => if key = k then some v.meaning else meaningFields fs key

end

theorem meaning_of_scalar {v : Value} (hv : v.isContainer = false) : v.meaning = .scalar v.atom? := by
  cases v with
  | array _ | object _ => cases hv
  | _ => rfl

theorem meaning_array (items : List Value) : (array items).meaning = .array (items.map meaning) := by
  have hitems : meaningItems items = items.map meaning := by
    induction items with
    | nil => rfl
    | cons v items ih => rw [meaningItems, ih, List.map_cons]
  rw [meaning, hitems]

theorem meaning_object (fields : List (String × Value)) :
    (object fields).meaning = .object fun key => (fields.lookup key).map meaning := by
  have hfields (key : String) : meaningFields fields key = (fields.lookup key).map meaning := by
    induction fields with
    | nil => rfl
    | cons f fields ih =>
      obtain ⟨k, v⟩ := f
      rw [meaningFields, lookup_cons, ih]
      split <;> rfl
  rw [meaning]
  exact congrArg Meaning.object (funext hfields)

/-! ### Equal values mean the same -/

theorem map_eq_map_iff {as bs : List Value} :
    as.map meaning = bs.map meaning ↔ List.Forall₂ (fun a b => a.meaning = b.meaning) as bs := by
  rw [← List.forall₂_eq_eq_eq, List.forall₂_map_left_iff, List.forall₂_map_right_iff]

theorem Equal.meaning_eq {v w : Value} (h : v.Equal w) : v.meaning = w.meaning := by
  induction v using nestedInduction generalizing w with
  | scalar v hv =>
    obtain ⟨a, ha, hw⟩ := (strictEq_iff_of_scalar hv).mp h
    rw [meaning_of_scalar hv, meaning_of_scalar (isContainer_of_atom? hw), ha, hw]
  | array as ih =>
    obtain ⟨bs, rfl, hab⟩ := equal_array_iff.mp h
    rw [meaning_array, meaning_array, map_eq_map_iff.mpr (forall₂_imp_of_mem (fun a ha b _ => ih a ha) hab)]
  | object fs ih =>
    obtain ⟨gs, rfl, -, hfields, hkeys⟩ := equal_object_iff.mp h
    rw [meaning_object, meaning_object]
    refine congrArg Meaning.object (funext fun key => ?_)
    cases hv : fs.lookup key with
    | some v =>
      obtain ⟨w, hw, hvw⟩ := hfields _ (mem_of_lookup hv)
      rw [show gs.lookup key = some w from hw, Option.map_some, Option.map_some, ih _ (mem_of_lookup hv) hvw]
    | none =>
      cases hw : gs.lookup key with
      | none => rfl
      | some w =>
        obtain ⟨v, hv'⟩ := hkeys _ (mem_of_lookup hw)
        cases hv.symm.trans hv'

theorem Equal.naNFree {v w : Value} (h : v.Equal w) : v.NaNFree := by
  induction v using nestedInduction generalizing w with
  | scalar v hv =>
    obtain ⟨a, ha, -⟩ := (strictEq_iff_of_scalar hv).mp h
    exact (naNFree_iff_of_scalar hv).mpr ⟨a, ha⟩
  | array as ih =>
    obtain ⟨bs, -, hab⟩ := equal_array_iff.mp h
    exact naNFree_array_iff.mpr (forall_mem_of_forall₂ (fun a ha b _ hab => ih a ha hab) hab)
  | object fs ih =>
    obtain ⟨gs, -, -, hfields, -⟩ := equal_object_iff.mp h
    refine naNFree_object_iff.mpr fun f hf => ?_
    obtain ⟨w, -, hfw⟩ := hfields f hf
    exact ih f hf hfw

/-! ### Values that mean the same are equal -/

theorem mem_keys_iff {fields : List (String × Value)} {key : String} :
    key ∈ fields.map (·.1) ↔ ((fields.lookup key).map meaning).isSome = true := by
  rw [Option.isSome_map, Option.isSome_iff_exists, List.mem_map]
  constructor
  · rintro ⟨f, hf, rfl⟩
    exact exists_lookup_of_mem hf
  · exact fun ⟨v, hv⟩ => ⟨_, mem_of_lookup hv, rfl⟩

/-- As maps from keys to meanings two lists of fields have as many keys. -/
theorem length_eq_of_meaning_eq {fs gs : List (String × Value)} (hfs : (fs.map (·.1)).Nodup)
    (hgs : (gs.map (·.1)).Nodup) (h : ∀ key, (fs.lookup key).map meaning = (gs.lookup key).map meaning) :
    fs.length = gs.length := by
  have hperm : (fs.map (·.1)).Perm (gs.map (·.1)) :=
    (List.perm_ext_iff_of_nodup hfs hgs).mpr fun key => by rw [mem_keys_iff, mem_keys_iff, h]
  simpa using hperm.length_eq

theorem equal_of_meaning_eq {v w : Value} (hv : v.NaNFree) (hvk : v.DistinctKeys) (hwk : w.DistinctKeys)
    (h : v.meaning = w.meaning) : v.Equal w := by
  induction v using nestedInduction generalizing w with
  | scalar v hscalar =>
    obtain ⟨a, ha⟩ := (naNFree_iff_of_scalar hscalar).mp hv
    rw [meaning_of_scalar hscalar, ha] at h
    cases w with
    | array _ | object _ => cases h
    | _ => exact strictEq_of_atom? ha (Meaning.scalar.inj h).symm
  | array as ih =>
    cases w with
    | array bs =>
      rw [meaning_array, meaning_array, Meaning.array.injEq, map_eq_map_iff] at h
      have hnan := naNFree_array_iff.mp hv
      have has := distinctKeys_array_iff.mp hvk
      have hbs := distinctKeys_array_iff.mp hwk
      have hall := forall₂_imp_of_mem (fun a ha b hb => ih a ha (hnan a ha) (has a ha) (hbs b hb)) h
      exact equal_array_iff.mpr ⟨bs, rfl, hall⟩
    | _ => cases h
  | object fs ih =>
    cases w with
    | object gs =>
      rw [meaning_object, meaning_object, Meaning.object.injEq] at h
      have hnan := naNFree_object_iff.mp hv
      obtain ⟨hfk, hfs⟩ := distinctKeys_object_iff.mp hvk
      obtain ⟨hgk, hgs⟩ := distinctKeys_object_iff.mp hwk
      have hkey (key : String) : (fs.lookup key).map meaning = (gs.lookup key).map meaning := congrFun h key
      refine equal_object_iff.mpr ⟨gs, rfl, length_eq_of_meaning_eq hfk hgk hkey, fun f hf => ?_, fun g hg => ?_⟩
      · have hf' := hkey f.1
        rw [lookup_of_nodup hfk hf, Option.map_some, eq_comm, Option.map_eq_some_iff] at hf'
        obtain ⟨w, hw, hwf⟩ := hf'
        exact ⟨w, hw, ih f hf (hnan f hf) (hfs f hf) (hgs _ (mem_of_lookup hw)) hwf.symm⟩
      · have hg' := hkey g.1
        rw [lookup_of_nodup hgk hg, Option.map_some, Option.map_eq_some_iff] at hg'
        obtain ⟨v, hv, -⟩ := hg'
        exact ⟨v, hv⟩
    | _ => cases h

/-! ### The meaning of a respelling -/

theorem Respelled.meaning_eq {v w : Value} (h : v.Respelled w) : v.meaning = w.meaning := by
  induction h with
  | refl v => rfl
  | number hv hw =>
    rw [meaning_of_scalar (isContainer_of_quantity? hv), meaning_of_scalar (isContainer_of_quantity? hw),
      atom?_eq_number_iff.mpr hv, atom?_eq_number_iff.mpr hw]
  | fields hkeys h => simp only [meaning_object, lookup_eq_of_perm hkeys h]
  | item before after _ ih => simp only [meaning_array, List.map_append, List.map_cons, ih]
  | @field v w key before after _ ih =>
    rw [meaning_object, meaning_object]
    refine congrArg Meaning.object (funext fun k => ?_)
    rw [lookup_field, lookup_field]
    cases before.lookup k with
    | some u => rfl
    | none =>
      simp only [Option.none_or]
      split
      · exact congrArg some ih
      · rfl
  | trans _ _ ih ih' => exact ih.trans ih'

/-! ### Equality and meaning -/

theorem Equal.typeName {v w : Value} (h : v.Equal w) : v.typeName = w.typeName ∨ v.IsNumber ∧ w.IsNumber := by
  have hnumber (hv : v.IsNumber) : v.IsNumber ∧ w.IsNumber := by
    obtain ⟨q, -, hw⟩ := (strictEq_iff_quantity? hv).mp h
    exact ⟨hv, isNumber_of_quantity? hw⟩
  cases v with
  | integer n => exact .inr (hnumber (.integer n))
  | float x => exact .inr (hnumber (.float x))
  | array as =>
    obtain ⟨bs, rfl, -⟩ := equal_array_iff.mp h
    exact .inl rfl
  | object fs =>
    obtain ⟨gs, rfl, -⟩ := equal_object_iff.mp h
    exact .inl rfl
  | null =>
    obtain ⟨_, ⟨⟩, hw⟩ := (strictEq_iff_of_scalar rfl).mp h
    exact .inl (congrArg Value.typeName (atom?_eq_null_iff.mp hw)).symm
  | bool b =>
    obtain ⟨_, ⟨⟩, hw⟩ := (strictEq_iff_of_scalar rfl).mp h
    exact .inl (congrArg Value.typeName (atom?_eq_bool_iff.mp hw)).symm
  | string s =>
    obtain ⟨_, ⟨⟩, hw⟩ := (strictEq_iff_of_scalar rfl).mp h
    exact .inl (congrArg Value.typeName (atom?_eq_string_iff.mp hw)).symm

theorem equal_iff {v w : Value} (hv : v.DistinctKeys) (hw : w.DistinctKeys) :
    v.Equal w ↔ v.NaNFree ∧ w.NaNFree ∧ v.meaning = w.meaning := by
  constructor
  · exact fun h => ⟨h.naNFree, (h.self_of_distinctKeys hw).naNFree, h.meaning_eq⟩
  · exact fun ⟨hnan, _, h⟩ => equal_of_meaning_eq hnan hv hw h

/-- Where no key comes twice in an object, two values are equal if and only if there is no NaN in them and they mean
    the same. So equality is an equivalence of the values without NaN. It does not look at the order of fields, at any
    depth, nor at how a number is written, and values of different types are not equal, where all numbers are of one
    type. -/
theorem strictEq_iff_meaning {v w : Value} (hv : v.DistinctKeys) (hw : w.DistinctKeys) :
    (v.strictEq w = true ↔ v.NaNFree ∧ w.NaNFree ∧ v.meaning = w.meaning) ∧
      (v.NaNFree → v.strictEq v = true) ∧
      v.strictEq w = w.strictEq v ∧
      (∀ u : Value, u.DistinctKeys → v.strictEq w = true → w.strictEq u = true → v.strictEq u = true) ∧
      (∀ v', v.Respelled v' → v'.strictEq w = v.strictEq w ∧ w.strictEq v' = w.strictEq v) ∧
      (v.strictEq w = true → v.typeName = w.typeName ∨ v.IsNumber ∧ w.IsNumber) := by
  refine ⟨equal_iff hv hw, fun hnan => (equal_iff hv hv).mpr ⟨hnan, hnan, rfl⟩, strictEq_comm_of_distinctKeys hv hw,
    fun u _ hvw hwu => Equal.trans hvw hwu, fun v' h => ?_, fun h => Equal.typeName h⟩
  have hv' := h.distinctKeys_iff.mp hv
  have heq : v'.strictEq w = v.strictEq w := by
    rw [Bool.eq_iff_iff]
    change v'.Equal w ↔ v.Equal w
    rw [equal_iff hv' hw, equal_iff hv hw, h.naNFree_iff, h.meaning_eq]
  refine ⟨heq, ?_⟩
  rw [strictEq_comm_of_distinctKeys hw hv', strictEq_comm_of_distinctKeys hw hv, heq]

/-- Another order of the fields, a double for an integer and one zero for the other. -/
theorem strictEq_iff_meaning_nested :
    (object [("a", .integer 12), ("b", .array [.float ⟨0x8000000000000000⟩])]).meaning =
        (object [("b", .array [.integer 0]), ("a", .float ⟨0x4028000000000000⟩)]).meaning := by
  have hv : (object [("a", .integer 12), ("b", .array [.float ⟨0x8000000000000000⟩])]).DistinctKeys := by
    simpa [distinctKeys_object_iff, distinctKeys_array_iff] using
      And.intro (distinctKeys_of_scalar rfl) (distinctKeys_of_scalar rfl)
  have hw : (object [("b", .array [.integer 0]), ("a", .float ⟨0x4028000000000000⟩)]).DistinctKeys := by
    simpa [distinctKeys_object_iff, distinctKeys_array_iff] using
      And.intro (distinctKeys_of_scalar rfl) (distinctKeys_of_scalar rfl)
  exact ((strictEq_iff_meaning hv hw).1.mp (by decide +kernel)).2.2

end Value

end RecordQuery
