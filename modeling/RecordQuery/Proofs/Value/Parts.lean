import RecordQuery.Proofs.Value.Reread

/-! The parts of a value: the value itself, the items and the fields in it, and all that is in these. Some properties
    are asked of all parts, such as that no key comes twice in an object. -/

namespace RecordQuery.Value

/-- Whether a value is an array or an object. -/
def isContainer : Value → Bool
  | .array _ | .object _ => true
  | _ => false

/-- What holds of scalars and is inherited from the items of an array and the values of an object holds of every
    value. -/
@[elab_as_elim]
theorem nestedInduction {P : Value → Prop} (scalar : ∀ v, v.isContainer = false → P v)
    (array : ∀ items, (∀ v ∈ items, P v) → P (.array items))
    (object : ∀ fields, (∀ f ∈ fields, P f.2) → P (.object fields)) (v : Value) : P v :=
  Value.induction (scalar .null rfl) (fun b => scalar (.bool b) rfl) (fun n => scalar (.integer n) rfl)
    (fun x => scalar (.float x) rfl) (fun s => scalar (.string s) rfl) array object v

/-- One value is the other one or stands somewhere in it. -/
inductive Within (u : Value) : Value → Prop
  | self : Within u u
  | item {v : Value} {items : List Value} (hv : v ∈ items) (h : Within u v) : Within u (.array items)
  | field {f : String × Value} {fields : List (String × Value)} (hf : f ∈ fields) (h : Within u f.2) :
      Within u (.object fields)

/-- The property holds of all parts of a value. -/
def Everywhere (P : Value → Prop) (v : Value) : Prop := ∀ u, u.Within v → P u

section Everywhere

variable {P : Value → Prop}

theorem everywhere_of_scalar {v : Value} (hv : v.isContainer = false) : Everywhere P v ↔ P v := by
  refine ⟨fun h => h v .self, fun h u hu => ?_⟩
  cases hu with
  | self => exact h
  | item _ _ | field _ _ => cases hv

theorem everywhere_array_iff {items : List Value} :
    Everywhere P (.array items) ↔ P (.array items) ∧ ∀ v ∈ items, Everywhere P v := by
  constructor
  · exact fun h => ⟨h _ .self, fun v hv u hu => h u (.item hv hu)⟩
  · rintro ⟨hself, hitems⟩ u hu
    cases hu with
    | self => exact hself
    | item hv hu => exact hitems _ hv u hu

theorem everywhere_object_iff {fields : List (String × Value)} :
    Everywhere P (.object fields) ↔ P (.object fields) ∧ ∀ f ∈ fields, Everywhere P f.2 := by
  constructor
  · exact fun h => ⟨h _ .self, fun f hf u hu => h u (.field hf hu)⟩
  · rintro ⟨hself, hfields⟩ u hu
    cases hu with
    | self => exact hself
    | field hf hu => exact hfields _ hf u hu

theorem Everywhere.get? {v w : Value} {key : String} (h : Everywhere P v) (hw : v.get? key = some w) :
    Everywhere P w := by
  cases v with
  | object fields => exact (everywhere_object_iff.mp h).2 _ (mem_of_lookup hw)
  | _ => cases hw

/-- What is reached through fields is a part, or null where a field is missing. -/
theorem Everywhere.walk {v : Value} (h : Everywhere P v) (hnull : P .null) (keys : List String) :
    Everywhere P (v.walk keys) := by
  induction keys generalizing v with
  | nil => exact h
  | cons key keys ih =>
    rw [Value.walk]
    cases hw : v.get? key with
    | none => exact (everywhere_of_scalar rfl).mpr hnull
    | some w => exact ih (h.get? hw)

end Everywhere

/-! ### Distinct keys -/

/-- No key comes twice in an object, at any depth. -/
def DistinctKeys : Value → Prop :=
  Everywhere fun v => ∀ fields, v = .object fields → (fields.map (·.1)).Nodup

theorem distinctKeys_of_scalar {v : Value} (hv : v.isContainer = false) : v.DistinctKeys :=
  (everywhere_of_scalar hv).mpr fun _ h => by
    subst h
    cases hv

theorem distinctKeys_array_iff {items : List Value} :
    (array items).DistinctKeys ↔ ∀ v ∈ items, v.DistinctKeys :=
  everywhere_array_iff.trans (and_iff_right nofun)

theorem distinctKeys_object_iff {fields : List (String × Value)} :
    (object fields).DistinctKeys ↔ (fields.map (·.1)).Nodup ∧ ∀ f ∈ fields, f.2.DistinctKeys := by
  rw [DistinctKeys, everywhere_object_iff]
  simp only [object.injEq, forall_eq']

theorem DistinctKeys.walk {v : Value} (h : v.DistinctKeys) (keys : List String) : (v.walk keys).DistinctKeys := by
  refine Everywhere.walk h (fun fields hnull => ?_) keys
  cases hnull

/-! ### NaN -/

/-- There is no NaN, at any depth. -/
def NaNFree : Value → Prop := Everywhere fun v => ∀ x, v = .float x → x.isNaN = false

theorem naNFree_array_iff {items : List Value} : (array items).NaNFree ↔ ∀ v ∈ items, v.NaNFree :=
  everywhere_array_iff.trans (and_iff_right nofun)

theorem naNFree_object_iff {fields : List (String × Value)} : (object fields).NaNFree ↔ ∀ f ∈ fields, f.2.NaNFree :=
  everywhere_object_iff.trans (and_iff_right nofun)

end RecordQuery.Value
