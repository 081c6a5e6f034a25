import RecordQuery.Binary64.Numeral
import RecordQuery.Text.Numeral
import RecordQuery.Value.Fields

/-! What is left of a value once it has been written as JSON and read again. A double that is no number
    becomes null, one that is written as an integer becomes that integer, and an object has one field for each
    key. Nothing else changes. -/

namespace RecordQuery

namespace Fields

variable {β : Type}

/-- One field for each key, at the place where the key comes first and with the value that it has last. -/
def lastValues : Fields β → Fields β
  | [] => []
  | (key, v) :: fs => (key, (fs.reverse.lookup key).getD v) :: (lastValues fs).filter fun f => f.1 ≠ key

theorem filter_put_self (key : String) (v : β) (fs : Fields β) :
    (put key v fs).filter (fun f => f.1 ≠ key) = fs.filter fun f => f.1 ≠ key := by
  induction fs with
  | nil => simp [put]
  | cons f fs ih =>
    obtain ⟨k, w⟩ := f
    rw [put]
    split
    · rename_i hk
      simp [hk]
    · rename_i hk
      simpa [hk] using ih

theorem filter_put_ne {key k : String} (hk : k ≠ key) (v : β) (fs : Fields β) :
    (put k v fs).filter (fun f => f.1 ≠ key) = put k v (fs.filter fun f => f.1 ≠ key) := by
  induction fs with
  | nil => simp [put, hk]
  | cons f fs ih =>
    obtain ⟨j, w⟩ := f
    by_cases hj : j = k
    · subst hj
      simp [hk, put]
    · rw [put, if_neg hj]
      by_cases hjk : j = key
      · simpa [hjk] using ih
      · simpa [hj, hjk, put] using ih

theorem lastValues_concat (fs : Fields β) (key : String) (v : β) :
    lastValues (fs ++ [(key, v)]) = put key v (lastValues fs) := by
  induction fs with
  | nil => rfl
  | cons f fs ih =>
    obtain ⟨k, w⟩ := f
    rw [List.cons_append, lastValues, lastValues, ih, put, List.reverse_append, List.reverse_singleton,
      List.singleton_append, lookup_cons]
    by_cases hk : k = key
    · subst hk
      rw [if_pos rfl, if_pos rfl, filter_put_self, Option.getD_some]
    · rw [if_neg hk, if_neg hk, filter_put_ne (Ne.symm hk)]

/-- Fields under distinct keys are kept as they are. -/
theorem lastValues_of_nodup {fs : Fields β} (h : (fs.map (·.1)).Nodup) : lastValues fs = fs := by
  induction fs with
  | nil => rfl
  | cons f fs ih =>
    obtain ⟨key, v⟩ := f
    obtain ⟨hkey, hfs⟩ := List.nodup_cons.mp h
    have hlookup : fs.reverse.lookup key = none := by
      rw [List.lookup_eq_none_iff]
      intro f hf
      rw [bne_iff_ne]
      rintro rfl
      exact hkey (List.mem_map.mpr ⟨f, List.mem_reverse.mp hf, rfl⟩)
    have hfilter : fs.filter (fun f => f.1 ≠ key) = fs := by
      refine List.filter_eq_self.mpr fun f hf => decide_eq_true ?_
      rintro rfl
      exact hkey (List.mem_map.mpr ⟨f, hf, rfl⟩)
    rw [lastValues, ih hfs, hlookup, hfilter]
    rfl

end Fields

namespace Value

mutual

/-- The value as it is read again after it has been written. -/
def reread : Value → Value
  | .float x =>
    if x.isFinite then
      match Text.readInt64? x.numeral with
      | some n => .integer n
      | none => .float x
    else .null
  | .array items => .array (rereadItems items)
  | .object fields => .object (Fields.lastValues (rereadFields fields))
  | v => v

@[inherit_doc reread]
def rereadItems : List Value → List Value
  | [] => []
  | v :: vs => v.reread :: rereadItems vs

@[inherit_doc reread]
def rereadFields : List (String × Value) → List (String × Value)
  | [] => []
  | (key, v) :: fs => (key, v.reread) :: rereadFields fs

end

mutual

/-- How many arrays and objects are nested in the value, itself included. -/
def depth : Value → Nat
  | .array items => depthItems items + 1
  | .object fields => depthFields fields + 1
  | _ => 0

@[inherit_doc depth]
def depthItems : List Value → Nat
  | [] => 0
  | v :: vs => max v.depth (depthItems vs)

@[inherit_doc depth]
def depthFields : List (String × Value) → Nat
  | [] => 0
  | (_, v) :: fs => max v.depth (depthFields fs)

end

theorem rereadItems_eq_map (items : List Value) : rereadItems items = items.map reread := by
  induction items with
  | nil => rfl
  | cons v items ih => rw [rereadItems, ih, List.map_cons]

theorem rereadFields_eq_map (fields : List (String × Value)) :
    rereadFields fields = fields.map fun f => (f.1, f.2.reread) := by
  induction fields with
  | nil => rfl
  | cons f fields ih => rw [rereadFields, ih, List.map_cons]

theorem depth_le_depthItems {items : List Value} {v : Value} (h : v ∈ items) : v.depth ≤ depthItems items := by
  induction items with
  | nil => cases h
  | cons w items ih =>
    rw [depthItems]
    rcases List.mem_cons.mp h with rfl | h
    · exact Nat.le_max_left _ _
    · exact Nat.le_trans (ih h) (Nat.le_max_right _ _)

theorem depth_le_depthFields {fields : List (String × Value)} {f : String × Value} (h : f ∈ fields) :
    f.2.depth ≤ depthFields fields := by
  induction fields with
  | nil => cases h
  | cons g fields ih =>
    rw [depthFields]
    rcases List.mem_cons.mp h with rfl | h
    · exact Nat.le_max_left _ _
    · exact Nat.le_trans (ih h) (Nat.le_max_right _ _)

/-- What is inherited from the items of an array and from the values of an object holds of every value. -/
@[elab_as_elim]
theorem induction {P : Value → Prop} (null : P .null) (bool : ∀ b, P (.bool b)) (integer : ∀ n, P (.integer n))
    (float : ∀ x, P (.float x)) (string : ∀ s, P (.string s))
    (array : ∀ items, (∀ v ∈ items, P v) → P (.array items))
    (object : ∀ fields, (∀ f ∈ fields, P f.2) → P (.object fields)) (v : Value) : P v :=
  @Value.rec P (fun items => ∀ v ∈ items, P v) (fun fields => ∀ f ∈ fields, P f.2) (fun f => P f.2)
    null bool integer float string array object
    nofun (fun _ _ hv hitems => List.forall_mem_cons.mpr ⟨hv, hitems⟩)
    nofun (fun _ _ hf hfields => List.forall_mem_cons.mpr ⟨hf, hfields⟩)
    (fun _ _ hv => hv) v

end Value

end RecordQuery
