import RecordQuery.Binary64.Basic

/-! # Values

The values that records are made of. An integer and a double are kept apart, so that an integer is written as it was read,
but they count as one numeric type. The fields of an object keep their order, and a key may occur more than once. -/

namespace RecordQuery

/-- A value: null, a boolean, a number, a string, an array or an object. -/
inductive Value where
  | null
  | bool (b : Bool)
  | integer (n : Int64)
  | float (x : Binary64)
  | string (s : String)
  | array (items : List Value)
  | object (fields : List (String × Value))
  deriving Inhabited, Repr

namespace Value

/-- The value of the first field named `key`; only an object has fields. -/
def get? (key : String) : Value → Option Value
  | .object fields => fields.lookup key
  | _ => none

/-- Whether the value counts as true in a condition: null, false, zero, NaN and the empty string do not. -/
def isTruthy : Value → Bool
  | .null => false
  | .bool b => b
  | .integer n => n != 0
  | .float x => !x.isZero && !x.isNaN
  | .string s => s != ""
  | .array _ | .object _ => true

/-- The name of the value's type. -/
def typeName : Value → String
  | .null => "null"
  | .bool _ => "boolean"
  | .integer _ => "integer"
  | .float _ => "float"
  | .string _ => "string"
  | .array _ => "array"
  | .object _ => "object"

/-- The value reached from a record through fields of these names, null where a field is missing. -/
def walk : List String → Value → Value
  | [], v => v
  | key :: keys, v => ((v.get? key).map (walk keys)).getD .null

end Value

/-- The first entry of a key decides what is found under it. -/
theorem lookup_cons {β : Type} (key k : String) (v : β) (entries : List (String × β)) :
    ((k, v) :: entries).lookup key = if key = k then some v else entries.lookup key := by
  rw [List.lookup_cons]
  by_cases h : key = k
  · simp [h]
  · simp [h, beq_eq_false_iff_ne.mpr h]

/-- What is found under a key stands under it. -/
theorem mem_of_lookup {β : Type} {key : String} {v : β} {entries : List (String × β)}
    (h : entries.lookup key = some v) : (key, v) ∈ entries := by
  induction entries with
  | nil => cases h
  | cons e entries ih =>
    obtain ⟨k, w⟩ := e
    rw [lookup_cons] at h
    split at h
    · rename_i hk
      cases h
      rw [hk]
      exact List.mem_cons_self
    · exact List.mem_cons_of_mem _ (ih h)

theorem exists_lookup_of_mem {β : Type} {e : String × β} {entries : List (String × β)} (h : e ∈ entries) :
    ∃ v, entries.lookup e.1 = some v := by
  induction entries with
  | nil => cases h
  | cons d entries ih =>
    obtain ⟨k, v⟩ := d
    rw [lookup_cons]
    split
    · exact ⟨v, rfl⟩
    · rename_i hk
      rcases List.mem_cons.mp h with rfl | h
      · exact absurd rfl hk
      · exact ih h

/-- Under distinct keys each entry is found. -/
theorem lookup_of_nodup {β : Type} {e : String × β} {entries : List (String × β)} (hkeys : (entries.map (·.1)).Nodup)
    (h : e ∈ entries) : entries.lookup e.1 = some e.2 := by
  induction entries with
  | nil => cases h
  | cons d entries ih =>
    obtain ⟨k, v⟩ := d
    obtain ⟨hk, hkeys⟩ := List.nodup_cons.mp hkeys
    rw [lookup_cons]
    rcases List.mem_cons.mp h with rfl | h
    · exact if_pos rfl
    · rw [if_neg fun hek => hk (List.mem_map.mpr ⟨e, h, hek⟩)]
      exact ih hkeys h

end RecordQuery
