import RecordQuery.Value.Basic

/-! # Fields under distinct keys

A JSON object has one value for each key. Where pairs are collected into one, a key that comes again keeps its first place
and takes the new value. -/

namespace RecordQuery

/-- The fields of an object in their order. -/
abbrev Fields (β : Type := Value) := List (String × β)

namespace Fields

variable {β γ : Type}

/-- The fields after `key` has been given the value `v`: in its place if it is there, at the end if it is new. -/
def put (key : String) (v : β) : Fields β → Fields β
  | [] => [(key, v)]
  | (k, w) :: fs => if k = key then (k, v) :: fs else (k, w) :: put key v fs

/-- The pairs collected from first to last. -/
def collect (pairs : Fields β) : Fields β := pairs.foldl (fun fs p => put p.1 p.2 fs) []

theorem lookup_put (key k : String) (v : β) (fs : Fields β) :
    (put key v fs).lookup k = if k = key then some v else fs.lookup k := by
  induction fs with
  | nil => rw [put, lookup_cons]
  | cons f fs ih =>
    obtain ⟨j, w⟩ := f
    rw [put, lookup_cons]
    split
    · subst j
      rw [lookup_cons]
      split <;> rfl
    · rename_i hj
      rw [lookup_cons, ih]
      split
      · subst k
        rw [if_neg hj]
      · rfl

/-- Under a key stands what was made of the value that stood there. -/
theorem lookup_map (key : String) (f : β → γ) (fs : Fields β) :
    (fs.map fun p => (p.1, f p.2)).lookup key = (fs.lookup key).map f := by
  induction fs with
  | nil => rfl
  | cons p fs ih =>
    rw [List.map_cons, lookup_cons, lookup_cons, ih]
    split <;> rfl

/-- A key keeps its place, and a new key comes last. -/
theorem map_fst_put (key : String) (v : β) (fs : Fields β) :
    (put key v fs).map (·.1) = if key ∈ fs.map (·.1) then fs.map (·.1) else fs.map (·.1) ++ [key] := by
  induction fs with
  | nil => simp [put]
  | cons f fs ih =>
    obtain ⟨k, w⟩ := f
    by_cases h : k = key
    · subst h
      simp [put]
    · simp only [put, h, ↓reduceIte, List.map_cons, ih, List.mem_cons, Ne.symm h, false_or]
      split <;> simp

end Fields

end RecordQuery
