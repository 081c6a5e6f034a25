import RecordQuery.Text.Quoted
import RecordQuery.Value.Basic

/-! # Methods

A method makes a stage of a query from the predicate of a call, and a stage turns one list of records into the next. The
methods that queries may call are kept under their names, in the order of the names. -/

namespace RecordQuery

/-- A test of one record. -/
abbrev Predicate := Value → Bool

/-- What a call does to the records. -/
abbrev Stage := List Value → List Value

/-- What a method makes of the predicate of a call. -/
abbrev Method := Predicate → Stage

namespace Method

/-- Keep the records that pass. -/
def keep : Method := fun p records => records.filter p

/-- Drop the records that pass. -/
def reject : Method := fun p records => records.filter fun r => !p r

/-- Keep the records before the first one that does not pass. -/
def takeWhile : Method := fun p records => records.takeWhile p

/-- Replace each record by whether it passes. -/
def mark : Method := fun p records => records.map fun r => .bool (p r)

end Method

/-- Methods under their names, which are distinct and increasing. -/
structure Methods where
  entries : List (String × Method)
  increasing : (entries.map (·.1)).Pairwise (· < ·)

namespace Methods

/-- No methods. -/
def empty : Methods := ⟨[], .nil⟩

/-- The entries with `m` under `name`, in its place among the names. -/
def insert (name : String) (m : Method) : List (String × Method) → List (String × Method)
  | [] => [(name, m)]
  | (k, n) :: entries =>
    if name < k then (name, m) :: (k, n) :: entries
    else if name = k then (name, m) :: entries
    else (k, n) :: insert name m entries

theorem mem_map_fst_insert {name n : String} {m : Method} {entries : List (String × Method)} :
    n ∈ (insert name m entries).map (·.1) ↔ n = name ∨ n ∈ entries.map (·.1) := by
  induction entries with
  | nil => simp [insert]
  | cons e entries ih =>
    obtain ⟨k, l⟩ := e
    rw [insert]
    split
    · simp
    · split
      · rename_i heq
        simp [heq]
      · simp [ih, or_left_comm]

theorem increasing_insert (name : String) (m : Method) {entries : List (String × Method)}
    (h : (entries.map (·.1)).Pairwise (· < ·)) : ((insert name m entries).map (·.1)).Pairwise (· < ·) := by
  induction entries with
  | nil => exact List.pairwise_singleton _ name
  | cons e entries ih =>
    obtain ⟨k, l⟩ := e
    obtain ⟨hk, hrest⟩ := List.pairwise_cons.mp h
    rw [insert]
    split
    · rename_i hlt
      refine List.pairwise_cons.mpr ⟨fun n hn => ?_, h⟩
      rcases List.mem_cons.mp hn with rfl | hn
      · exact hlt
      · exact String.lt_trans hlt (hk n hn)
    · rename_i hnlt
      split
      · rename_i heq
        subst heq
        exact h
      · rename_i hne
        have hlt : k < name := Std.lt_of_le_of_ne (String.not_lt.mp hnlt) (Ne.symm hne)
        refine List.pairwise_cons.mpr ⟨fun n hn => ?_, ih hrest⟩
        rcases mem_map_fst_insert.mp hn with rfl | hn
        · exact hlt
        · exact hk n hn

/-- The methods with `m` under `name`, where it replaces the one that was there. -/
def register (ms : Methods) (name : String) (m : Method) : Methods :=
  ⟨insert name m ms.entries, increasing_insert name m ms.increasing⟩

/-- The methods of a query that names no others: `Where`. -/
def standard : Methods := empty.register "Where" .keep

/-- The method of that name. -/
def get? (ms : Methods) (name : String) : Option Method := ms.entries.lookup name

/-- Whether there is a method of that name. -/
def contains (ms : Methods) (name : String) : Bool := (ms.get? name).isSome

/-- The names in increasing order. -/
def names (ms : Methods) : List String := ms.entries.map (·.1)

/-- The names in quotation marks, as a set. -/
def shown (ms : Methods) : String := "\x7b" ++ ", ".intercalate (ms.names.map Text.quoted) ++ "\x7d"

theorem lookup_insert (name n : String) (m : Method) (entries : List (String × Method)) :
    (insert name m entries).lookup n = if n = name then some m else entries.lookup n := by
  induction entries with
  | nil => rw [insert, lookup_cons]
  | cons e entries ih =>
    obtain ⟨k, l⟩ := e
    rw [insert, lookup_cons]
    split
    · rw [lookup_cons, lookup_cons]
    · split
      · rename_i hk
        subst hk
        rw [lookup_cons]
        split <;> rfl
      · rename_i hk
        rw [lookup_cons, ih]
        split
        · subst n
          rw [if_neg (Ne.symm hk)]
        · rfl

theorem get?_register (ms : Methods) (name n : String) (m : Method) :
    (ms.register name m).get? n = if n = name then some m else ms.get? n :=
  lookup_insert name n m ms.entries

theorem mem_names_iff {ms : Methods} {name : String} : name ∈ ms.names ↔ ∃ m, ms.get? name = some m := by
  constructor
  · intro h
    obtain ⟨e, he, rfl⟩ := List.mem_map.mp h
    exact exists_lookup_of_mem he
  · rintro ⟨m, hm⟩
    exact List.mem_map.mpr ⟨_, mem_of_lookup hm, rfl⟩

end Methods

end RecordQuery
