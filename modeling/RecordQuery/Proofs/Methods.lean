import Mathlib.Data.List.Induction
import Mathlib.Data.List.Sort
import RecordQuery.Methods

/-! Methods that are registered one after another. The names that are listed are the ones that have a method, the
    method of a name is the last one that was registered under it, and a method that takes the place of another one
    changes no name. -/

namespace RecordQuery.Methods

/-- The methods that are registered one after another, where a method replaces an earlier one of its name. -/
def ofList (ms : List (String × Method)) : Methods := ms.foldl (fun known m => known.register m.1 m.2) .empty

theorem ofList_concat (ms : List (String × Method)) (name : String) (m : Method) :
    ofList (ms ++ [(name, m)]) = (ofList ms).register name m := by
  rw [ofList, List.foldl_append]
  rfl

/-- Of the methods that are registered under a name the last one counts. -/
theorem get?_ofList (ms : List (String × Method)) (name : String) :
    (ofList ms).get? name = ms.reverse.lookup name := by
  induction ms using List.reverseRecOn with
  | nil => rfl
  | append_singleton ms entry ih =>
    obtain ⟨k, m⟩ := entry
    rw [ofList_concat, get?_register, ih, List.reverse_concat, lookup_cons]

theorem mem_names_iff_contains {ms : Methods} {name : String} : name ∈ ms.names ↔ ms.contains name = true := by
  rw [mem_names_iff, contains, Option.isSome_iff_exists]

/-- A method that replaces another one leaves the names as they are. -/
theorem names_register_of_contains {ms : Methods} {name : String} (h : ms.contains name = true) (m : Method) :
    (ms.register name m).names = ms.names := by
  refine (ms.register name m).increasing.eq_of_mem_iff ms.increasing fun n => ?_
  refine mem_map_fst_insert.trans (or_iff_right_of_imp ?_)
  rintro rfl
  exact mem_names_iff_contains.mpr h

end RecordQuery.Methods
