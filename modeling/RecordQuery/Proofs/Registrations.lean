import Mathlib.Data.List.Forall2
import RecordQuery.Proofs.Faults
import RecordQuery.Proofs.Grammar.Known
import RecordQuery.Proofs.Methods

/-! Collections of methods over time. New collections are made, collections are copied, and methods are registered in
    them, in any order. Each collection has under a name the method that was registered last under that name in its
    own history, and nothing that happens to another one changes it. A registration has an effect on the queries that
    call its name, and a registration under a new name on those only that did not run. -/

namespace RecordQuery

/-- The names of the methods that a tree calls. -/
def Expr.calledNames : Expr → List String
  | .chain calls => calls.map (·.method)
  | _ => []

namespace Methods

/-- The registrations of a collection from first to last. -/
abbrev History := List (String × Method)

/-- What happens to collections, which are counted in the order in which they are made: one is made without methods or
    with the standard ones, the `i`-th one is copied, or a method is registered in it. Nothing happens if there is no
    `i`-th one. -/
inductive Change where
  | empty
  | standard
  | copy (i : Nat)
  | register (i : Nat) (name : String) (m : Method)

namespace Change

/-- The collections after a change. -/
def apply (made : List Methods) : Change → List Methods
  | .empty => made ++ [.empty]
  | .standard => made ++ [.standard]
  | .copy i => made ++ made[i]?.toList
  | .register i name m => made.modify i (·.register name m)

/-- The histories of the collections after a change. A standard collection starts with `Where`, and a copy has the
    history of what it copies. -/
def record (histories : List History) : Change → List History
  | .empty => histories ++ [[]]
  | .standard => histories ++ [[("Where", .keep)]]
  | .copy i => histories ++ histories[i]?.toList
  | .register i name m => histories.modify i (· ++ [(name, m)])

end Change

/-- The collections that the changes make. -/
def made (changes : List Change) : List Methods := changes.foldl Change.apply []

/-- The histories of the collections that the changes make. -/
def histories (changes : List Change) : List History := changes.foldl Change.record []

/-! ### Answers -/

/-- One change keeps the collections what their histories make. -/
theorem Change.apply_map (histories : List History) (c : Change) :
    c.apply (histories.map ofList) = (c.record histories).map ofList := by
  cases c with
  | empty => simp [apply, record, ofList]
  | standard => simp [apply, record, ofList, Methods.standard]
  | copy i => cases h : histories[i]? <;> simp [apply, record, h]
  | register i name m =>
    refine List.ext_getElem? fun j => ?_
    simp only [apply, record, List.getElem?_modify, List.getElem?_map]
    cases histories[j]? with
    | none => rfl
    | some history => by_cases h : i = j <;> simp [h, ofList_concat]

/-- The collections are what their histories make, after any changes. -/
theorem made_eq_map (changes : List Change) : made changes = (histories changes).map ofList := by
  rw [made, histories, ← List.foldl_hom (List.map ofList) Change.apply_map]
  rfl

/-- The collection answers as its history says: a name has the method that was registered last under it, the names
    that have a method are the ones that are listed, and they are listed in the order of their characters, each once. -/
structure Answers (ms : Methods) (history : History) : Prop where
  get?_eq : ∀ name, ms.get? name = history.reverse.lookup name
  contains_iff : ∀ name, ms.contains name = true ↔ ∃ m, ms.get? name = some m
  mem_names_iff : ∀ name, name ∈ ms.names ↔ ms.contains name = true
  increasing : ms.names.Pairwise (· < ·)

theorem answers_ofList (history : History) : (ofList history).Answers history where
  get?_eq := get?_ofList history
  contains_iff name := by rw [← mem_names_iff_contains, Methods.mem_names_iff]
  mem_names_iff _ := mem_names_iff_contains
  increasing := (ofList history).increasing

/-! ### Other collections -/

theorem Change.getElem?_apply {made : List Methods} {i : Nat} {ms : Methods} (h : made[i]? = some ms) {c : Change}
    (hc : ∀ name m, c ≠ .register i name m) : (c.apply made)[i]? = some ms := by
  have hlt : i < made.length := (List.getElem?_eq_some_iff.mp h).1
  cases c with
  | empty | standard | copy => rw [apply, List.getElem?_append_left hlt, h]
  | register j name m =>
    have hne : j ≠ i := fun heq => hc name m (heq ▸ rfl)
    rw [apply, List.getElem?_modify_ne _ _ hne, h]

/-- A collection stays as it is as long as nothing is registered in it. -/
theorem getElem?_made_append {changes later : List Change} {i : Nat} {ms : Methods}
    (h : (made changes)[i]? = some ms) (hlater : ∀ name m, Change.register i name m ∉ later) :
    (made (changes ++ later))[i]? = some ms := by
  rw [made, List.foldl_append]
  induction later using List.reverseRecOn with
  | nil => exact h
  | append_singleton later c ih =>
    rw [List.foldl_concat]
    refine Change.getElem?_apply (ih fun name m hm => hlater name m (List.mem_append_left _ hm)) fun name m hc => ?_
    exact hlater name m (List.mem_append_right _ (List.mem_singleton.mpr hc.symm))

end Methods

/-! ### Queries -/

namespace Evaluator

variable {ev ev' : Evaluator} {ms : Methods} {checks : Bool}

theorem stage_congr (hcheck : ev'.checksParameter = ev.checksParameter) {c : Call Expr}
    (h : ev'.methods.get? c.method = ev.methods.get? c.method) : ev'.stage c = ev.stage c := by
  rw [stage, stage, h]
  simp only [condition_eq, hcheck]

theorem stages_congr (hcheck : ev'.checksParameter = ev.checksParameter) {calls : Query}
    (h : ∀ c ∈ calls, ev'.methods.get? c.method = ev.methods.get? c.method) :
    ev'.stages calls = ev.stages calls := by
  induction calls with
  | nil => rfl
  | cons c calls ih =>
    obtain ⟨hc, hcalls⟩ := List.forall_mem_cons.mp h
    rw [stages, stages, ih hcalls, stage_congr hcheck hc]

/-- An evaluation depends on the methods that the tree calls and on no others. -/
theorem evaluate_congr (hcheck : ev'.checksParameter = ev.checksParameter) {e : Expr}
    (h : ∀ name ∈ e.calledNames, ev'.methods.get? name = ev.methods.get? name) (records : List Value) :
    ev'.evaluate e records = ev.evaluate e records := by
  cases e with
  | chain calls => rw [evaluate, evaluate, stages_congr hcheck fun c hc => h _ (List.mem_map_of_mem hc)]
  | _ => rfl

theorem evaluate_register {name : String} {e : Expr} (h : name ∉ e.calledNames) (m : Method) (records : List Value) :
    (mk (ms.register name m) checks).evaluate e records = (mk ms checks).evaluate e records := by
  have hcheck : (mk (ms.register name m) checks).checksParameter = (mk ms checks).checksParameter := rfl
  refine evaluate_congr hcheck (fun n hn => ?_) records
  have hne : n ≠ name := fun heq => h (heq ▸ hn)
  exact (ms.get?_register name n m).trans (if_neg hne)

/-- A tree that is evaluated calls known methods only. -/
theorem contains_of_evaluate {e : Expr} {records kept : List Value} (h : ev.evaluate e records = .ok kept) :
    ∀ name ∈ e.calledNames, ev.methods.contains name = true := by
  cases e with
  | chain calls =>
    intro name hname
    obtain ⟨c, hc, rfl⟩ := List.mem_map.mp hname
    obtain ⟨hfault, -⟩ := evaluate_chain_eq_ok_iff.mp h
    obtain ⟨⟨m, hm⟩, -⟩ := fault?_eq_none_iff.mp (hfault c hc)
    rw [Methods.contains, hm]
    rfl
  | _ => exact fun _ hname => absurd hname List.not_mem_nil

end Evaluator

namespace Methods
open Grammar

/-- A new name makes no name unknown. -/
theorem parseTokens_register {ms : Methods} {ts : List Token} {q : Query} (h : parseTokens (some ms.names) ts = .ok q)
    (name : String) (m : Method) : parseTokens (some (ms.register name m).names) ts = .ok q := by
  rw [parseTokens_known_iff] at h ⊢
  exact ⟨h.1, fun c hc => mem_map_fst_insert.mpr (.inr (h.2 c hc))⟩

/-- Every collection answers as its own history says, whatever happens to it and to others, and a collection in which
    nothing is registered stays as it is. A registration changes the evaluation of those trees only that call its
    name. If the name is not new, every parse is the same as before; and if it is new, all trees that were evaluated
    and all queries that were parsed with known names only give the same as before. -/
theorem made_answers (changes : List Change) :
    List.Forall₂ Answers (made changes) (histories changes) ∧
      (∀ i ms later, (made changes)[i]? = some ms → (∀ name m, Change.register i name m ∉ later) →
        (made (changes ++ later))[i]? = some ms) ∧
      ∀ ms ∈ made changes, ∀ name m,
        (∀ e checks records, name ∉ e.calledNames →
          (Evaluator.mk (ms.register name m) checks).evaluate e records =
            (Evaluator.mk ms checks).evaluate e records) ∧
        (ms.contains name = true → ∀ ts,
          parseTokens (some (ms.register name m).names) ts = parseTokens (some ms.names) ts) ∧
        (ms.contains name = false →
          (∀ e checks records kept, (Evaluator.mk ms checks).evaluate e records = .ok kept →
            (Evaluator.mk (ms.register name m) checks).evaluate e records = .ok kept) ∧
          ∀ ts q, parseTokens (some ms.names) ts = .ok q →
            parseTokens (some (ms.register name m).names) ts = .ok q) := by
  have hanswers : List.Forall₂ Answers (made changes) (histories changes) := by
    rw [made_eq_map, List.forall₂_map_left_iff, List.forall₂_same]
    exact fun history _ => answers_ofList history
  refine ⟨hanswers, fun i ms later h hlater => getElem?_made_append h hlater, fun ms hms name m => ⟨?_, ?_, ?_⟩⟩
  · exact fun e checks records he => Evaluator.evaluate_register he m records
  · intro hname ts
    rw [names_register_of_contains hname]
  · intro hname
    refine ⟨fun e checks records kept h => ?_, fun ts q h => parseTokens_register h name m⟩
    have hcalled : name ∉ e.calledNames := fun hmem =>
      Bool.eq_false_iff.mp hname (Evaluator.contains_of_evaluate h name hmem)
    rw [Evaluator.evaluate_register hcalled, h]

/-- Another `Where` in a copy, and a new method there: both collections keep their own. -/
example :
    (made [.standard, .copy 0, .register 1 "Where" .reject, .register 1 "Any" .mark]).map
        (fun ms => (ms.names, ms.get? "Where")) =
      [(["Where"], some .keep), (["Any", "Where"], some .reject)] :=
  rfl

end Methods

end RecordQuery
