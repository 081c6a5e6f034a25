import RecordQuery.Proofs.Evaluation

/-! Which error an evaluation ends with. It depends on the tree, on which methods are known and on whether parameters
    are checked. Neither the records nor the methods themselves have a part in it, since every call is compiled
    before the first one runs. -/

namespace RecordQuery.Evaluator

/-- How an evaluation ends, leaving out the records that it keeps. -/
def outcome (ev : Evaluator) (e : Expr) (records : List Value) : Except EvalError Unit :=
  (ev.evaluate e records).map fun _ => ()

theorem getLast?_filterMap_eq_some_iff {α β : Type} {f : α → Option β} {l : List α} {b : β} :
    (l.filterMap f).getLast? = some b ↔
      ∃ earlier a later, l = earlier ++ a :: later ∧ f a = some b ∧ ∀ x ∈ later, f x = none := by
  rw [List.getLast?_filterMap, List.findSome?_eq_some_iff]
  constructor
  · rintro ⟨later, a, earlier, hsplit, ha, hlater⟩
    refine ⟨earlier.reverse, a, later.reverse, ?_, ha, fun x hx => hlater x (List.mem_reverse.mp hx)⟩
    rw [← List.reverse_reverse l, hsplit]
    simp
  · rintro ⟨earlier, a, later, rfl, ha, hlater⟩
    exact ⟨later.reverse, a, earlier.reverse, by simp, ha, fun x hx => hlater x (List.mem_reverse.mp hx)⟩

variable {ev ev' : Evaluator}

theorem evaluate_of_not_chain {e : Expr} (h : ∀ calls, e ≠ .chain calls) (records : List Value) :
    ev.evaluate e records = .error (.unsupported e.kindName) := by
  cases e with
  | chain calls => exact absurd rfl (h calls)
  | _ => rfl

/-- The error of a chain of calls is the fault of the last call that has one. -/
theorem evaluate_chain_eq_error_iff {calls : Query} {records : List Value} {fault : EvalError} :
    ev.evaluate (.chain calls) records = .error fault ↔
      ∃ earlier c later, calls = earlier ++ c :: later ∧ ev.fault? c = some fault ∧
        ∀ d ∈ later, ev.fault? d = none := by
  rw [← getLast?_filterMap_eq_some_iff, evaluate, stages_eq]
  cases (calls.filterMap ev.fault?).getLast? with
  | none => simp [Except.map]
  | some e => simp [Except.map]

/-- Methods under the same names have the same faults, whatever they do. -/
theorem fault?_congr (hcheck : ev'.checksParameter = ev.checksParameter)
    (hnames : ∀ name, ev'.methods.contains name = ev.methods.contains name) (c : Call Expr) :
    ev'.fault? c = ev.fault? c := by
  have hname := hnames c.method
  rw [Methods.contains, Methods.contains] at hname
  rw [fault?, fault?, hcheck]
  cases hm : ev.methods.get? c.method <;> cases hm' : ev'.methods.get? c.method <;> simp [hm, hm'] at hname ⊢

theorem outcome_chain (ev : Evaluator) (calls : Query) (records : List Value) :
    ev.outcome (.chain calls) records =
      match (calls.filterMap ev.fault?).getLast? with
      | some e => .error e
      | none => .ok () := by
  rw [outcome, evaluate, stages_eq]
  cases (calls.filterMap ev.fault?).getLast? <;> rfl

theorem outcome_congr (hcheck : ev'.checksParameter = ev.checksParameter)
    (hnames : ∀ name, ev'.methods.contains name = ev.methods.contains name) (e : Expr) (records records' : List Value) :
    ev'.outcome e records' = ev.outcome e records := by
  cases e with
  | chain calls =>
    have hfault : ev'.fault? = ev.fault? := funext (fault?_congr hcheck hnames)
    rw [outcome_chain, outcome_chain, hfault]
  | _ => rfl

/-- A tree that is no chain of calls is not supported. A chain of calls ends with the fault of the last call that has
    one, and runs if none has. How an evaluation ends is the same for all records, and for all methods that are known
    under the same names, so no method is applied before a fault is found. -/
theorem evaluate_ends (ev : Evaluator) :
    (∀ e records, (∀ calls, e ≠ .chain calls) → ev.evaluate e records = .error (.unsupported e.kindName)) ∧
      (∀ calls records fault, ev.evaluate (.chain calls) records = .error fault ↔
        ∃ earlier c later, calls = earlier ++ c :: later ∧ ev.fault? c = some fault ∧
          ∀ d ∈ later, ev.fault? d = none) ∧
      (∀ calls records, (∃ kept, ev.evaluate (.chain calls) records = .ok kept) ↔ ∀ c ∈ calls, ev.fault? c = none) ∧
      (∀ e records records', ev.outcome e records' = ev.outcome e records) ∧
      ∀ ev' : Evaluator, ev'.checksParameter = ev.checksParameter →
        (∀ name, ev'.methods.contains name = ev.methods.contains name) →
        ∀ e records records', ev'.outcome e records' = ev.outcome e records := by
  refine ⟨fun e records h => evaluate_of_not_chain h records, fun _ _ _ => evaluate_chain_eq_error_iff,
    fun _ _ => evaluate_chain_isOk_iff, fun e records records' => outcome_congr rfl (fun _ => rfl) e records records',
    fun ev' hcheck hnames => outcome_congr hcheck hnames⟩

/-- The first call has an unknown method and the second one a fault in its body, which is the one that is reported. -/
example :
    Evaluator.standard.evaluate (.chain [⟨"Sum", ⟨"x", Condition.single (.path ⟨"x", []⟩)⟩⟩,
      ⟨"Where", ⟨"x", Condition.single .empty⟩⟩]) [] = .error (.unsupported "empty expression") :=
  rfl

end RecordQuery.Evaluator
