import RecordQuery.Check
import RecordQuery.Proofs.Evaluation
import RecordQuery.Proofs.Parse

/-! A query is valid if and only if it runs. The names of its methods are all that can be wrong with a query that has
    been parsed, and a validation looks them up where a run does. -/

namespace RecordQuery

/-- The only fault of a call in a query that is written is a method that is not known. -/
theorem fault?_of_parse {ms : Methods} {text : String} {q : Query} (h : parse text = .ok q) {c : Call Expr}
    (hc : c ∈ q) :
    (Evaluator.mk ms false).fault? c =
      match ms.get? c.method with
      | none => some (.unknownMethod c.method)
      | some _ => none := by
  rw [Evaluator.fault?, (simple_of_parse h c hc).faults]
  rfl

/-- A query is valid if it runs, on whichever records. -/
theorem parseWith_names_iff {ms : Methods} {text : String} {q : Query} (records : List Value) :
    parseWith (some ms.names) text = .ok q ↔
      parse text = .ok q ∧ ∃ kept, (Evaluator.mk ms false).evaluate (.chain q) records = .ok kept := by
  rw [parseWith_known_iff]
  refine and_congr_right fun hq => ?_
  rw [Evaluator.evaluate_chain_isOk_iff]
  refine forall₂_congr fun c hc => ?_
  rw [fault?_of_parse hq hc, Methods.mem_names_iff]
  cases ms.get? c.method <;> simp

theorem filter_eq_ok_iff {text : String} {records kept : List Value} :
    filter text records = .ok kept ↔
      ∃ q, parse text = .ok q ∧ Evaluator.standard.evaluate (.chain q) records = .ok kept := by
  rw [filter, filterWith]
  cases parse text with
  | error e => simp
  | ok q => cases h : Evaluator.standard.evaluate (.chain q) records <;>
      simp [h, mapError_ok, mapError_error]

theorem exists_filter_iff {text : String} (records : List Value) :
    (∃ kept, filter text records = .ok kept) ↔ ∃ q, parseWith (some Methods.standard.names) text = .ok q := by
  simp only [filter_eq_ok_iff, parseWith_names_iff records]
  exact ⟨fun ⟨kept, q, hq, h⟩ => ⟨q, hq, kept, h⟩, fun ⟨q, hq, kept, h⟩ => ⟨kept, q, hq, h⟩⟩

theorem Check.run_eq_valid_iff {c : Check} (h : c.validateOnly = true) :
    c.run = .ok .valid ↔ ∃ q, parseWith (some Methods.standard.names) c.query = .ok q := by
  rw [run, if_pos h]
  cases parseWith (some Methods.standard.names) c.query <;> simp

/-- A check of a text finds it valid if it runs on all records, which it does if it runs on any. For other methods
    too, the parser that knows their names gives a query if the text parses to it and it runs; and what a parsed query
    can fail with is an unknown method. -/
theorem valid_iff_runs (text : String) (ms : Methods) :
    (∀ input compact showTree, (Check.mk text input compact true showTree).run = .ok .valid ↔
        ∀ records, ∃ kept, filter text records = .ok kept) ∧
      ((∀ records, ∃ kept, filter text records = .ok kept) ↔ ∃ records kept, filter text records = .ok kept) ∧
      (∀ q, parseWith (some ms.names) text = .ok q ↔
        parse text = .ok q ∧ ∀ records, ∃ kept, (Evaluator.mk ms false).evaluate (.chain q) records = .ok kept) ∧
      (∀ q, parseWith (some ms.names) text = .ok q ↔
        parse text = .ok q ∧ ∃ records kept, (Evaluator.mk ms false).evaluate (.chain q) records = .ok kept) ∧
      ∀ q records e, parse text = .ok q → (Evaluator.mk ms false).evaluate (.chain q) records = .error e →
        ∃ c ∈ q, ms.get? c.method = none ∧ e = .unknownMethod c.method := by
  refine ⟨fun input compact showTree => ?_, ?_, fun q => ?_, fun q => ?_, fun q records e hq he => ?_⟩
  · rw [Check.run_eq_valid_iff rfl]
    simp only [exists_filter_iff, forall_const]
  · simp only [exists_filter_iff, forall_const, exists_const]
  · exact ⟨fun h => ⟨((parseWith_names_iff []).mp h).1, fun records => ((parseWith_names_iff records).mp h).2⟩,
      fun ⟨hq, h⟩ => (parseWith_names_iff []).mpr ⟨hq, h []⟩⟩
  · exact ⟨fun h => ⟨((parseWith_names_iff []).mp h).1, [], ((parseWith_names_iff []).mp h).2⟩,
      fun ⟨hq, records, h⟩ => (parseWith_names_iff records).mpr ⟨hq, h⟩⟩
  · obtain ⟨c, hc, hfault⟩ := Evaluator.exists_fault_of_evaluate he
    rw [fault?_of_parse hq hc] at hfault
    cases hm : ms.get? c.method with
    | some m =>
      rw [hm] at hfault
      cases hfault
    | none =>
      rw [hm] at hfault
      exact ⟨c, hc, hm, (Option.some.inj hfault).symm⟩

end RecordQuery
