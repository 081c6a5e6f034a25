import RecordQuery.Proofs.Validation

/-! What a query of `Where` calls keeps: of all records those that satisfy the conditions of all calls. The standard
    methods have no other name, so every query that runs at all does this. -/

namespace RecordQuery

/-- Whether a query keeps a record: all of its conditions hold. -/
def Query.keeps (q : Query) (r : Value) : Bool := q.all fun c => (Expr.logical c.lambda.body).holds r

theorem Query.keeps_congr {q : Query} {r s : Value}
    (h : ∀ c ∈ q, (Expr.logical c.lambda.body).holds r = (Expr.logical c.lambda.body).holds s) :
    q.keeps r = q.keeps s := by
  rw [keeps, keeps, Bool.eq_iff_iff, List.all_eq_true, List.all_eq_true]
  exact forall₂_congr fun c hc => by rw [h c hc]

theorem Methods.standard_get?_eq_some_iff {name : String} {m : Method} :
    Methods.standard.get? name = some m ↔ name = "Where" ∧ m = .keep := by
  rw [Methods.standard, Methods.get?_register]
  split
  · rename_i h
    simp [h, eq_comm]
  · rename_i h
    simp [h, Methods.get?, Methods.empty]

theorem filter_of_parse {text : String} {q : Query} (hq : parse text = .ok q) (hw : ∀ c ∈ q, c.method = "Where")
    (records : List Value) : filter text records = .ok (records.filter q.keeps) := by
  have hkeep (c : Call Expr) (hc : c ∈ q) : Methods.standard.get? c.method = some .keep :=
    Methods.standard_get?_eq_some_iff.mpr ⟨hw c hc, rfl⟩
  have hfault (c : Call Expr) (hc : c ∈ q) : Evaluator.standard.fault? c = none := by
    have h := @fault?_of_parse .standard _ _ hq c hc
    rwa [hkeep c hc] at h
  have hrun : q.map Evaluator.standard.run = q.map fun c => Method.keep fun r => (Expr.logical c.lambda.body).holds r :=
    List.map_congr_left fun c hc => Evaluator.run_eq (hkeep c hc)
  refine filter_eq_ok_iff.mpr ⟨q, hq, Evaluator.evaluate_chain_eq_ok_iff.mpr ⟨hfault, ?_⟩⟩
  rw [hrun, Evaluator.runStages_keep]
  rfl

/-- A query that keeps any records at all keeps, of all records, those that satisfy its conditions. -/
theorem filter_of_filter {text : String} {records kept : List Value} (h : filter text records = .ok kept) :
    ∃ q, parse text = .ok q ∧ ∀ rs, filter text rs = .ok (rs.filter (Query.keeps q)) := by
  obtain ⟨q, hq, heval⟩ := filter_eq_ok_iff.mp h
  obtain ⟨hfault, -⟩ := Evaluator.evaluate_chain_eq_ok_iff.mp heval
  refine ⟨q, hq, filter_of_parse hq fun c hc => ?_⟩
  obtain ⟨⟨m, hm⟩, -⟩ := Evaluator.fault?_eq_none_iff.mp (hfault c hc)
  exact (Methods.standard_get?_eq_some_iff.mp hm).1

end RecordQuery
