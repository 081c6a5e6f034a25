import RecordQuery.Proofs.Meaning

/-! Running a chain of calls. It runs if no call has a fault, whatever the records are. Then each call hands its
    records to the next one, and what it does to them depends on its own method and its own body alone. -/

namespace RecordQuery.Evaluator

/-- A chain of calls without a fault runs its calls from left to right; another one does not run. -/
theorem evaluate_chain_eq_ok_iff {ev : Evaluator} {calls : Query} {records kept : List Value} :
    ev.evaluate (.chain calls) records = .ok kept ↔
      (∀ c ∈ calls, ev.fault? c = none) ∧ kept = runStages (calls.map ev.run) records := by
  constructor
  · intro h
    obtain ⟨stages, hstages, rfl⟩ := map_eq_ok h
    have hf := no_fault_of_stages hstages
    rw [stages_of_no_fault hf] at hstages
    exact ⟨hf, by rw [Except.ok.inj hstages]⟩
  · rintro ⟨hf, rfl⟩
    rw [evaluate, stages_of_no_fault hf]
    rfl

/-- Whether a chain of calls runs does not depend on the records: it does if no call has a fault. -/
theorem evaluate_chain_isOk_iff {ev : Evaluator} {calls : Query} {records : List Value} :
    (∃ kept, ev.evaluate (.chain calls) records = .ok kept) ↔ ∀ c ∈ calls, ev.fault? c = none := by
  simp only [evaluate_chain_eq_ok_iff, exists_and_left, exists_eq, and_true]

/-- Calls that come after others are run on the records that the others leave. -/
theorem evaluate_chain_append {ev : Evaluator} {p q : Query} {records kept : List Value} :
    ev.evaluate (.chain (p ++ q)) records = .ok kept ↔
      ∃ between, ev.evaluate (.chain p) records = .ok between ∧ ev.evaluate (.chain q) between = .ok kept := by
  simp only [evaluate_chain_eq_ok_iff, List.forall_mem_append, List.map_append, runStages, List.foldl_append]
  constructor
  · rintro ⟨⟨hp, hq⟩, rfl⟩
    exact ⟨_, ⟨hp, rfl⟩, hq, rfl⟩
  · rintro ⟨_, ⟨hp, rfl⟩, hq, rfl⟩
    exact ⟨⟨hp, hq⟩, rfl⟩

theorem exists_fault_of_evaluate {ev : Evaluator} {calls : Query} {records : List Value} {e : EvalError}
    (h : ev.evaluate (.chain calls) records = .error e) : ∃ c ∈ calls, ev.fault? c = some e := by
  rw [evaluate, stages_eq] at h
  split at h
  · rename_i e' hlast
    cases h
    exact List.mem_filterMap.mp (List.mem_of_getLast? hlast)
  · cases h

/-- A chain of calls without a fault runs from left to right. The method of each call, whichever methods the names
    stand for, is given the predicate that the call's own body says, and the records that the calls before it leave. -/
theorem evaluate_chain_eq_foldl {ev : Evaluator} {calls : Query} (build : String → Method)
    (hb : ∀ c ∈ calls, ev.methods.get? c.method = some (build c.method)) (hf : ∀ c ∈ calls, ev.fault? c = none)
    (records : List Value) :
    ev.evaluate (.chain calls) records =
      .ok (calls.foldl (fun rs c => build c.method (fun r => (Expr.logical c.lambda.body).holds r) rs) records) := by
  have hrun : calls.map ev.run = calls.map fun c => build c.method fun r => (Expr.logical c.lambda.body).holds r :=
    List.map_congr_left fun c hc => run_eq (hb c hc)
  rw [evaluate, stages_of_no_fault hf, hrun, Except.map, runStages, List.foldl_map]

/-- Records are taken while they are small, replaced by whether they are one, and kept if that is true: no two of the
    three calls could change places. -/
theorem evaluate_chain_eq_foldl_mark :
    (Evaluator.mk ((Methods.standard.register "take_while" .takeWhile).register "mark" .mark) true).evaluate
        (.chain [⟨"take_while", ⟨"x", Condition.single (.comparison .less (.path ⟨"x", []⟩) (.number 3))⟩⟩,
          ⟨"mark", ⟨"y", Condition.single (.comparison .equal (.path ⟨"y", []⟩) (.number 1))⟩⟩,
          ⟨"Where", ⟨"z", Condition.single (.path ⟨"z", []⟩)⟩⟩])
        [.integer 1, .integer 2, .integer 3, .integer 1] = .ok [.bool true] := by
  let build (name : String) : Method :=
    if name = "take_while" then .takeWhile else if name = "mark" then .mark else .keep
  rw [evaluate_chain_eq_foldl build]
  · rfl
  · simp only [List.forall_mem_cons]
    exact ⟨rfl, rfl, rfl, nofun⟩
  · simp only [List.forall_mem_cons]
    exact ⟨rfl, rfl, rfl, nofun⟩

end RecordQuery.Evaluator
