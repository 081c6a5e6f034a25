import RecordQuery.Proofs.Json.ReadBack
import RecordQuery.Proofs.Keeps
import RecordQuery.Proofs.Value.Exact

/-! A query run on its own output. The records that were kept are read again, and a condition may say something
    else of a record that is read again than of the record itself, but only about doubles from 2⁵³ on that are
    compared with numbers from 2⁵³ on. What is kept the second time is kept for good. -/

namespace RecordQuery

/-- The comparisons of a path with a number in the conditions of a query. -/
def Query.measured (q : Query) : List (Path × Int64) := q.flatMap fun c => (Expr.logical c.lambda.body).measured

/-! ### The conditions of a query -/

theorem Query.keeps_reread {q : Query} (hq : ∀ c ∈ q, (Expr.logical c.lambda.body).Simple) {r : Value} (hr : r.Plain)
    (hm : ∀ m ∈ q.measured, (r.walk m.1.fields).Steady m.2) : q.keeps r.reread = q.keeps r :=
  keeps_congr fun c hc => (hq c hc).holds_reread hr fun m hmc => hm m (List.mem_flatMap.mpr ⟨c, hc, hmc⟩)

/-! ### Runs on output -/

theorem Value.depth_filter_le (p : Value → Bool) (items : List Value) :
    (Value.array (items.filter p)).depth ≤ (Value.array items).depth := by
  rw [depth, depth]
  exact Nat.succ_le_succ (Json.depthItems_le fun v hv => depth_le_depthItems (List.mem_filter.mp hv).1)

theorem plain_of_parseRecords {json : String} {records : List Value} (h : parseRecords json = .ok records) :
    (∀ r ∈ records, r.Plain) ∧ (Value.array records).depth ≤ 127 := by
  rw [parseRecords] at h
  split at h
  · cases h
  · rename_i items hread
    cases h
    obtain ⟨hplain, hdepth⟩ := Json.plainTo_of_read hread
    exact ⟨Value.plain_array_iff.mp hplain, hdepth⟩
  · cases h

/-- What a query writes are values that have been read, and they can be read again. -/
theorem printed_of_processJson {text json out : String} (h : processJson text json = .ok out) :
    ∃ kept, out = (Value.array kept).toJsonPretty ∧ (∀ r ∈ kept, r.Plain) ∧ (Value.array kept).depth ≤ 127 := by
  rw [processJson] at h
  split at h
  · cases h
  · rename_i records hrecords
    obtain ⟨kept, hkept, rfl⟩ := map_eq_ok h
    obtain ⟨q, -, hfilter⟩ := filter_of_filter hkept
    obtain rfl := Except.ok.inj ((hfilter records).symm.trans hkept)
    obtain ⟨hplain, hdepth⟩ := plain_of_parseRecords hrecords
    exact ⟨_, rfl, fun r hr => hplain r (List.mem_filter.mp hr).1,
      Nat.le_trans (Value.depth_filter_le q.keeps records) hdepth⟩

section Output

variable {text : String} {q : Query} (hfilter : ∀ rs, filter text rs = .ok (rs.filter (Query.keeps q)))
include hfilter

/-- Of records that are written, those are kept that satisfy the conditions as they are read again. They are written
    as they were before. -/
theorem processJson_toJsonPretty {records : List Value} (hplain : ∀ r ∈ records, r.Plain)
    (hdepth : (Value.array records).depth ≤ 127) :
    processJson text (Value.array records).toJsonPretty =
      .ok (Value.array (records.filter fun r => q.keeps r.reread)).toJsonPretty := by
  have hkept : (Value.array (records.filter fun r => q.keeps r.reread)).Plain :=
    Value.plain_array_iff.mpr fun v hv => hplain v (List.mem_filter.mp hv).1
  have hreread := hkept.toText_reread .pretty
  rw [Value.reread, Value.rereadItems_eq_map] at hreread
  have hread : parseRecords (Value.array records).toJsonPretty = .ok (records.map Value.reread) :=
    parseRecords_toText .pretty hdepth
  rw [processJson, hread]
  simp only [process, hfilter, List.filter_map]
  exact congrArg Except.ok hreread

/-- Nothing changes exactly if nothing is dropped. -/
theorem processJson_toJsonPretty_iff {records : List Value} (hplain : ∀ r ∈ records, r.Plain)
    (hdepth : (Value.array records).depth ≤ 127) :
    processJson text (Value.array records).toJsonPretty = .ok (Value.array records).toJsonPretty ↔
      ∀ r ∈ records, q.keeps r.reread = true := by
  rw [processJson_toJsonPretty hfilter hplain hdepth]
  constructor
  · intro h
    have hdepth' := Nat.le_trans (Value.depth_filter_le (fun r => q.keeps r.reread) records) hdepth
    have htext : (Value.array (records.filter fun r => q.keeps r.reread)).toText .pretty =
        (Value.array records).toText .pretty := Except.ok.inj h
    have hread := parseRecords_toText .pretty hdepth'
    rw [htext, parseRecords_toText .pretty hdepth] at hread
    have hlen := congrArg List.length (Except.ok.inj hread)
    rw [List.length_map, List.length_map] at hlen
    exact List.length_filter_eq_length_iff.mp hlen.symm
  · intro h
    rw [List.filter_eq_self.mpr h]

/-- Nothing is dropped of what the query keeps, if each number that it compares is small or compared with a value that
    keeps its size. -/
theorem processJson_toJsonPretty_of_steady (hq : parse text = .ok q) {records : List Value}
    (hplain : ∀ r ∈ records, r.Plain) (hdepth : (Value.array records).depth ≤ 127)
    (hkeeps : ∀ r ∈ records, q.keeps r = true)
    (hsteady : ∀ r ∈ records, ∀ m ∈ q.measured, (r.walk m.1.fields).Steady m.2) :
    processJson text (Value.array records).toJsonPretty = .ok (Value.array records).toJsonPretty := by
  refine (processJson_toJsonPretty_iff hfilter hplain hdepth).mpr fun r hr => ?_
  rw [Query.keeps_reread (simple_of_parse hq) (hplain r hr) (hsteady r hr)]
  exact hkeeps r hr

end Output

/-- A query run on its own output keeps those records that satisfy it as they are read again, and once more run on
    that output it keeps them all. It keeps all of them at once if and only if they all satisfy it as they are read
    again. So they do if each number that the query compares is small or compared with a value that keeps its size;
    and if they do not, the query compares a number from 2⁵³ on with a double from 2⁵³ on that is not written exactly. -/
theorem processJson_processJson {text json out : String} (h : processJson text json = .ok out) :
    ∃ q records kept again, parse text = .ok q ∧ parseRecords json = .ok records ∧
      kept = records.filter (Query.keeps q) ∧ out = (Value.array kept).toJsonPretty ∧
      again = kept.filter (fun r => Query.keeps q r.reread) ∧
      processJson text out = .ok (Value.array again).toJsonPretty ∧
      processJson text (Value.array again).toJsonPretty = .ok (Value.array again).toJsonPretty ∧
      (processJson text out = .ok out ↔ ∀ r ∈ kept, Query.keeps q r.reread = true) ∧
      ((∀ r ∈ kept, ∀ m ∈ Query.measured q, (r.walk m.1.fields).Steady m.2) → processJson text out = .ok out) ∧
      (processJson text out ≠ .ok out → ∃ r ∈ kept, ∃ m ∈ Query.measured q,
        2 ^ 53 ≤ m.2.toInt.natAbs ∧ (r.walk m.1.fields).Altered) := by
  rw [processJson] at h
  split at h
  · cases h
  · rename_i records hrecords
    obtain ⟨kept', hkept, rfl⟩ := map_eq_ok h
    obtain ⟨q, hq, hfilter⟩ := filter_of_filter hkept
    obtain rfl := Except.ok.inj ((hfilter records).symm.trans hkept)
    obtain ⟨hplain, hdepth⟩ := plain_of_parseRecords hrecords
    have hplain' (r : Value) (hr : r ∈ records.filter q.keeps) : r.Plain := hplain r (List.mem_filter.mp hr).1
    have hdepth' := Nat.le_trans (Value.depth_filter_le q.keeps records) hdepth
    have hself := processJson_toJsonPretty_iff hfilter hplain' hdepth'
    have hstable := processJson_toJsonPretty_of_steady hfilter hq hplain' hdepth' fun r hr => (List.mem_filter.mp hr).2
    refine ⟨q, records, _, _, hq, hrecords, rfl, rfl, rfl, processJson_toJsonPretty hfilter hplain' hdepth', ?_, hself,
      hstable, fun hchanged => ?_⟩
    · refine (processJson_toJsonPretty_iff hfilter (fun r hr => hplain' r (List.mem_filter.mp hr).1) ?_).mpr ?_
      · exact Nat.le_trans (Value.depth_filter_le _ _) hdepth'
      · exact fun r hr => (List.mem_filter.mp hr).2
    · have hnot := mt hstable hchanged
      simp only [Classical.not_forall] at hnot
      obtain ⟨r, hr, m, hm, hnot⟩ := hnot
      exact ⟨r, hr, m, hm, Value.altered_of_not_steady hnot⟩

/-- A whole double is written as an integer, which the query keeps too since it compares it with a small number. -/
theorem processJson_processJson_whole :
    processJson "this.Where(x => x > 1)" "[2.0, 0.5]" = .ok "[\n  2\n]" ∧
      processJson "this.Where(x => x > 1)" "[\n  2\n]" = .ok "[\n  2\n]" := by
  have h : processJson "this.Where(x => x > 1)" "[2.0, 0.5]" = .ok "[\n  2\n]" := by decide +kernel
  have hmeasured : (parse "this.Where(x => x > 1)").map Query.measured = .ok [(⟨"x", []⟩, 1)] := by decide +kernel
  obtain ⟨q, _, _, _, hq, -, -, -, -, -, -, -, hstable, -⟩ := processJson_processJson h
  refine ⟨h, hstable fun r _ m hm => ?_⟩
  rw [hq] at hmeasured
  rw [Except.ok.inj hmeasured] at hm
  obtain rfl := List.mem_singleton.mp hm
  exact .inl (by decide)

/-- 2⁶⁰ has sixteen digits as a double. Filled up with zeros they are another integer. -/
theorem processJson_drops_output :
    processJson "this.Where(x => x == 1152921504606846976)" "[1152921504606846976.0]" =
        .ok "[\n  1152921504606847000\n]" ∧
      processJson "this.Where(x => x == 1152921504606846976)" "[\n  1152921504606847000\n]" = .ok "[]" := by
  decide +kernel

/-- The query that keeps all records writes every output as it is. -/
theorem processJson_this {text json out : String} (h : processJson text json = .ok out) :
    processJson "this" out = .ok out := by
  obtain ⟨kept, rfl, hplain, hdepth⟩ := printed_of_processJson h
  have hfilter : ∀ rs, filter "this" rs = .ok (rs.filter (Query.keeps [])) := filter_of_parse rfl nofun
  exact (processJson_toJsonPretty_iff hfilter hplain hdepth).mpr fun _ _ => rfl

/-- The first two doubles are read again as integers, one of them as another number, and the last one as itself. -/
theorem processJson_this_doubles :
    processJson "this.Where(x => x != 1)" "[-0.0, 1, 1152921504606846976.0, 1e19, \"\\u0041\"]" =
        .ok "[\n  0,\n  1152921504606847000,\n  10000000000000000000,\n  \"A\"\n]" ∧
      processJson "this" "[\n  0,\n  1152921504606847000,\n  10000000000000000000,\n  \"A\"\n]" =
        .ok "[\n  0,\n  1152921504606847000,\n  10000000000000000000,\n  \"A\"\n]" := by
  have h : processJson "this.Where(x => x != 1)" "[-0.0, 1, 1152921504606846976.0, 1e19, \"\\u0041\"]" =
      .ok "[\n  0,\n  1152921504606847000,\n  10000000000000000000,\n  \"A\"\n]" := by decide +kernel
  exact ⟨h, processJson_this h⟩

end RecordQuery
