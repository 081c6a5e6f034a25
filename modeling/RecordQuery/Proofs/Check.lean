import RecordQuery.Check
import RecordQuery.Proofs.Basic

/-! A check runs a query on records as the library does. The check parses the query before it reads the records, and
    the library reads the records first. So they differ in nothing but which fault they report if both have one. -/

namespace RecordQuery

/-! ### Kept records -/

/-- The records that a query keeps of those in a JSON text, before they are written. -/
def keptRecords (text json : String) : Except QueryError (List Value) :=
  match parseRecords json with
  | .error e => .error e
  | .ok records => filter text records

theorem processJson_eq_map (text json : String) :
    processJson text json = (keptRecords text json).map fun kept => (Value.array kept).toJsonPretty := by
  rw [processJson, keptRecords]
  cases parseRecords json <;> rfl

theorem keptRecords_eq_ok_iff {text json : String} {kept : List Value} :
    keptRecords text json = .ok kept ↔ ∃ records, parseRecords json = .ok records ∧ filter text records = .ok kept := by
  rw [keptRecords]
  cases parseRecords json <;> simp

theorem keptRecords_of_parse_error {text json : String} {records : List Value} {e : QueryError}
    (hq : parse text = .error e) (hr : parseRecords json = .ok records) : keptRecords text json = .error e := by
  rw [keptRecords, hr]
  simp only [filter, filterWith, hq]

theorem lex_or_parse_of_error {text : String} {e : QueryError} (h : parse text = .error e) :
    (∃ l, e = .lex l) ∨ ∃ p, e = .parse p := by
  rw [parse, parseWith] at h
  split at h
  · exact .inl ⟨_, (Except.error.inj h).symm⟩
  · obtain ⟨p, -, rfl⟩ := mapError_eq_error h
    exact .inr ⟨p, rfl⟩

/-- A text that is no query and a text that is no records have different errors. -/
theorem error_ne_error {text json : String} {e e' : QueryError} (hq : parse text = .error e)
    (hr : parseRecords json = .error e') : e ≠ e' := by
  rintro rfl
  rw [parseRecords] at hr
  rcases lex_or_parse_of_error hq with ⟨l, rfl⟩ | ⟨p, rfl⟩
  · split at hr <;> cases hr
  · split at hr <;> cases hr

namespace Check

/-! ### Runs -/

theorem run_of_parse_error {text : String} {e : QueryError} (hq : parse text = .error e) (input : Option String)
    (compact : Bool) : (Check.mk text input compact false false).run = .error (.query e) := by
  rw [run, if_neg Bool.false_ne_true]
  simp only [hq]

/-- What is written of the kept records. -/
def printed (compact : Bool) (kept : List Value) : Outcome :=
  .output (if compact then (Value.array kept).toJson else (Value.array kept).toJsonPretty)

theorem run_of_parse {text : String} {q : Query} (hq : parse text = .ok q) (json : String) (compact : Bool) :
    (Check.mk text (some json) compact false false).run =
      ((keptRecords text json).map (printed compact)).mapError .query := by
  rw [run, if_neg Bool.false_ne_true, keptRecords]
  simp only [hq]
  cases parseRecords json with
  | error e => rfl
  | ok records =>
    simp only [filter, filterWith, hq]
    cases Evaluator.standard.evaluate (.chain q) records with
    | error e => rfl
    | ok kept => cases compact <;> rfl

/-- If either the query or the records can be read, a check does what the library does. -/
theorem run_eq {text json : String} (h : ∀ e e', parse text = .error e → parseRecords json ≠ .error e')
    (compact : Bool) :
    (Check.mk text (some json) compact false false).run =
      ((keptRecords text json).map (printed compact)).mapError .query := by
  cases hq : parse text with
  | ok q => exact run_of_parse hq json compact
  | error e =>
    cases hr : parseRecords json with
    | error e' => exact absurd hr (h e e' hq)
    | ok records =>
      rw [run_of_parse_error hq, keptRecords_of_parse_error hq hr]
      rfl

theorem run_eq_ok_iff {text json : String} {compact : Bool} {o : Outcome} :
    (Check.mk text (some json) compact false false).run = .ok o ↔
      ∃ kept, keptRecords text json = .ok kept ∧ o = printed compact kept := by
  constructor
  · intro h
    cases hq : parse text with
    | error e =>
      rw [run_of_parse_error hq] at h
      cases h
    | ok q =>
      rw [run_of_parse hq] at h
      cases hk : keptRecords text json with
      | error e =>
        rw [hk] at h
        cases h
      | ok kept =>
        rw [hk] at h
        exact ⟨kept, rfl, (Except.ok.inj h).symm⟩
  · rintro ⟨kept, hk, rfl⟩
    obtain ⟨records, hr, -⟩ := keptRecords_eq_ok_iff.mp hk
    have hread (e e' : QueryError) (_ : parse text = .error e) : parseRecords json ≠ .error e' := by
      rw [hr]
      nofun
    rw [run_eq hread, hk]
    rfl

theorem run_eq_error_iff {text json : String} (h : ∀ e e', parse text = .error e → parseRecords json ≠ .error e')
    {compact : Bool} {e : CommandError} :
    (Check.mk text (some json) compact false false).run = .error e ↔
      ∃ e', e = .query e' ∧ processJson text json = .error e' := by
  rw [run_eq h, processJson_eq_map]
  cases keptRecords text json with
  | error e' => simp [Except.map, mapError_error, eq_comm]
  | ok kept => simp [Except.map, mapError_ok]

/-- Only a run looks at the records. -/
theorem run_eq_of_flag {text : String} {compact validateOnly showTree : Bool} (h : (validateOnly || showTree) = true)
    (input input' : Option String) :
    (Check.mk text input compact validateOnly showTree).run =
      (Check.mk text input' compact validateOnly showTree).run := by
  rw [run, run]
  split
  · rfl
  · rename_i hv
    rw [Bool.or_eq_true, or_iff_right hv] at h
    simp only [h, if_true]

/-- A check on records gives what the library writes, or the same records on a single line. If they fail, they fail
    with the same error, but if neither the query nor the records can be read, then the check reports the query and the
    library the records. A check that does not run the query does not depend on the records. -/
theorem run_iff_processJson (text json : String) :
    (∀ t, (Check.mk text (some json) false false false).run = .ok (.output t) ↔ processJson text json = .ok t) ∧
      (∀ compact o, (Check.mk text (some json) compact false false).run = .ok o ↔
        ∃ records kept, parseRecords json = .ok records ∧ filter text records = .ok kept ∧
          o = .output (if compact then (Value.array kept).toJson else (Value.array kept).toJsonPretty)) ∧
      (∀ compact e, (∀ e₁ e₂, parse text = .error e₁ → parseRecords json ≠ .error e₂) →
        ((Check.mk text (some json) compact false false).run = .error e ↔
          ∃ e', e = .query e' ∧ processJson text json = .error e')) ∧
      (∀ compact e₁ e₂, parse text = .error e₁ → parseRecords json = .error e₂ →
        (Check.mk text (some json) compact false false).run = .error (.query e₁) ∧
          processJson text json = .error e₂ ∧ e₁ ≠ e₂) ∧
      ∀ input input' compact validateOnly showTree, (validateOnly || showTree) = true →
        (Check.mk text input compact validateOnly showTree).run =
          (Check.mk text input' compact validateOnly showTree).run := by
  refine ⟨fun t => ?_, fun compact o => ?_, fun compact e h => run_eq_error_iff h, fun compact e₁ e₂ hq hr => ?_,
    fun input input' compact validateOnly showTree h => run_eq_of_flag h input input'⟩
  · rw [run_eq_ok_iff, processJson_eq_map]
    cases keptRecords text json <;> simp [printed, Except.map, eq_comm]
  · simp only [run_eq_ok_iff, keptRecords_eq_ok_iff, printed]
    exact ⟨fun ⟨kept, ⟨records, hr, hk⟩, ho⟩ => ⟨records, kept, hr, hk, ho⟩,
      fun ⟨records, kept, hr, hk, ho⟩ => ⟨kept, ⟨records, hr, hk⟩, ho⟩⟩
  · refine ⟨run_of_parse_error hq (some json) compact, ?_, error_ne_error hq hr⟩
    rw [processJson, hr]

/-- A character that starts no token, and no array. -/
theorem run_iff_processJson_unread :
    (Check.mk "#" (some "true") true false false).run = .error (.query (.lex ⟨0, '#'⟩)) ∧
      processJson "#" "true" = .error (.notArray "boolean") := by
  have hq : parse "#" = .error (.lex ⟨0, '#'⟩) := rfl
  have hr : parseRecords "true" = .error (.notArray "boolean") := rfl
  obtain ⟨-, -, -, hunread, -⟩ := run_iff_processJson "#" "true"
  obtain ⟨hrun, hlib, -⟩ := hunread true _ _ hq hr
  exact ⟨hrun, hlib⟩

end Check

end RecordQuery
