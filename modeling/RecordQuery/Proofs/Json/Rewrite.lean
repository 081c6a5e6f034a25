import RecordQuery.Json.Printer
import RecordQuery.Proofs.Json.Double
import RecordQuery.Proofs.Json.Plain

/-! A value that JSON can hold and the value that it is read again as: they have the same text, count as true
    or false alike, and the same fields are reached in them. What may differ is the type of a number. -/

namespace RecordQuery
open Text

namespace Value

/-- A finite double is read again as itself, or as an integer with the same numeral that is zero if the double
    is. -/
theorem reread_float {x : Binary64} (hx : x.isFinite = true) :
    (float x).reread = .float x ∨
      ∃ n, (float x).reread = .integer n ∧ numeralOfInt n.toInt = x.numeral ∧ (n = 0 ↔ x.isZero = true) := by
  obtain ⟨m, htext, hreadable, hzero, -⟩ := Binary64.exists_numeral hx
  have hsign : m.significand = 0 → m.negative = false := fun h0 => (hzero h0).1
  have hread : readInt64? x.numeral = m.integer? := by
    rw [← htext]
    exact Json.Numeral.readInt64?_text hreadable hsign
  rw [reread, if_pos hx, hread]
  cases hint : m.integer? with
  | none => exact .inl rfl
  | some n =>
    obtain ⟨-, -, hval⟩ := Json.Numeral.integer?_eq_some hint
    refine .inr ⟨n, rfl, ?_, fun h0 => ?_, fun h0 => ?_⟩
    · rw [Json.Numeral.numeralOfInt_of_integer? hreadable hsign hint, htext]
    · subst h0
      rw [Int64.toInt_zero] at hval
      refine (hzero ?_).2
      split at hval <;> omega
    · rw [Binary64.numeral, if_pos h0, hint] at hread
      exact (Option.some.inj hread).symm

theorem reread_object {fields : Fields} (h : (fields.map (·.1)).Nodup) :
    (object fields).reread = .object (fields.map fun f => (f.1, f.2.reread)) := by
  have hkeys : ((fields.map fun f => (f.1, f.2.reread)).map (·.1)).Nodup := by
    rwa [List.map_map]
  rw [reread, rereadFields_eq_map, Fields.lastValues_of_nodup hkeys]

/-! ### Texts -/

theorem renderItems_reread {layout : Json.Layout} {depth : Nat} {items : List Value}
    (h : ∀ v ∈ items, Json.render layout depth v.reread = Json.render layout depth v) :
    Json.renderItems layout depth (items.map reread) = Json.renderItems layout depth items := by
  induction items with
  | nil => rfl
  | cons v items ih =>
    obtain ⟨hv, hitems⟩ := List.forall_mem_cons.mp h
    rw [List.map_cons, Json.renderItems, Json.renderItems, hv, ih hitems]

theorem renderFields_reread {layout : Json.Layout} {depth : Nat} {fields : Fields}
    (h : ∀ f ∈ fields, Json.render layout depth f.2.reread = Json.render layout depth f.2) :
    Json.renderFields layout depth (fields.map fun f => (f.1, f.2.reread)) = Json.renderFields layout depth fields := by
  induction fields with
  | nil => rfl
  | cons f fields ih =>
    obtain ⟨hf, hfields⟩ := List.forall_mem_cons.mp h
    rw [List.map_cons, Json.renderFields, Json.renderFields, hf, ih hfields]

theorem Plain.render_reread {v : Value} (h : v.Plain) (layout : Json.Layout) (depth : Nat) :
    Json.render layout depth v.reread = Json.render layout depth v := by
  induction v using Value.induction generalizing depth with
  | null => rfl
  | bool b => rfl
  | integer n => rfl
  | string s => rfl
  | float x =>
    have hx : x.isFinite = true := h.holdable
    rcases reread_float hx with hx' | ⟨n, hx', htext, -⟩
    · rw [hx']
    · rw [hx', Json.render, Json.render, if_pos hx, htext]
  | array items ih =>
    have hitems (v : Value) (hv : v ∈ items) := ih v hv (plain_array_iff.mp h v hv)
    rw [reread, rereadItems_eq_map]
    cases items with
    | nil => rfl
    | cons v items =>
      obtain ⟨hv, hitems⟩ := List.forall_mem_cons.mp hitems
      rw [List.map_cons, Json.render, Json.render, hv, renderItems_reread fun w hw => hitems w hw (depth + 1)]
  | object fields ih =>
    obtain ⟨hkeys, hall⟩ := plain_object_iff.mp h
    have hfields (f : String × Value) (hf : f ∈ fields) := ih f hf (hall f hf)
    rw [reread_object hkeys]
    cases fields with
    | nil => rfl
    | cons f fields =>
      obtain ⟨hf, hfields⟩ := List.forall_mem_cons.mp hfields
      rw [List.map_cons, Json.render, Json.render, hf, renderFields_reread fun g hg => hfields g hg (depth + 1)]

theorem Plain.toText_reread {v : Value} (h : v.Plain) (layout : Json.Layout) :
    v.reread.toText layout = v.toText layout := by
  rw [toText, toText, h.render_reread]

/-! ### Truth values and fields -/

theorem Plain.isTruthy_reread {v : Value} (h : v.Plain) : v.reread.isTruthy = v.isTruthy := by
  cases v with
  | null | bool b | integer n | string s | array _ | object _ => rfl
  | float x =>
    have hx : x.isFinite = true := h.holdable
    rcases reread_float hx with hx' | ⟨n, hx', -, hzero⟩
    · rw [hx']
    · rw [hx', isTruthy, isTruthy, Binary64.isNaN_of_isFinite hx, Bool.not_false, Bool.and_true, bne,
        Bool.not_inj_iff, Bool.eq_iff_iff, beq_iff_eq]
      exact hzero

theorem Plain.get?_reread {v : Value} (h : v.Plain) (key : String) : v.reread.get? key = (v.get? key).map reread := by
  cases v with
  | null | bool b | integer n | string s | array _ => rfl
  | float x =>
    rcases reread_float h.holdable with hx' | ⟨n, hx', -⟩
    · rw [hx']
      rfl
    · rw [hx']
      rfl
  | object fields =>
    rw [reread_object h.holdable]
    exact Fields.lookup_map key reread fields

/-- What is reached through fields is read again as what is reached in the value that is read again. -/
theorem Plain.walk_reread {v : Value} (h : v.Plain) (keys : List String) :
    v.reread.walk keys = (v.walk keys).reread := by
  induction keys generalizing v with
  | nil => rfl
  | cons key keys ih =>
    rw [Value.walk, Value.walk, h.get?_reread]
    cases hw : v.get? key with
    | none => rfl
    | some w => exact ih (Everywhere.get? h hw)

end Value

end RecordQuery
