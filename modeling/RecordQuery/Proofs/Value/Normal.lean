import Mathlib.Data.List.Induction
import RecordQuery.Proofs.Json.Plain
import RecordQuery.Value.Document

/-! What a document holds of a value: all of it, save for the doubles that are no numbers and for the fields whose key
    comes again. A double keeps its kind and its sign, where printing would make an integer of it. -/

namespace RecordQuery

namespace Fields

variable {β γ : Type}

theorem collect_concat (pairs : Fields β) (p : String × β) : collect (pairs ++ [p]) = put p.1 p.2 (collect pairs) := by
  rw [collect, List.foldl_append]
  rfl

/-- Collecting leaves each key where it comes first, with the value that it has last. -/
theorem collect_eq_lastValues (pairs : Fields β) : collect pairs = lastValues pairs := by
  induction pairs using List.reverseRecOn with
  | nil => rfl
  | append_singleton pairs p ih => rw [collect_concat, ih, ← lastValues_concat]

/-- Which fields are kept does not depend on what their values are. -/
theorem lastValues_map (f : β → γ) (fs : Fields β) :
    lastValues (fs.map fun p => (p.1, f p.2)) = (lastValues fs).map fun p => (p.1, f p.2) := by
  induction fs with
  | nil => rfl
  | cons p fs ih =>
    obtain ⟨key, v⟩ := p
    rw [List.map_cons, lastValues, lastValues, ih, ← List.map_reverse, lookup_map, Option.getD_map, List.map_cons,
      List.filter_map]
    rfl

theorem nodup_lastValues (fs : Fields β) : ((lastValues fs).map (·.1)).Nodup := by
  induction fs with
  | nil => exact List.nodup_nil
  | cons p fs ih =>
    refine List.nodup_cons.mpr ⟨?_, ih.sublist (List.filter_sublist.map _)⟩
    intro hkey
    obtain ⟨q, hq, heq⟩ := List.mem_map.mp hkey
    exact of_decide_eq_true (List.mem_filter.mp hq).2 heq

/-- A kept field is one of the fields. -/
theorem mem_of_mem_lastValues {fs : Fields β} {p : String × β} (h : p ∈ lastValues fs) : p ∈ fs := by
  induction fs with
  | nil => cases h
  | cons q fs ih =>
    obtain ⟨key, v⟩ := q
    rcases List.mem_cons.mp h with rfl | h
    · cases hlast : fs.reverse.lookup key with
      | none => exact List.mem_cons_self
      | some w => exact List.mem_cons_of_mem _ (List.mem_reverse.mp (mem_of_lookup hlast))
    · exact List.mem_cons_of_mem _ (ih (List.mem_filter.mp h).1)

end Fields

namespace Document

theorem toValueItems_eq_map (items : List Document) : toValueItems items = items.map toValue := by
  induction items with
  | nil => rfl
  | cons d items ih => rw [toValueItems, ih, List.map_cons]

theorem toValueFields_eq_map (fields : Fields Document) :
    toValueFields fields = fields.map fun f => (f.1, f.2.toValue) := by
  induction fields with
  | nil => rfl
  | cons f fields ih => rw [toValueFields, ih, List.map_cons]

theorem toNat_toUInt64 {n : Int64} (h : ¬n < 0) : (n.toUInt64.toNat : Int) = n.toInt := by
  have hn : 0 ≤ n.toInt := by
    have := mt Int64.lt_iff_toInt_lt.mpr h
    rw [Int64.toInt_zero] at this
    omega
  have hcond := BitVec.toInt_eq_toNat_cond n.toBitVec
  have hlt := n.toBitVec.isLt
  change (n.toBitVec.toNat : Int) = n.toBitVec.toInt
  change 0 ≤ n.toBitVec.toInt at hn
  split at hcond <;> omega

theorem Number.toValue_ofInt64 (n : Int64) : (Number.ofInt64 n).toValue = .integer n := by
  unfold Number.ofInt64
  split
  · rfl
  · rename_i hn
    rw [Number.toValue, Number.int64?, toNat_toUInt64 hn, Text.int64?_toInt]

end Document

namespace Value

theorem toDocumentItems_eq_map (items : List Value) : toDocumentItems items = items.map toDocument := by
  induction items with
  | nil => rfl
  | cons v items ih => rw [toDocumentItems, ih, List.map_cons]

theorem toDocumentFields_eq_map (fields : Fields) :
    toDocumentFields fields = fields.map fun f => (f.1, f.2.toDocument) := by
  induction fields with
  | nil => rfl
  | cons f fields ih => rw [toDocumentFields, ih, List.map_cons]

mutual

/-- The value without what a document cannot hold: a double that is no number is null, and a key that comes again is
    kept once, at its first place and with its last value. -/
def settled : Value → Value
  | .float x => if x.isFinite then .float x else .null
  | .array items => .array (settledItems items)
  | .object fields => .object (Fields.lastValues (settledFields fields))
  | v => v

@[inherit_doc settled]
def settledItems : List Value → List Value
  | [] => []
  | v :: vs => v.settled :: settledItems vs

@[inherit_doc settled]
def settledFields : List (String × Value) → List (String × Value)
  | [] => []
  | (key, v) :: fs => (key, v.settled) :: settledFields fs

end

theorem settledItems_eq_map (items : List Value) : settledItems items = items.map settled := by
  induction items with
  | nil => rfl
  | cons v items ih => rw [settledItems, ih, List.map_cons]

theorem settledFields_eq_map (fields : Fields) : settledFields fields = fields.map fun f => (f.1, f.2.settled) := by
  induction fields with
  | nil => rfl
  | cons f fields ih => rw [settledFields, ih, List.map_cons]

theorem normal_float (x : Binary64) : (Value.float x).normal = (Value.float x).settled := by
  rw [normal, toDocument, Document.Number.ofBinary64?, settled]
  cases x.isFinite <;> rfl

theorem normal_eq_settled (v : Value) : v.normal = v.settled := by
  induction v using Value.induction with
  | null => rfl
  | bool b => rfl
  | integer n => exact Document.Number.toValue_ofInt64 n
  | float x => exact normal_float x
  | string s => rfl
  | array items ih =>
    rw [normal, toDocument, Document.toValue, settled, toDocumentItems_eq_map, Document.toValueItems_eq_map, List.map_map,
      settledItems_eq_map]
    exact congrArg Value.array (List.map_congr_left ih)
  | object fields ih =>
    -- Collecting after the values have gone in and before they come back is collecting what has come back.
    rw [normal, toDocument, Document.toValue, settled, toDocumentFields_eq_map, Document.toValueFields_eq_map,
      Fields.collect_eq_lastValues, ← Fields.lastValues_map, List.map_map, settledFields_eq_map]
    exact congrArg (Value.object ∘ Fields.lastValues)
      (List.map_congr_left fun f hf => congrArg (Prod.mk f.1) (ih f hf))

theorem plain_settled (v : Value) : v.settled.Plain := by
  induction v using Value.induction with
  | null => exact .of_scalar rfl trivial
  | bool b => exact .of_scalar rfl trivial
  | integer n => exact .of_scalar rfl trivial
  | float x =>
    rw [settled]
    split
    · rename_i hx
      exact .of_scalar rfl hx
    · exact .of_scalar rfl trivial
  | string s => exact .of_scalar rfl trivial
  | array items ih =>
    rw [settled, settledItems_eq_map]
    exact plain_array_iff.mpr (List.forall_mem_map.mpr ih)
  | object fields ih =>
    rw [settled, settledFields_eq_map]
    refine plain_object_iff.mpr ⟨Fields.nodup_lastValues _, fun f hf => ?_⟩
    obtain ⟨g, hg, rfl⟩ := List.mem_map.mp (Fields.mem_of_mem_lastValues hf)
    exact ih g hg

theorem settled_of_plain {v : Value} (h : v.Plain) : v.settled = v := by
  induction v using Value.induction with
  | float x => exact if_pos h.holdable
  | array items ih =>
    have hitems (v : Value) (hv : v ∈ items) : v.settled = v := ih v hv (plain_array_iff.mp h v hv)
    rw [settled, settledItems_eq_map, List.map_congr_left hitems, List.map_id']
  | object fields ih =>
    obtain ⟨hkeys, hall⟩ := plain_object_iff.mp h
    have hfields (f : String × Value) (hf : f ∈ fields) : f.2.settled = f.2 := ih f hf (hall f hf)
    rw [settled, settledFields_eq_map, List.map_congr_left fun f hf => congrArg (Prod.mk f.1) (hfields f hf),
      List.map_id', Fields.lastValues_of_nodup hkeys]
  | _ => rfl

/-- A value that goes into a document and comes back is the value without what a document cannot hold. Going there again
    changes nothing more, and nothing at all is changed of a value whose doubles are finite and whose keys are distinct,
    at any depth, and of no other. -/
theorem document_normalises (v : Value) :
    v.toDocument.toValue = v.settled ∧ v.normal.normal = v.normal ∧ (v.normal = v ↔ v.Plain) := by
  refine ⟨normal_eq_settled v, ?_, ?_⟩
  · rw [normal_eq_settled, normal_eq_settled, settled_of_plain (plain_settled v)]
  · rw [normal_eq_settled]
    exact ⟨fun h => h ▸ plain_settled v, settled_of_plain⟩

end Value

end RecordQuery
