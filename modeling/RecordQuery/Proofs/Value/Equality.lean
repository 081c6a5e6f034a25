import Mathlib.Data.List.Forall2
import RecordQuery.Proofs.Meaning
import RecordQuery.Proofs.Value.Atom

/-! Equality of values with all that is in them. It is transitive. -/

namespace RecordQuery.Value

/-! ### Parts of values that are equal -/

/-- Two values are equal. -/
def Equal (v w : Value) : Prop := v.strictEq w = true

theorem strictEqItems_iff {as bs : List Value} : strictEqItems as bs = true ↔ List.Forall₂ Equal as bs := by
  induction as generalizing bs with
  | nil => cases bs <;> simp [strictEqItems]
  | cons a as ih =>
    cases bs with
    | nil => simp [strictEqItems]
    | cons b bs =>
      rw [strictEqItems, Bool.and_eq_true, ih, List.forall₂_cons]
      rfl

theorem strictEqFields_iff {fs gs : List (String × Value)} :
    strictEqFields fs gs = true ↔ ∀ f ∈ fs, ∃ w, gs.lookup f.1 = some w ∧ f.2.Equal w := by
  induction fs with
  | nil => simp [strictEqFields]
  | cons f fs ih =>
    obtain ⟨key, v⟩ := f
    rw [strictEqFields, Bool.and_eq_true, ih, List.forall_mem_cons]
    refine and_congr_left fun _ => ?_
    cases gs.lookup key with
    | none => simp
    | some w => simp [Equal]

theorem equal_array_iff {as : List Value} {w : Value} :
    (array as).Equal w ↔ ∃ bs, w = .array bs ∧ List.Forall₂ Equal as bs := by
  cases w with
  | array bs => simp [Equal, strictEq, strictEqItems_iff]
  | _ => simp [Equal, strictEq]

/-- Every field of an object is equal to the first field of its key in an equal object, which has no other keys and
    as many fields. -/
theorem equal_object_iff {fs : List (String × Value)} {w : Value} :
    (object fs).Equal w ↔ ∃ gs, w = .object gs ∧ fs.length = gs.length ∧
      (∀ f ∈ fs, ∃ w, gs.lookup f.1 = some w ∧ f.2.Equal w) ∧ ∀ g ∈ gs, ∃ v, fs.lookup g.1 = some v := by
  cases w with
  | object gs => simp [Equal, strictEq, strictEqFields_iff, Option.isSome_iff_exists, and_assoc]
  | _ => simp [Equal, strictEq]

/-! ### Chains of equal values -/

theorem forall₂_imp_of_mem {α : Type} {R S : α → α → Prop} {as bs : List α}
    (h : ∀ a ∈ as, ∀ b ∈ bs, R a b → S a b) (hab : List.Forall₂ R as bs) : List.Forall₂ S as bs := by
  obtain ⟨hlen, hzip⟩ := List.forall₂_iff_zip.mp hab
  refine List.forall₂_iff_zip.mpr ⟨hlen, fun {a b} hmem => ?_⟩
  obtain ⟨ha, hb⟩ := List.of_mem_zip hmem
  exact h a ha b hb (hzip hmem)

theorem forall_mem_of_forall₂ {α : Type} {R : α → α → Prop} {P : α → Prop} {as bs : List α}
    (h : ∀ a ∈ as, ∀ b ∈ bs, R a b → P a) (hab : List.Forall₂ R as bs) : ∀ a ∈ as, P a := by
  have hboth : List.Forall₂ (fun a b => P a ∧ R a b) as bs :=
    forall₂_imp_of_mem (fun a ha b hb hr => ⟨h a ha b hb hr, hr⟩) hab
  exact ((List.forall₂_and_left as bs).mp hboth).1

theorem forall₂_trans {α : Type} {R : α → α → Prop} {as bs cs : List α}
    (h : ∀ a ∈ as, ∀ b c, R a b → R b c → R a c) (hab : List.Forall₂ R as bs) (hbc : List.Forall₂ R bs cs) :
    List.Forall₂ R as cs := by
  induction hab generalizing cs with
  | nil => exact hbc
  | cons hr _ ih =>
    cases hbc with
    | cons hs hbc =>
      exact .cons (h _ List.mem_cons_self _ _ hr hs) (ih (fun a ha => h a (List.mem_cons_of_mem _ ha)) hbc)

theorem Equal.trans {u v w : Value} (huv : u.Equal v) (hvw : v.Equal w) : u.Equal w := by
  induction u using nestedInduction generalizing v w with
  | scalar u hu =>
    obtain ⟨a, ha, hv⟩ := (strictEq_iff_of_scalar hu).mp huv
    obtain ⟨b, hb, hw⟩ := (strictEq_iff_of_scalar (isContainer_of_atom? hv)).mp hvw
    exact (strictEq_iff_of_scalar hu).mpr ⟨a, ha, hw.trans (hb.symm.trans hv)⟩
  | array as ih =>
    obtain ⟨bs, rfl, hab⟩ := equal_array_iff.mp huv
    obtain ⟨cs, rfl, hbc⟩ := equal_array_iff.mp hvw
    exact equal_array_iff.mpr ⟨cs, rfl, forall₂_trans (fun a ha b c => ih a ha) hab hbc⟩
  | object fs ih =>
    obtain ⟨gs, rfl, hlen, hfields, hkeys⟩ := equal_object_iff.mp huv
    obtain ⟨hs, rfl, hlen', hfields', hkeys'⟩ := equal_object_iff.mp hvw
    refine equal_object_iff.mpr ⟨hs, rfl, hlen.trans hlen', fun f hf => ?_, fun h hh => ?_⟩
    · obtain ⟨v, hv, hfv⟩ := hfields f hf
      obtain ⟨w, hw, hvw⟩ := hfields' _ (mem_of_lookup hv)
      exact ⟨w, hw, ih f hf hfv hvw⟩
    · obtain ⟨v, hv⟩ := hkeys' h hh
      exact hkeys (h.1, v) (mem_of_lookup hv)

/-! ### Exchanging the sides -/

/-- A value that is equal to itself is equal to every value that is equal to it. -/
theorem Equal.symm_of_self {u v : Value} (huv : u.Equal v) (hvv : v.Equal v) : v.Equal u := by
  induction u using nestedInduction generalizing v with
  | scalar u hu => exact (strictEq_comm_of_scalar hu v).trans huv
  | array as ih =>
    obtain ⟨bs, rfl, hab⟩ := equal_array_iff.mp huv
    obtain ⟨_, ⟨⟩, hbb⟩ := equal_array_iff.mp hvv
    have hself := List.forall₂_same.mp hbb
    have hba := forall₂_imp_of_mem (fun a ha b hb h => ih a ha h (hself b hb)) hab
    exact equal_array_iff.mpr ⟨as, rfl, hba.flip⟩
  | object fs ih =>
    obtain ⟨gs, rfl, hlen, hfields, hkeys⟩ := equal_object_iff.mp huv
    obtain ⟨_, ⟨⟩, -, hself, -⟩ := equal_object_iff.mp hvv
    refine equal_object_iff.mpr ⟨fs, rfl, hlen.symm, fun g hg => ?_, fun f hf => ?_⟩
    · -- the field is equal to the first one of its key, which is equal to that of the other object
      obtain ⟨w, hw, hgw⟩ := hself g hg
      obtain ⟨v, hv⟩ := hkeys g hg
      obtain ⟨w', hw', hvw⟩ := hfields _ (mem_of_lookup hv)
      obtain rfl : w = w' := Option.some.inj (hw.symm.trans hw')
      obtain ⟨w', hw', hww⟩ := hself _ (mem_of_lookup hw)
      obtain rfl : w = w' := Option.some.inj (hw.symm.trans hw')
      exact ⟨v, hv, hgw.trans (ih _ (mem_of_lookup hv) hvw hww)⟩
    · obtain ⟨w, hw, -⟩ := hfields f hf
      exact ⟨w, hw⟩

/-- Two values are equal both ways or neither, unless one of them is equal to the other and the other is not equal to
    itself. -/
theorem strictEq_comm_iff_self (v w : Value) :
    v.strictEq w = w.strictEq v ↔ (v.Equal w → w.Equal w) ∧ (w.Equal v → v.Equal v) := by
  rw [Bool.eq_iff_iff]
  change (v.Equal w ↔ w.Equal v) ↔ _
  constructor
  · intro h
    exact ⟨fun hvw => (h.mp hvw).trans hvw, fun hwv => (h.mpr hwv).trans hwv⟩
  · rintro ⟨hw, hv⟩
    exact ⟨fun hvw => hvw.symm_of_self (hw hvw), fun hwv => hwv.symm_of_self (hv hwv)⟩

/-- Where no key comes twice, a value that another one is equal to is equal to itself. -/
theorem Equal.self_of_distinctKeys {v w : Value} (h : v.Equal w) (hw : w.DistinctKeys) : w.Equal w := by
  induction v using nestedInduction generalizing w with
  | scalar v hv =>
    obtain ⟨a, -, ha⟩ := (strictEq_iff_of_scalar hv).mp h
    exact strictEq_of_atom? ha ha
  | array as ih =>
    obtain ⟨bs, rfl, hab⟩ := equal_array_iff.mp h
    have hkeys := distinctKeys_array_iff.mp hw
    have hself : ∀ b ∈ bs, b.Equal b :=
      forall_mem_of_forall₂ (R := fun b a => a.Equal b) (fun b hb a ha hab => ih a ha hab (hkeys b hb)) hab.flip
    exact equal_array_iff.mpr ⟨bs, rfl, List.forall₂_same.mpr hself⟩
  | object fs ih =>
    obtain ⟨gs, rfl, -, hfields, hkeys⟩ := equal_object_iff.mp h
    obtain ⟨hnodup, hdistinct⟩ := distinctKeys_object_iff.mp hw
    refine equal_object_iff.mpr ⟨gs, rfl, rfl, fun g hg => ?_, fun g hg => exists_lookup_of_mem hg⟩
    obtain ⟨v, hv⟩ := hkeys g hg
    obtain ⟨w, hw, hvw⟩ := hfields _ (mem_of_lookup hv)
    obtain rfl : g.2 = w := Option.some.inj ((lookup_of_nodup hnodup hg).symm.trans hw)
    exact ⟨g.2, hw, ih _ (mem_of_lookup hv) hvw (hdistinct g hg)⟩

/-- Where no key comes twice, the sides may be exchanged. -/
theorem strictEq_comm_of_distinctKeys {v w : Value} (hv : v.DistinctKeys) (hw : w.DistinctKeys) :
    v.strictEq w = w.strictEq v :=
  (strictEq_comm_iff_self v w).mpr ⟨fun h => h.self_of_distinctKeys hw, fun h => h.self_of_distinctKeys hv⟩

/-! ### Comparisons of two paths -/

theorem holds_comm {op : CompareOp} (hop : op = .equal ∨ op = .notEqual) (v w : Value) :
    op.holds v w = op.holds w v ↔ v.strictEq w = w.strictEq v := by
  rcases hop with rfl | rfl
  · rfl
  · exact Bool.not_inj_iff

/-- Two values are equal in both directions or in neither, unless one of them is equal to the other and the other is
    not equal to itself; and that can be only if a key comes twice in an object. So it is with a test of two paths for
    equality or for its opposite: with its sides exchanged it compiles as before, and says the same of a record
    if and only if the equality of the values that the paths lead to does. -/
theorem strictEq_comm_iff (v w : Value) :
    (v.strictEq w = w.strictEq v ↔
        (v.strictEq w = true → w.strictEq w = true) ∧ (w.strictEq v = true → v.strictEq v = true)) ∧
      (v.DistinctKeys → w.DistinctKeys → v.strictEq w = w.strictEq v) ∧
      ∀ (ev : Evaluator) parameter op p q f, op = .equal ∨ op = .notEqual →
        ev.condition parameter (.comparison op (.path p) (.path q)) = .ok f →
        ∃ g, ev.condition parameter (.comparison op (.path q) (.path p)) = .ok g ∧ ∀ record : Value,
          (f record = g record ↔ (record.walk p.fields).strictEq (record.walk q.fields) =
            (record.walk q.fields).strictEq (record.walk p.fields)) ∧
          (record.DistinctKeys → f record = g record) := by
  refine ⟨strictEq_comm_iff_self v w, strictEq_comm_of_distinctKeys, fun ev parameter op p q f hop hf => ?_⟩
  rw [Evaluator.condition_eq, unlessFault_eq_ok_iff, Expr.faults] at hf
  obtain ⟨hfaults, rfl⟩ := hf
  obtain ⟨hp, hq⟩ := List.append_eq_nil_iff.mp hfaults
  refine ⟨fun r => (Expr.comparison op (.path q) (.path p)).holds r, ?_, fun record => ?_⟩
  · rw [Evaluator.condition_eq, unlessFault_eq_ok_iff, Expr.faults]
    exact ⟨List.append_eq_nil_iff.mpr ⟨hq, hp⟩, rfl⟩
  · have hverdict := holds_comm hop (record.walk p.fields) (record.walk q.fields)
    exact ⟨hverdict, fun hrecord =>
      hverdict.mpr (strictEq_comm_of_distinctKeys (hrecord.walk _) (hrecord.walk _))⟩

/-- Both fields of the first object are equal to the first field of the second one, but not the other way round. -/
theorem strictEq_repeated_key :
    (object [("x", .integer 1), ("x", .integer 1)]).strictEq (.object [("x", .integer 1), ("x", .integer 2)]) = true ∧
      (object [("x", .integer 1), ("x", .integer 2)]).strictEq (.object [("x", .integer 1), ("x", .integer 1)]) =
        false := by
  decide +kernel

end RecordQuery.Value
