import RecordQuery.Proofs.Paths
import RecordQuery.Proofs.Printing
import RecordQuery.Proofs.Value.Order

/-! Comparisons written the other way round. Where a literal is compared with a path, the path may be compared with the
    literal by the mirrored operator: a query says the same of all records, and it can be written if the other can. -/

namespace RecordQuery

/-- The second tree is the first one with some comparisons of a literal with a path turned around. -/
inductive Expr.Mirrored : Expr → Expr → Prop
  | refl (e : Expr) : Mirrored e e
  | comparison {op : CompareOp} {e : Expr} {p : Path} (he : e.isLiteral = true) :
      Mirrored (.comparison op e (.path p)) (.comparison op.mirror (.path p) e)
  | logical {op : LogicalOp} {left right left' right' : Expr} (hl : Mirrored left left') (hr : Mirrored right right') :
      Mirrored (.logical ⟨op, left, right⟩) (.logical ⟨op, left', right'⟩)

/-- Some comparisons in the condition are turned around. -/
structure Call.Mirrored (c c' : Call Expr) : Prop where
  method : c'.method = c.method
  parameter : c'.lambda.parameter = c.lambda.parameter
  body : (Expr.logical c.lambda.body).Mirrored (.logical c'.lambda.body)

/-! ### What is said -/

namespace Expr

theorem Mirrored.holds {e e' : Expr} (h : e.Mirrored e') (r : Value) : e'.holds r = e.holds r := by
  induction h with
  | refl e => rfl
  | @comparison op e p he =>
    rw [Expr.holds, Expr.holds]
    exact op.mirror_holds (isContainer_valueIn he r)
  | @logical op left right left' right' _ _ ihl ihr => cases op <;> rw [Expr.holds, Expr.holds, ihl, ihr]

theorem Mirrored.faults {e e' : Expr} (h : e.Mirrored e') (checks : Bool) (x : String) :
    e'.faults checks x = e.faults checks x := by
  induction h with
  | refl e => rfl
  | comparison he =>
    rw [Expr.faults, Expr.faults, operandFaults_of_isLiteral he, List.append_nil, List.nil_append]
  | logical _ _ ihl ihr => rw [Expr.faults, Expr.faults, ihl, ihr]

end Expr

namespace Evaluator

variable {ev : Evaluator}

theorem condition_mirrored {e e' : Expr} (h : e.Mirrored e') (x : String) : ev.condition x e' = ev.condition x e := by
  rw [condition_eq, condition_eq, h.faults, funext h.holds]

theorem stage_mirrored {c c' : Call Expr} (h : c.Mirrored c') : ev.stage c' = ev.stage c := by
  rw [stage, stage, h.method, h.parameter, condition_mirrored h.body]

theorem evaluate_mirrored {q q' : Query} (h : List.Forall₂ Call.Mirrored q q') (records : List Value) :
    ev.evaluate (.chain q') records = ev.evaluate (.chain q) records := by
  have hstages : ev.stages q' = ev.stages q := by
    induction h with
    | nil => rfl
    | cons hc _ ih => rw [stages, stages, ih, stage_mirrored hc]
  rw [evaluate, evaluate, hstages]

end Evaluator

/-! ### What can be written -/

theorem Literal.isLiteral_expr (l : Literal) : l.expr.isLiteral = true := by
  cases l <;> rfl

theorem Expr.Mirrored.eq_of_isLiteral {e e' : Expr} (h : e.Mirrored e') (he : e.isLiteral = true) : e' = e := by
  cases h with
  | refl => rfl
  | comparison _ | logical _ _ => cases he

theorem Expr.Mirrored.eq_of_pathFirst {op : CompareOp} {p : Path} {e e' : Expr}
    (h : (Expr.comparison op (.path p) e).Mirrored e') : e' = .comparison op (.path p) e := by
  cases h with
  | refl => rfl
  | comparison he => cases he

theorem Expr.mirrored_logical_iff {c : Condition} {e : Expr} :
    (Expr.logical c).Mirrored e ↔
      ∃ left right, e = .logical ⟨c.op, left, right⟩ ∧ c.left.Mirrored left ∧ c.right.Mirrored right := by
  constructor
  · intro h
    cases h with
    | refl => exact ⟨c.left, c.right, rfl, .refl _, .refl _⟩
    | logical hl hr => exact ⟨_, _, rfl, hl, hr⟩
  · rintro ⟨left, right, rfl, hl, hr⟩
    exact .logical hl hr

mutual

theorem Expr.IsTerm.mirrored {e e' : Expr} : e.IsTerm → e.Mirrored e' → e'.IsTerm
  | .path hp, h => by
    cases h
    exact .path hp
  | .negation hp, h => by
    cases h
    exact .negation hp
  | .literal hl, h => by
    rw [h.eq_of_isLiteral (Literal.isLiteral_expr _)]
    exact .literal hl
  | .pathFirst hp hl, h => by
    rw [h.eq_of_pathFirst]
    exact .pathFirst hp hl
  | .literalFirst hl hp, h => by
    cases h with
    | refl => exact .literalFirst hl hp
    | comparison he => exact .pathFirst hp hl
  | .group hc, h => by
    obtain ⟨left, right, rfl, hl, hr⟩ := Expr.mirrored_logical_iff.mp h
    exact .group (Condition.IsOr.mirrored hc (.logical hl hr))

theorem Condition.IsAnd.mirrored {c c' : Condition} :
    Condition.IsAnd c → (Expr.logical c).Mirrored (.logical c') → Condition.IsAnd c'
  | .mk hl hr, h => by
    obtain ⟨left, right, ⟨⟩, hleft, hright⟩ := Expr.mirrored_logical_iff.mp h
    exact .mk (Expr.IsTerm.mirrored hl hleft) (Expr.IsTerm.mirrored hr hright)

theorem Condition.IsOr.mirrored {c c' : Condition} :
    Condition.IsOr c → (Expr.logical c).Mirrored (.logical c') → Condition.IsOr c'
  | .and hc, h => .and (Condition.IsAnd.mirrored hc h)
  | .or hl hr, h => by
    obtain ⟨left, right, ⟨⟩, hleft, hright⟩ := Expr.mirrored_logical_iff.mp h
    obtain ⟨_, _, rfl, _, _⟩ := Expr.mirrored_logical_iff.mp hleft
    obtain ⟨_, _, rfl, _, _⟩ := Expr.mirrored_logical_iff.mp hright
    exact .or (Condition.IsOr.mirrored hl hleft) (Condition.IsAnd.mirrored hr hright)

end

theorem Call.Mirrored.wellFormed {c c' : Call Expr} (h : c.Mirrored c') (hc : c.WellFormed) : c'.WellFormed where
  method := h.method ▸ hc.method
  parameter := h.parameter ▸ hc.parameter
  body := hc.body.mirrored h.body

theorem wellFormed_mirrored {q q' : Query} (h : List.Forall₂ Call.Mirrored q q') (hq : ∀ c ∈ q, Call.WellFormed c) :
    ∀ c ∈ q', Call.WellFormed c := by
  induction h with
  | nil => nofun
  | cons hc _ ih =>
    obtain ⟨hhead, htail⟩ := List.forall_mem_cons.mp hq
    exact List.forall_mem_cons.mpr ⟨hc.wellFormed hhead, ih htail⟩

theorem exists_parse_mirrored {text : String} {q q' : Query} (hq : parse text = .ok q)
    (h : List.Forall₂ Call.Mirrored q q') : ∃ text', parse text' = .ok q' := by
  obtain ⟨hcalls⟩ := wellFormed_of_parse hq
  obtain ⟨text', htext⟩ := (wellFormed_iff_parse _).1.mp (.chain (wellFormed_mirrored h hcalls))
  obtain ⟨q'', hq'', ⟨⟩⟩ := map_eq_ok htext
  exact ⟨text', hq''⟩

/-! ### One order -/

/-- The operators of comparison make one order of all values. Exchanging the sides reverses it, it is transitive, and
    values that it finds equal can stand for each other; these are the equal values of the types that have an order.
    Of two values without an order neither is less or greater, nor less or equal; of two that have one, exactly one
    is less or they are equal. So in a query that can be written, literals may be moved to the right of the operators:
    it can still be written then, and whatever its methods are it makes the same of all records. -/
theorem comparison_coherent :
    (∀ v w : Value, w.order? v = (v.order? w).map Ordering.swap) ∧
      (∀ u v w : Value, u.order? v = some .lt → v.order? w = some .lt ∨ v.order? w = some .eq →
        u.order? w = some .lt) ∧
      (∀ u v w : Value, u.order? v = some .eq → u.order? w = v.order? w ∧ w.order? u = w.order? v) ∧
      (∀ v w : Value, v.order? w = some .eq ↔ v.strictEq w = true ∧ v.Comparable w) ∧
      (∀ v w : Value, v.order? w = none → ∀ op, op ≠ .equal → op ≠ .notEqual → CompareOp.holds op v w = false) ∧
      (∀ (v w : Value) o, v.order? w = some o →
        Trichotomy (CompareOp.less.holds v w) (CompareOp.equal.holds v w) (CompareOp.greater.holds v w) ∧
          CompareOp.lessEqual.holds v w = (CompareOp.less.holds v w || CompareOp.equal.holds v w) ∧
          CompareOp.greaterEqual.holds v w = (CompareOp.greater.holds v w || CompareOp.equal.holds v w)) ∧
      ∀ text q q', parse text = .ok q → List.Forall₂ Call.Mirrored q q' →
        (∃ text', parse text' = .ok q') ∧ ∀ text', parse text' = .ok q' →
          ∀ ev records, filterWith ev text' records = filterWith ev text records := by
  refine ⟨Value.order?_swap, fun _ _ _ => Value.order?_trans, fun _ _ w h => Value.order?_congr h w,
    fun _ _ => Value.order?_eq_some_eq_iff_strictEq, fun _ _ h _ => CompareOp.holds_of_order?_eq_none h,
    fun _ _ _ => CompareOp.holds_of_order?, fun text q q' hq h => ⟨exists_parse_mirrored hq h, ?_⟩⟩
  intro text' hq' ev records
  rw [filterWith, filterWith, hq, hq']
  exact congrArg (Except.mapError QueryError.eval) (Evaluator.evaluate_mirrored h records)

end RecordQuery
