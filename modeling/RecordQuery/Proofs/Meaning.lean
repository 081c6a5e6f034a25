import RecordQuery.Evaluation
import RecordQuery.Proofs.Basic

/-! What a tree says of a record and which faults it has, both read directly off the tree. Compiling a tree gives
    its first fault, or a predicate that says of each record what the tree says. Compiling a chain of calls gives
    the fault of the last call that has one, or the stages of the calls. -/

namespace RecordQuery

namespace Expr

/-- Induction on a condition: over the sides of connectives and comparisons, and not into lambdas and calls, which mean
    nothing there. -/
@[elab_as_elim]
theorem shape_induction {motive : Expr → Prop}
    (logical : ∀ op left right, motive left → motive right → motive (.logical ⟨op, left, right⟩))
    (comparison : ∀ op left right, motive left → motive right → motive (.comparison op left right))
    (negation : ∀ p, motive (.negation p)) (path : ∀ p, motive (.path p)) (number : ∀ n, motive (.number n))
    (string : ∀ s, motive (.string s)) (keyword : ∀ k, motive (.keyword k))
    (identifier : ∀ name, motive (.identifier name)) (empty : motive .empty) (lambda : ∀ fn, motive (.lambda fn))
    (chain : ∀ calls, motive (.chain calls)) (e : Expr) : motive e :=
  match e with
  | .logical ⟨op, left, right⟩ => logical op left right (ih left) (ih right)
  | .comparison op left right => comparison op left right (ih left) (ih right)
  | .negation p => negation p
  | .path p => path p
  | .number n => number n
  | .string s => string s
  | .keyword k => keyword k
  | .identifier name => identifier name
  | .empty => empty
  | .lambda fn => lambda fn
  | .chain calls => chain calls
where
  ih (e : Expr) : motive e :=
    shape_induction logical comparison negation path number string keyword identifier empty lambda chain e

/-- The value that a tree stands for in a record, as one side of a comparison. -/
def valueIn (r : Value) : Expr → Value
  | .path p => r.walk p.fields
  | .number n => .integer n
  | .string s => .string s
  | .keyword k => k.value
  | _ => .null

/-- Whether a tree holds of a record. -/
def holds (r : Value) : Expr → Bool
  | .logical ⟨.and, left, right⟩ => left.holds r && right.holds r
  | .logical ⟨.or, left, right⟩ => left.holds r || right.holds r
  | .comparison op left right => op.holds (left.valueIn r) (right.valueIn r)
  | .negation p => !(r.walk p.fields).isTruthy
  | e => (e.valueIn r).isTruthy

/-- The operand that a tree compiles to. -/
def toOperand : Expr → Operand
  | .path p => .fields p.fields
  | e => .constant (e.valueIn .null)

theorem resolve_toOperand (e : Expr) (r : Value) : e.toOperand.resolve r = e.valueIn r := by
  cases e <;> rfl

end Expr

/-! ### Faults -/

section Faults

variable (checks : Bool) (parameter : String)

/-- The fault of a path: its first name is checked and is not the parameter of the lambda. -/
def Path.faults (p : Path) : List EvalError :=
  if checks ∧ p.root ≠ parameter then [.unbound p.root parameter] else []

/-- The faults of a tree as one side of a comparison, which has to be a path or a literal. -/
def Expr.operandFaults : Expr → List EvalError
  | .path p => p.faults checks parameter
  | .number _ | .string _ | .keyword _ => []
  | e => [.unsupported e.kindName]

/-- The faults of a tree as a condition, from left to right. -/
def Expr.faults : Expr → List EvalError
  | .logical ⟨_, left, right⟩ => left.faults ++ right.faults
  | .comparison _ left right => left.operandFaults checks parameter ++ right.operandFaults checks parameter
  | .negation p => p.faults checks parameter
  | e => e.operandFaults checks parameter

end Faults

/-- The first of the faults, or the result if there is none. -/
def unlessFault {α : Type} (faults : List EvalError) (a : α) : Except EvalError α :=
  match faults with
  | [] => .ok a
  | e :: _ => .error e

theorem unlessFault_nil {α : Type} (a : α) : unlessFault [] a = .ok a := rfl

theorem unlessFault_eq_ok_iff {α : Type} {faults : List EvalError} {a b : α} :
    unlessFault faults a = .ok b ↔ faults = [] ∧ a = b := by
  cases faults <;> simp [unlessFault]

theorem map_unlessFault {α β : Type} (faults : List EvalError) (f : α → β) (a : α) :
    (unlessFault faults a).map f = unlessFault faults (f a) := by
  cases faults <;> rfl

namespace Evaluator

section Compiling

variable (ev : Evaluator) (x : String)

theorem path_eq (p : Path) : ev.path x p = unlessFault (p.faults ev.checksParameter x) (.fields p.fields) := by
  rw [path, Path.faults]
  split <;> rfl

theorem operand_eq (e : Expr) :
    ev.operand x e = unlessFault (e.operandFaults ev.checksParameter x) e.toOperand := by
  cases e with
  | path p => exact path_eq ev x p
  | _ => rfl

/-- A tree compiles to what it says of a record, unless it has a fault; then its first fault is reported. -/
theorem condition_eq (e : Expr) :
    ev.condition x e = unlessFault (e.faults ev.checksParameter x) fun r => e.holds r := by
  induction e using Expr.shape_induction with
  | logical op left right ihl ihr =>
    rw [condition, ihl, ihr, Expr.faults]
    cases left.faults ev.checksParameter x with
    | cons f fs => rfl
    | nil =>
      simp only [unlessFault_nil, map_unlessFault, List.nil_append]
      cases op <;> simp only [Expr.holds] <;> rfl
  | comparison op left right =>
    rw [condition, operand_eq, operand_eq, Expr.faults]
    cases left.operandFaults ev.checksParameter x with
    | cons f fs => rfl
    | nil => simp only [unlessFault_nil, map_unlessFault, List.nil_append, Expr.resolve_toOperand, Expr.holds]
  | negation p =>
    rw [condition, path_eq, map_unlessFault, Expr.faults]
    rfl
  | path p =>
    rw [condition, path_eq, map_unlessFault]
    rfl
  | _ => rfl

end Compiling

/-! ### Calls -/

variable {ev : Evaluator}

/-- The fault of a call: its method is unknown, or else the first fault of its body. -/
def fault? (ev : Evaluator) (c : Call Expr) : Option EvalError :=
  match ev.methods.get? c.method with
  | none => some (.unknownMethod c.method)
  | some _ => ((Expr.logical c.lambda.body).faults ev.checksParameter c.lambda.parameter).head?

theorem fault?_eq_none_iff {c : Call Expr} : ev.fault? c = none ↔
    (∃ m, ev.methods.get? c.method = some m) ∧
      (Expr.logical c.lambda.body).faults ev.checksParameter c.lambda.parameter = [] := by
  rw [fault?]
  cases ev.methods.get? c.method <;> simp

/-- What a call does to the records if its method is known. -/
def run (ev : Evaluator) (c : Call Expr) : Stage := fun records =>
  match ev.methods.get? c.method with
  | none => records
  | some m => m (fun r => (Expr.logical c.lambda.body).holds r) records

theorem run_eq {c : Call Expr} {m : Method} (h : ev.methods.get? c.method = some m) :
    ev.run c = m fun r => (Expr.logical c.lambda.body).holds r := by
  funext records
  rw [run, h]

theorem stage_of_fault {c : Call Expr} {e : EvalError} (h : ev.fault? c = some e) : ev.stage c = .error e := by
  cases hm : ev.methods.get? c.method with
  | none =>
    rw [fault?, hm] at h
    rw [stage, hm, Option.some.inj h]
  | some m =>
    rw [fault?, hm] at h
    obtain ⟨fs, hfs⟩ := List.head?_eq_some_iff.mp h
    rw [stage, hm, condition_eq, hfs]
    rfl

theorem stage_of_no_fault {c : Call Expr} (h : ev.fault? c = none) : ev.stage c = .ok (ev.run c) := by
  obtain ⟨⟨m, hm⟩, hbody⟩ := fault?_eq_none_iff.mp h
  rw [stage, hm, condition_eq, hbody, run_eq hm]
  rfl

/-- The calls are compiled from last to first, so the fault of the last call that has one is reported. -/
theorem stages_eq (calls : Query) :
    ev.stages calls =
      match (calls.filterMap ev.fault?).getLast? with
      | some e => .error e
      | none => .ok (calls.map ev.run) := by
  induction calls with
  | nil => rfl
  | cons c calls ih =>
    rw [stages, ih, List.filterMap_cons]
    cases hlater : (calls.filterMap ev.fault?).getLast? with
    | some e => cases ev.fault? c <;> simp [List.getLast?_cons, hlater]
    | none =>
      rw [List.getLast?_eq_none_iff] at hlater
      cases hc : ev.fault? c with
      | some e => simp [hlater, stage_of_fault hc, Except.map]
      | none => simp [hlater, stage_of_no_fault hc, Except.map]

theorem stages_of_no_fault {calls : Query} (h : ∀ c ∈ calls, ev.fault? c = none) :
    ev.stages calls = .ok (calls.map ev.run) := by
  rw [stages_eq, List.filterMap_eq_nil_iff.mpr h]
  rfl

theorem no_fault_of_stages {calls : Query} {stages : List Stage} (h : ev.stages calls = .ok stages) :
    ∀ c ∈ calls, ev.fault? c = none := by
  rw [stages_eq] at h
  split at h
  · cases h
  · rename_i hlast
    exact List.filterMap_eq_nil_iff.mp (List.getLast?_eq_none_iff.mp hlast)

/-- Stages that keep the records with a property keep those that have all of the properties. -/
theorem runStages_keep {α : Type} (f : α → Predicate) (calls : List α) (records : List Value) :
    runStages (calls.map fun c => Method.keep (f c)) records = records.filter fun r => calls.all fun c => f c r := by
  induction calls generalizing records with
  | nil => exact (List.filter_eq_self.mpr fun _ _ => rfl).symm
  | cons c calls ih =>
    have hstep : runStages ((c :: calls).map fun c => Method.keep (f c)) records =
        runStages (calls.map fun c => Method.keep (f c)) (records.filter (f c)) := rfl
    rw [hstep, ih, List.filter_filter]
    simp [Bool.and_comm]

end Evaluator

end RecordQuery
