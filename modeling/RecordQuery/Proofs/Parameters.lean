import Mathlib.Data.List.Forall2
import RecordQuery.Proofs.Faults
import RecordQuery.Proofs.Paths

/-! The check of parameters. Without it no name of a record has a part in an evaluation. With it a chain of calls that
    runs otherwise runs if every path starts with the parameter of its own lambda, to the same records, and it ends at
    a path that does not. -/

namespace RecordQuery

/-! ### Names of records -/

/-- The path without its first name. -/
def Path.nameless (p : Path) : Path := { p with root := "" }

mutual

/-- The tree without names of records: without the parameters of lambdas and the first names of paths. -/
def Expr.nameless : Expr → Expr
  | .path p => .path p.nameless
  | .negation p => .negation p.nameless
  | .comparison op left right => .comparison op left.nameless right.nameless
  | .logical ⟨op, left, right⟩ => .logical ⟨op, left.nameless, right.nameless⟩
  | .lambda ⟨_, ⟨op, left, right⟩⟩ => .lambda ⟨"", ⟨op, left.nameless, right.nameless⟩⟩
  | .chain calls => .chain (namelessCalls calls)
  | e => e

def Expr.namelessCalls : List (Call Expr) → List (Call Expr)
  | [] => []
  | ⟨method, ⟨_, ⟨op, left, right⟩⟩⟩ :: calls =>
    ⟨method, ⟨"", ⟨op, left.nameless, right.nameless⟩⟩⟩ :: namelessCalls calls

end

/-- The call without names of records. -/
def Call.nameless (c : Call Expr) : Call Expr :=
  ⟨c.method, ⟨"", ⟨c.lambda.body.op, c.lambda.body.left.nameless, c.lambda.body.right.nameless⟩⟩⟩

theorem Expr.namelessCalls_eq_map (calls : List (Call Expr)) : namelessCalls calls = calls.map Call.nameless := by
  induction calls with
  | nil => rfl
  | cons c calls ih => rw [namelessCalls, ih, List.map_cons, Call.nameless]

/-- The path with `y` for its first name, if that is `x`. -/
def Path.rename (x y : String) (p : Path) : Path := if p.root = x then { p with root := y } else p

/-- The condition with `y` for the first name of each path that starts with `x`. -/
def Expr.rename (x y : String) : Expr → Expr
  | .path p => .path (p.rename x y)
  | .negation p => .negation (p.rename x y)
  | .comparison op left right => .comparison op (left.rename x y) (right.rename x y)
  | .logical ⟨op, left, right⟩ => .logical ⟨op, left.rename x y, right.rename x y⟩
  | e => e

namespace Call

/-- The call with `y` for its parameter, and for the first name of each path of its body that starts with that. -/
def rename (y : String) (c : Call Expr) : Call Expr :=
  let x := c.lambda.parameter
  ⟨c.method, ⟨y, ⟨c.lambda.body.op, c.lambda.body.left.rename x y, c.lambda.body.right.rename x y⟩⟩⟩

def paths (c : Call Expr) : List Path := (Expr.logical c.lambda.body).paths

/-- Every path in the body starts with the parameter. -/
def Bound (c : Call Expr) : Prop := ∀ p ∈ c.paths, p.root = c.lambda.parameter

/-- The first path in the body that does not start with the parameter. -/
def unbound? (c : Call Expr) : Option Path := c.paths.find? fun p => p.root ≠ c.lambda.parameter

theorem unbound?_eq_none_iff {c : Call Expr} : c.unbound? = none ↔ c.Bound := by
  rw [unbound?, List.find?_eq_none]
  exact forall₂_congr fun p _ => by rw [decide_eq_true_iff, not_not]

end Call

/-! ### Without the check -/

namespace Expr

theorem valueIn_nameless (e : Expr) (r : Value) : e.nameless.valueIn r = e.valueIn r := by
  cases e <;> rfl

theorem operandFaults_nameless (e : Expr) (x y : String) :
    e.nameless.operandFaults false y = e.operandFaults false x := by
  cases e with
  | chain calls => cases calls <;> rfl
  | _ => rfl

theorem holds_nameless (e : Expr) (r : Value) : e.nameless.holds r = e.holds r := by
  induction e using shape_induction with
  | logical op left right ihl ihr => cases op <;> rw [nameless, holds, holds, ihl, ihr]
  | comparison op left right => rw [nameless, holds, holds, valueIn_nameless, valueIn_nameless]
  | _ => rfl

theorem faults_nameless (e : Expr) (x y : String) : e.nameless.faults false y = e.faults false x := by
  induction e using shape_induction with
  | logical op left right ihl ihr => rw [nameless, faults, faults, ihl, ihr]
  | comparison op left right =>
    rw [nameless, faults, faults, operandFaults_nameless left x, operandFaults_nameless right x]
  | chain calls => exact operandFaults_nameless (.chain calls) x y
  | _ => rfl

end Expr

namespace Evaluator

variable {ms : Methods}

theorem condition_nameless (ms : Methods) (e : Expr) (x y : String) :
    (mk ms false).condition y e.nameless = (mk ms false).condition x e := by
  rw [condition_eq, condition_eq, e.faults_nameless x y, funext e.holds_nameless]

theorem stage_nameless (c : Call Expr) : (mk ms false).stage c.nameless = (mk ms false).stage c := by
  have hbody := condition_nameless ms (.logical c.lambda.body) c.lambda.parameter ""
  rw [Expr.nameless] at hbody
  rw [Call.nameless, stage, stage, hbody]

theorem stages_nameless (calls : Query) :
    (mk ms false).stages (calls.map Call.nameless) = (mk ms false).stages calls := by
  induction calls with
  | nil => rfl
  | cons c calls ih => rw [List.map_cons, stages, stages, ih, stage_nameless]

theorem evaluate_nameless (e : Expr) (records : List Value) :
    (mk ms false).evaluate e.nameless records = (mk ms false).evaluate e records := by
  cases e with
  | chain calls => rw [Expr.nameless, Expr.namelessCalls_eq_map, evaluate, evaluate, stages_nameless]
  | _ => rfl

end Evaluator

/-! ### With the check -/

theorem Path.faults_checked (p : Path) (x : String) :
    p.faults true x = ([p].filter (·.root ≠ x)).map fun q => .unbound q.root x := by
  by_cases h : p.root = x <;> simp [faults, h]

namespace Expr

theorem operandFaults_of_checked {e : Expr} {x : String} (h : e.operandFaults true x = []) :
    e.operandFaults false x = [] := by
  cases e with
  | path p => rfl
  | _ => exact h

theorem faults_of_checked {e : Expr} {x : String} (h : e.faults true x = []) : e.faults false x = [] := by
  induction e using shape_induction with
  | logical op left right ihl ihr =>
    rw [faults, List.append_eq_nil_iff] at h ⊢
    exact ⟨ihl h.1, ihr h.2⟩
  | comparison op left right =>
    rw [faults, List.append_eq_nil_iff] at h ⊢
    exact ⟨operandFaults_of_checked h.1, operandFaults_of_checked h.2⟩
  | negation p | path p => rfl
  | _ => exact h

theorem operandFaults_checked {e : Expr} {x : String} (h : e.operandFaults false x = []) :
    e.operandFaults true x = (e.paths.filter (·.root ≠ x)).map fun p => .unbound p.root x := by
  cases e with
  | path p => exact p.faults_checked x
  | number _ | string _ | keyword _ => rfl
  | _ => cases h

/-- A tree without faults of its own has with the check the faults of its paths. -/
theorem faults_checked {e : Expr} {x : String} (h : e.faults false x = []) :
    e.faults true x = (e.paths.filter (·.root ≠ x)).map fun p => .unbound p.root x := by
  induction e using shape_induction with
  | logical op left right ihl ihr =>
    rw [faults, List.append_eq_nil_iff] at h
    rw [faults, paths, List.filter_append, List.map_append, ihl h.1, ihr h.2]
  | comparison op left right =>
    rw [faults, List.append_eq_nil_iff] at h
    rw [faults, paths, List.filter_append, List.map_append, operandFaults_checked h.1, operandFaults_checked h.2]
  | negation p => exact p.faults_checked x
  | _ => exact operandFaults_checked h

end Expr

namespace Evaluator

variable {ms : Methods} {calls : Query} {records kept : List Value} {c : Call Expr}

theorem fault?_of_checked (h : (mk ms true).fault? c = none) : (mk ms false).fault? c = none := by
  obtain ⟨hm, hbody⟩ := fault?_eq_none_iff.mp h
  exact fault?_eq_none_iff.mpr ⟨hm, Expr.faults_of_checked hbody⟩

/-- The one fault that the check adds to a call is its first path that does not start with the parameter. -/
theorem fault?_checked (h : (mk ms false).fault? c = none) :
    (mk ms true).fault? c = c.unbound?.map fun p => .unbound p.root c.lambda.parameter := by
  obtain ⟨⟨m, hm⟩, hbody⟩ := fault?_eq_none_iff.mp h
  have hm' : (mk ms true).methods.get? c.method = some m := hm
  rw [fault?, hm']
  simp only
  rw [Expr.faults_checked hbody, List.head?_map, List.head?_filter]
  rfl

theorem fault?_checked_eq_none_iff :
    (mk ms true).fault? c = none ↔ (mk ms false).fault? c = none ∧ c.Bound := by
  constructor
  · intro h
    have hoff := fault?_of_checked h
    rw [fault?_checked hoff, Option.map_eq_none_iff] at h
    exact ⟨hoff, Call.unbound?_eq_none_iff.mp h⟩
  · rintro ⟨hoff, hbound⟩
    rw [fault?_checked hoff, Call.unbound?_eq_none_iff.mpr hbound]
    rfl

/-- A chain of calls runs with the check if it runs without it and every path starts with the parameter of its
    lambda. -/
theorem evaluate_chain_checked_eq_ok_iff :
    (mk ms true).evaluate (.chain calls) records = .ok kept ↔
      (mk ms false).evaluate (.chain calls) records = .ok kept ∧ ∀ c ∈ calls, c.Bound := by
  have hrun : (mk ms true).run = (mk ms false).run := rfl
  simp only [evaluate_chain_eq_ok_iff, fault?_checked_eq_none_iff, forall₂_and, hrun]
  tauto

/-- A chain of calls that runs without the check alone ends with it at the last call that has a path which does not
    start with the parameter. -/
theorem exists_unbound_of_checked (hoff : (mk ms false).evaluate (.chain calls) records = .ok kept)
    (hon : (mk ms true).evaluate (.chain calls) records ≠ .ok kept) :
    ∃ earlier c later p, calls = earlier ++ c :: later ∧ c.unbound? = some p ∧ (∀ d ∈ later, d.Bound) ∧
      (mk ms true).evaluate (.chain calls) records = .error (.unbound p.root c.lambda.parameter) := by
  have hrun := (evaluate_chain_eq_ok_iff.mp hoff).1
  cases h : (mk ms true).evaluate (.chain calls) records with
  | ok kept' =>
    have hsame := (evaluate_chain_checked_eq_ok_iff.mp h).1
    rw [hoff] at hsame
    exact absurd (h.trans hsame.symm) hon
  | error fault =>
    obtain ⟨earlier, c, later, rfl, hc, hlater⟩ := evaluate_chain_eq_error_iff.mp h
    rw [fault?_checked (hrun c (List.mem_append_right _ List.mem_cons_self)), Option.map_eq_some_iff] at hc
    obtain ⟨p, hp, rfl⟩ := hc
    exact ⟨earlier, c, later, p, rfl, hp, fun d hd => (fault?_checked_eq_none_iff.mp (hlater d hd)).2, rfl⟩

end Evaluator

/-! ### A new name for a record -/

theorem Path.nameless_rename (p : Path) (x y : String) : (p.rename x y).nameless = p.nameless := by
  rw [rename]
  split <;> rfl

theorem Path.root_rename {p : Path} {x : String} (h : p.root = x) (y : String) : (p.rename x y).root = y := by
  rw [rename, if_pos h]

theorem Expr.nameless_rename (e : Expr) (x y : String) : (e.rename x y).nameless = e.nameless := by
  induction e using shape_induction with
  | logical op left right ihl ihr => rw [rename, nameless, nameless, ihl, ihr]
  | comparison op left right ihl ihr => rw [rename, nameless, nameless, ihl, ihr]
  | negation p => rw [rename, nameless, nameless, p.nameless_rename]
  | path p => rw [rename, nameless, nameless, p.nameless_rename]
  | _ => rfl

theorem Expr.paths_rename (e : Expr) (x y : String) : (e.rename x y).paths = e.paths.map (Path.rename x y) := by
  induction e using shape_induction with
  | logical op left right ihl ihr => rw [rename, paths, paths, ihl, ihr, List.map_append]
  | comparison op left right ihl ihr => rw [rename, paths, paths, ihl, ihr, List.map_append]
  | _ => rfl

namespace Call

theorem nameless_rename (c : Call Expr) (y : String) : (c.rename y).nameless = c.nameless := by
  simp only [nameless, rename, Expr.nameless_rename]

theorem paths_rename (c : Call Expr) (y : String) :
    (c.rename y).paths = c.paths.map (Path.rename c.lambda.parameter y) :=
  (Expr.logical c.lambda.body).paths_rename c.lambda.parameter y

theorem Bound.rename {c : Call Expr} (h : c.Bound) (y : String) : (c.rename y).Bound := by
  intro p hp
  rw [paths_rename] at hp
  obtain ⟨q, hq, rfl⟩ := List.mem_map.mp hp
  exact Path.root_rename (h q hq) y

end Call

namespace Evaluator

theorem evaluate_congr_nameless {ms : Methods} {e e' : Expr} (h : e'.nameless = e.nameless) (records : List Value) :
    (mk ms false).evaluate e' records = (mk ms false).evaluate e records := by
  rw [← evaluate_nameless e', h, evaluate_nameless]

/-- The check of parameters only rejects. What runs with it runs without it, to the same records. A chain of calls that
    runs without it runs with it if every path starts with the parameter of its own lambda; otherwise the first path
    that does not is reported, of the last call that has one. Without the check trees that differ in names of records
    alone have the same result. With it the parameter of a lambda may be renamed together with the paths that start
    with it. -/
theorem evaluate_checked (ms : Methods) (records : List Value) :
    (∀ e kept, (mk ms true).evaluate e records = .ok kept → (mk ms false).evaluate e records = .ok kept) ∧
      (∀ e kept, (mk ms false).evaluate e records = .ok kept → ∃ calls, e = .chain calls ∧
        ((mk ms true).evaluate e records = .ok kept ↔ ∀ c ∈ calls, c.Bound) ∧
        ((¬∀ c ∈ calls, c.Bound) → ∃ earlier c later p, calls = earlier ++ c :: later ∧ c.unbound? = some p ∧
          (∀ d ∈ later, d.Bound) ∧
          (mk ms true).evaluate e records = .error (.unbound p.root c.lambda.parameter))) ∧
      (∀ e e' : Expr, e'.nameless = e.nameless →
        (mk ms false).evaluate e' records = (mk ms false).evaluate e records) ∧
      ∀ (earlier later : Query) (c : Call Expr) y kept,
        (mk ms true).evaluate (.chain (earlier ++ c :: later)) records = .ok kept →
        (mk ms true).evaluate (.chain (earlier ++ c.rename y :: later)) records = .ok kept := by
  refine ⟨fun e kept h => ?rejects, fun e kept h => ?runs, fun e e' h => evaluate_congr_nameless h records,
    fun earlier later c y kept h => ?renamed⟩
  case rejects =>
    cases e with
    | chain calls => exact (evaluate_chain_checked_eq_ok_iff.mp h).1
    | _ => exact h
  case runs =>
    cases e with
    | chain calls =>
      have hiff : (mk ms true).evaluate (.chain calls) records = .ok kept ↔ ∀ c ∈ calls, c.Bound := by
        rw [evaluate_chain_checked_eq_ok_iff, and_iff_right h]
      refine ⟨calls, rfl, hiff, fun hunbound => ?_⟩
      exact exists_unbound_of_checked h fun hon => hunbound (hiff.mp hon)
    | _ => cases h
  case renamed =>
    obtain ⟨hoff, hbound⟩ := evaluate_chain_checked_eq_ok_iff.mp h
    have hnames : (Expr.chain (earlier ++ c.rename y :: later)).nameless =
        (Expr.chain (earlier ++ c :: later)).nameless := by
      simp only [Expr.nameless, Expr.namelessCalls_eq_map, List.map_append, List.map_cons, Call.nameless_rename]
    refine evaluate_chain_checked_eq_ok_iff.mpr ⟨(evaluate_congr_nameless hnames records).trans hoff, ?_⟩
    simp only [List.forall_mem_append, List.forall_mem_cons] at hbound ⊢
    exact ⟨hbound.1, hbound.2.1.rename y, hbound.2.2⟩

/-- Both calls have a path that starts with another name, and the second path of the second call is reported. -/
example : (mk .standard true).evaluate (.chain [⟨"Where", ⟨"x", Condition.single (.path ⟨"y", ["a"]⟩)⟩⟩,
    ⟨"Where", ⟨"z", ⟨.and, .negation ⟨"z", []⟩, .path ⟨"u", ["a"]⟩⟩⟩⟩]) [] = .error (.unbound "u" "z") :=
  rfl

end Evaluator

end RecordQuery
