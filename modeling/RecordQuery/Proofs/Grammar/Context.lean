import Mathlib.Data.Set.Operations
import RecordQuery.Query.Expr

/-! Trees with a hole in them: the rest of a query around a literal. What the rules of the grammar make of a part with
    a hole has the hole too. -/

namespace RecordQuery

/-- A tree with a hole, under comparisons and logical operators. -/
inductive Expr.Context where
  | hole
  | comparisonLeft (op : CompareOp) (left : Context) (right : Expr)
  | comparisonRight (op : CompareOp) (left : Expr) (right : Context)
  | logicalLeft (op : LogicalOp) (left : Context) (right : Expr)
  | logicalRight (op : LogicalOp) (left : Expr) (right : Context)

/-- The tree with `e` in the hole. -/
def Expr.Context.fill : Context → Expr → Expr
  | .hole, e => e
  | .comparisonLeft op left right, e => .comparison op (left.fill e) right
  | .comparisonRight op left right, e => .comparison op left (right.fill e)
  | .logicalLeft op left right, e => .logical ⟨op, left.fill e, right⟩
  | .logicalRight op left right, e => .logical ⟨op, left, right.fill e⟩

/-- A condition with a hole on one side. -/
inductive Condition.Context where
  | left (op : LogicalOp) (left : Expr.Context) (right : Expr)
  | right (op : LogicalOp) (left : Expr) (right : Expr.Context)

namespace Condition.Context

def fill : Context → Expr → Condition
  | .left op l r, e => ⟨op, l.fill e, r⟩
  | .right op l r, e => ⟨op, l, r.fill e⟩

/-- The condition as a part of another one. -/
def logical : Context → Expr.Context
  | .left op l r => .logicalLeft op l r
  | .right op l r => .logicalRight op l r

theorem fill_logical (c : Context) (e : Expr) : c.logical.fill e = .logical (c.fill e) := by
  cases c <;> rfl

end Condition.Context

/-- A query with a hole in the condition of one of its calls. -/
structure Query.Context where
  before : Query
  method : String
  parameter : String
  body : Condition.Context
  after : Query

def Query.Context.fill (c : Context) (e : Expr) : Query :=
  c.before ++ ⟨c.method, c.parameter, c.body.fill e⟩ :: c.after

/-! ### Parts with a hole -/

section Parts

variable {α : Type}

/-- The trees with a hole. -/
abbrev inExpr : Set (Expr → Expr) := Set.range Expr.Context.fill

/-- The conditions with a hole. -/
abbrev inCondition : Set (Expr → Condition) := Set.range Condition.Context.fill

/-- The calls with a hole. -/
def inCall : Set (Expr → Call Expr) :=
  {f | ∃ (method parameter : String) (c : Condition.Context), f = fun e => ⟨method, parameter, c.fill e⟩}

/-- The lists with a hole in one of their elements. -/
def inList (F : Set (Expr → α)) : Set (Expr → List α) := {f | ∃ v, ∃ g ∈ F, ∃ w, f = fun e => v ++ g e :: w}

/-- The same for a first element and those after it. -/
def inOperands (F : Set (Expr → α)) : Set (Expr → α × List α) := {f | (fun e => (f e).1 :: (f e).2) ∈ inList F}

theorem inList_head {F : Set (Expr → α)} {g : Expr → α} (hg : g ∈ F) (w : List α) : (fun e => g e :: w) ∈ inList F :=
  ⟨[], g, hg, w, rfl⟩

theorem inList_cons {F : Set (Expr → α)} {g : Expr → List α} (a : α) (hg : g ∈ inList F) :
    (fun e => a :: g e) ∈ inList F := by
  obtain ⟨v, g, hg, w, rfl⟩ := hg
  exact ⟨a :: v, g, hg, w, rfl⟩

/-! ### Chains -/

/-- A chain that is joined to the left keeps its hole. -/
theorem inCondition_foldl {join : Condition → α → Condition}
    (hjoin : ∀ (c : Condition.Context) a, ∃ c' : Condition.Context, ∀ e, join (c.fill e) a = c'.fill e)
    (c : Condition.Context) (w : List α) : (fun e => w.foldl join (c.fill e)) ∈ inCondition := by
  induction w generalizing c with
  | nil => exact ⟨c, rfl⟩
  | cons a w ih =>
    obtain ⟨c', hc'⟩ := hjoin c a
    simpa only [List.foldl_cons, hc'] using ih c'

theorem inCondition_all {f : Expr → Expr × List Expr} (h : f ∈ inOperands inExpr) :
    (fun e => Condition.all (f e).1 (f e).2) ∈ inCondition := by
  have hjoin (c : Condition.Context) (a : Expr) :
      ∃ c' : Condition.Context, ∀ e, (⟨.and, .logical (c.fill e), a⟩ : Condition) = c'.fill e :=
    ⟨.left .and c.logical a, fun e => by rw [Condition.Context.fill, c.fill_logical]⟩
  obtain ⟨v, _, ⟨c, rfl⟩, w, hf⟩ := h
  cases v with
  | nil =>
    have hf (e : Expr) : f e = (c.fill e, w) := Prod.ext_iff.mpr (List.cons.inj (congrFun hf e))
    simp only [hf]
    cases w with
    | nil => exact ⟨.left .and c (.keyword .true), rfl⟩
    | cons b w => exact inCondition_foldl hjoin (.left .and c b) w
  | cons a v =>
    have hf (e : Expr) : f e = (a, v ++ c.fill e :: w) := Prod.ext_iff.mpr (List.cons.inj (congrFun hf e))
    simp only [hf]
    cases v with
    | nil => exact inCondition_foldl hjoin (.right .and a c) w
    | cons b v =>
      simp only [List.cons_append, Condition.all, List.foldl_append, List.foldl_cons]
      exact inCondition_foldl hjoin (.right .and _ c) w

theorem inCondition_any {f : Expr → Condition × List Condition} (h : f ∈ inOperands inCondition) :
    (fun e => Condition.any (f e).1 (f e).2) ∈ inCondition := by
  have hjoin (c : Condition.Context) (a : Condition) :
      ∃ c' : Condition.Context, ∀ e, (⟨.or, .logical (c.fill e), .logical a⟩ : Condition) = c'.fill e :=
    ⟨.left .or c.logical (.logical a), fun e => by rw [Condition.Context.fill, c.fill_logical]⟩
  obtain ⟨v, _, ⟨c, rfl⟩, w, hf⟩ := h
  cases v with
  | nil =>
    have hf (e : Expr) : f e = (c.fill e, w) := Prod.ext_iff.mpr (List.cons.inj (congrFun hf e))
    simp only [hf]
    exact inCondition_foldl hjoin c w
  | cons a v =>
    have hf (e : Expr) : f e = (a, v ++ c.fill e :: w) := Prod.ext_iff.mpr (List.cons.inj (congrFun hf e))
    simp only [hf, Condition.any, List.foldl_append, List.foldl_cons, ← c.fill_logical]
    exact inCondition_foldl hjoin (.right .or _ c.logical) w

end Parts

end RecordQuery
