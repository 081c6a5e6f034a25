import RecordQuery.Proofs.Grammar.Shape
import RecordQuery.Proofs.Value.Atom

/-! What a condition reads of a record. It reads the values that its paths lead to, and of each of them it asks only
    whether it counts as true and how it compares with a literal. -/

namespace RecordQuery

/-! ### Comparisons with a constant -/

namespace Value

/-- Two values stand in the same relations to a third one. -/
structure AlikeTo (c v w : Value) : Prop where
  strictEq_left : v.strictEq c = w.strictEq c
  strictEq_right : c.strictEq v = c.strictEq w
  order_left : v.order? c = w.order? c
  order_right : c.order? v = c.order? w

theorem AlikeTo.refl (c v : Value) : AlikeTo c v v := ⟨rfl, rfl, rfl, rfl⟩

theorem AlikeTo.holds {c v w : Value} (h : AlikeTo c v w) (op : CompareOp) :
    op.holds v c = op.holds w c ∧ op.holds c v = op.holds c w := by
  obtain ⟨hel, her, hol, hor⟩ := h
  cases op <;> simp only [CompareOp.holds, hel, her, hol, hor, and_self]

end Value

/-! ### Conditions -/

namespace Expr

/-- The paths in a condition. -/
def paths : Expr → List Path
  | .logical ⟨_, left, right⟩ => left.paths ++ right.paths
  | .comparison _ left right => left.paths ++ right.paths
  | .path p | .negation p => [p]
  | _ => []

/-- The comparisons of a path with a number in a condition. -/
def measured : Expr → List (Path × Int64)
  | .logical ⟨_, left, right⟩ => left.measured ++ right.measured
  | .comparison _ (.path p) (.number n) | .comparison _ (.number n) (.path p) => [(p, n)]
  | _ => []

theorem valueIn_literal {e : Expr} (he : e.isLiteral = true) (r s : Value) : e.valueIn r = e.valueIn s := by
  cases e with
  | number n | string s | keyword k => rfl
  | _ => cases he

theorem isContainer_valueIn {e : Expr} (he : e.isLiteral = true) (r : Value) : (e.valueIn r).isContainer = false := by
  cases e with
  | number _ | string _ => rfl
  | keyword k => cases k <;> rfl
  | _ => cases he

/-- A condition holds of both of two records or of neither, if each of its paths leads to values that both count as
    true or both do not, and that are alike to every literal, of the numbers only to those that the path is compared
    with. -/
theorem Simple.holds_congr {e : Expr} (h : e.Simple) {r s : Value}
    (htruthy : ∀ p ∈ e.paths, (r.walk p.fields).isTruthy = (s.walk p.fields).isTruthy)
    (halike : ∀ p ∈ e.paths, ∀ l : Expr, l.isLiteral = true → (∀ n, l = .number n → (p, n) ∈ e.measured) →
      (l.valueIn r).AlikeTo (r.walk p.fields) (s.walk p.fields)) : e.holds r = e.holds s := by
  induction h with
  | @logical op left right _ _ ihl ihr =>
    have hleft : left.holds r = left.holds s :=
      ihl (fun p hp => htruthy p (List.mem_append_left _ hp))
        fun p hp l hl hn => halike p (List.mem_append_left _ hp) l hl fun n h => List.mem_append_left _ (hn n h)
    have hright : right.holds r = right.holds s :=
      ihr (fun p hp => htruthy p (List.mem_append_right _ hp))
        fun p hp l hl hn => halike p (List.mem_append_right _ hp) l hl fun n h => List.mem_append_right _ (hn n h)
    cases op <;> rw [holds, holds, hleft, hright]
  | @pathFirst op p e he =>
    have hmeasured (n : Int64) (hn : e = .number n) : (p, n) ∈ (comparison op (.path p) e).measured := by
      subst hn
      exact List.mem_cons_self
    have hcompare := halike p (List.mem_append_left _ List.mem_cons_self) e he hmeasured
    rw [holds, holds, valueIn, valueIn, valueIn_literal he s r]
    exact (hcompare.holds op).1
  | @literalFirst op p e he =>
    have hmeasured (n : Int64) (hn : e = .number n) : (p, n) ∈ (comparison op e (.path p)).measured := by
      subst hn
      exact List.mem_cons_self
    have hcompare := halike p (List.mem_append_right _ List.mem_cons_self) e he hmeasured
    rw [holds, holds, valueIn_literal he s r]
    exact (hcompare.holds op).2
  | @path p => exact htruthy p List.mem_cons_self
  | @negation p => rw [holds, holds, htruthy p List.mem_cons_self]
  | @literal e he =>
    cases e with
    | number n | string s | keyword k => rfl
    | _ => cases he

end Expr

end RecordQuery
