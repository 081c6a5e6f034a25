import RecordQuery.Proofs.Derived
import RecordQuery.Proofs.Validation

/-! Queries put together. Calls that can follow `this` can follow any query: they are then made on that query in
    place of `this`, and run on the records that it keeps. -/

namespace RecordQuery

/-! ### Nested calls -/

/-- A query as its calls are nested: each call is made on the query before it, the first one on `this`. -/
inductive Nested where
  | this
  | call (on : Nested) (c : Call Expr)

def Query.nested (q : Query) : Nested := q.foldl .call .this

/-- The query with another one in place of the `this` on which its innermost call is made. -/
def Nested.replaceThis : Nested → Nested → Nested
  | .this, inner => inner
  | .call on c, inner => .call (on.replaceThis inner) c

/-- Calls that come after those of a query are made on it. -/
theorem Query.nested_append (p q : Query) : Query.nested (p ++ q) = (Query.nested q).replaceThis (Query.nested p) := by
  have hfoldl (on : Nested) : q.foldl .call (on.replaceThis p.nested) = (q.foldl .call on).replaceThis p.nested := by
    induction q generalizing on with
    | nil => rfl
    | cons c q ih => exact ih (.call on c)
  rw [Query.nested, List.foldl_append]
  exact hfoldl .this

/-! ### Texts -/

/-- A text that can be parsed after `this` can be put after any query. Its calls are then made on the query instead
    of on `this`, and they run on the records that the query keeps. -/
theorem filter_append {first rest : String} {p q : Query} (hp : parse first = .ok p)
    (hq : parse ("this" ++ rest) = .ok q) :
    ∃ r, parse (first ++ rest) = .ok r ∧ r.nested = q.nested.replaceThis p.nested ∧
      ∀ records kept, filter (first ++ rest) records = .ok kept ↔
        ∃ between, filter first records = .ok between ∧ filter ("this" ++ rest) between = .ok kept := by
  have hr := parse_append hp hq
  refine ⟨p ++ q, hr, Query.nested_append p q, fun records kept => ?_⟩
  simp only [filter_eq_ok_iff, hp, hq, hr, Except.ok.injEq, exists_eq_left', Evaluator.evaluate_chain_append]

/-- A blank after the first query and blanks around the dot of the second call. -/
theorem filter_append_spaced :
    filter "this.Where(x=>x.a)  . Where(y=>y!=\"\")" [.object [("a", .integer 1)], .object [("b", .integer 2)], .null] =
      .ok [.object [("a", .integer 1)]] := by
  have hp : parse "this.Where(x=>x.a) " = .ok [⟨"Where", ⟨"x", Condition.single (.path ⟨"x", ["a"]⟩)⟩⟩] :=
    parseWith_eq_ok_iff.mpr ⟨[⟨.this, some "this", 0⟩, ⟨.dot, some ".", 4⟩, ⟨.identifier, some "Where", 5⟩,
      ⟨.openParen, some "(", 10⟩, ⟨.identifier, some "x", 11⟩, ⟨.operator, some "=>", 12⟩, ⟨.identifier, some "x", 14⟩,
      ⟨.dot, some ".", 15⟩, ⟨.identifier, some "a", 16⟩, ⟨.closeParen, some ")", 17⟩, .atEnd 19],
      by decide +kernel, rfl⟩
  have hq : parse ("this" ++ " . Where(y=>y!=\"\")") =
      .ok [⟨"Where", ⟨"y", Condition.single (.comparison .notEqual (.path ⟨"y", []⟩) (.string ""))⟩⟩] :=
    parseWith_eq_ok_iff.mpr ⟨[⟨.this, some "this", 0⟩, ⟨.dot, some ".", 5⟩, ⟨.identifier, some "Where", 7⟩,
      ⟨.openParen, some "(", 12⟩, ⟨.identifier, some "y", 13⟩, ⟨.operator, some "=>", 14⟩, ⟨.identifier, some "y", 16⟩,
      ⟨.operator, some "!=", 17⟩, ⟨.string, some "", 19⟩, ⟨.closeParen, some ")", 21⟩, .atEnd 22],
      by decide +kernel, rfl⟩
  obtain ⟨_, -, -, hrun⟩ := filter_append hp hq
  exact (hrun _ _).mpr ⟨_, filter_eq_ok_iff.mpr ⟨_, hp, rfl⟩, filter_eq_ok_iff.mpr ⟨_, hq, rfl⟩⟩

end RecordQuery
