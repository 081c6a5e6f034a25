import RecordQuery.Proofs.Keeps
import RecordQuery.Proofs.Value.Likeness

/-! What a query cannot tell apart. It asks of a record what its paths lead to, so it keeps both of two records or
    neither if each path leads to values that look alike. -/

namespace RecordQuery

/-- The paths in the conditions of a query. -/
def Query.paths (q : Query) : List Path := q.flatMap fun c => (Expr.logical c.lambda.body).paths

theorem Expr.Simple.holds_of_looksLike {e : Expr} (h : e.Simple) {r s : Value}
    (hrs : ∀ p ∈ e.paths, (r.walk p.fields).LooksLike (s.walk p.fields)) : e.holds r = e.holds s :=
  h.holds_congr (fun p hp => (hrs p hp).isTruthy_eq) fun p hp _ hl _ => (hrs p hp).alikeTo (isContainer_valueIn hl r)

theorem Query.keeps_of_looksLike {q : Query} (hq : ∀ c ∈ q, (Expr.logical c.lambda.body).Simple) {r s : Value}
    (hrs : ∀ p ∈ q.paths, (r.walk p.fields).LooksLike (s.walk p.fields)) : q.keeps r = q.keeps s :=
  keeps_congr fun c hc => (hq c hc).holds_of_looksLike fun p hp => hrs p (List.mem_flatMap.mpr ⟨c, hc, hp⟩)

/-- A query of `Where` calls keeps the records that satisfy it. It keeps both of two records or neither if each of its
    paths leads to values that look alike: to containers, to NaNs or to equal scalars. So it does not matter in which
    order the fields of an object stand, how a number is written, or what there is in fields that no path reads. -/
theorem filter_sees_paths {text : String} {q : Query} (hq : parse text = .ok q) (hw : ∀ c ∈ q, c.method = "Where") :
    (∀ records, filter text records = .ok (records.filter q.keeps)) ∧
      (∀ r s : Value, (∀ p ∈ q.paths, (r.walk p.fields).LooksLike (s.walk p.fields)) → q.keeps r = q.keeps s) ∧
      (∀ r s : Value, r.Respelled s → q.keeps r = q.keeps s) ∧
      ∀ r s : Value, Value.SameOn (· ∈ q.paths.map Path.fields) r s → q.keeps r = q.keeps s := by
  have hkeeps {r s : Value} (hrs : ∀ p ∈ q.paths, (r.walk p.fields).LooksLike (s.walk p.fields)) :
      q.keeps r = q.keeps s := Query.keeps_of_looksLike (simple_of_parse hq) hrs
  refine ⟨filter_of_parse hq hw, fun r s => hkeeps, fun r s h => ?_, fun r s h => ?_⟩
  · exact hkeeps fun p _ => (h.walk p.fields).looksLike
  · exact hkeeps fun p hp => h.walk (List.mem_map_of_mem hp)

/-- The fields change places, 12 is written as 12.0, one zero is exchanged for the other, and a field is added. -/
theorem filter_sees_paths_unread :
    (filter "this.Where(x => x.a == 12).Where(x => !x.b.c)"
        [.object [("a", .integer 12), ("b", .object [("c", .float ⟨0⟩)])]]).map List.length = .ok 1 ∧
      (filter "this.Where(x => x.a == 12).Where(x => !x.b.c)"
        [.object [("b", .object [("c", .float ⟨0x8000000000000000⟩), ("d", .null)]),
          ("a", .float ⟨0x4028000000000000⟩)]]).map List.length = .ok 1 := by
  have hparse : (parse "this.Where(x => x.a == 12).Where(x => !x.b.c)").map
      (fun q => (q.map (·.method), Query.paths q)) =
        .ok (["Where", "Where"], [⟨"x", ["a"]⟩, ⟨"x", ["b", "c"]⟩]) := by decide +kernel
  obtain ⟨q, hq, hparts⟩ := map_eq_ok hparse
  obtain ⟨hmethods, hpaths⟩ := Prod.mk.inj hparts
  have hw (c : Call Expr) (hc : c ∈ q) : c.method = "Where" := by
    have hmem : c.method ∈ ["Where", "Where"] := hmethods ▸ List.mem_map_of_mem hc
    simpa using hmem
  obtain ⟨hfilter, -, hrespelled, hunread⟩ := filter_sees_paths hq hw
  have hnumbers : Value.Respelled (.object [("a", .integer 12), ("b", .object [("c", .float ⟨0⟩)])])
      (.object [("a", .float ⟨0x4028000000000000⟩), ("b", .object [("c", .float ⟨0x8000000000000000⟩)])]) :=
    .trans (.field "a" [] _ (Value.respelled_of_strictEq (.integer 12) (by decide +kernel)))
      (.field "b" [_] [] (.field "c" [] [] (Value.respelled_of_strictEq (.float _) (by decide +kernel))))
  have horder : Value.Respelled
      (.object [("a", .float ⟨0x4028000000000000⟩), ("b", .object [("c", .float ⟨0x8000000000000000⟩)])])
      (.object [("b", .object [("c", .float ⟨0x8000000000000000⟩)]), ("a", .float ⟨0x4028000000000000⟩)]) :=
    .fields (by simp) (.swap _ _ _)
  have hadded : Value.SameOn (· ∈ q.paths.map Path.fields)
      (.object [("b", .object [("c", .float ⟨0x8000000000000000⟩)]), ("a", .float ⟨0x4028000000000000⟩)])
      (.object [("b", .object (Fields.put "d" .null [("c", .float ⟨0x8000000000000000⟩)])),
        ("a", .float ⟨0x4028000000000000⟩)]) :=
    .field (Value.sameOn_put (by simp [hpaths]) _ _) [] _ rfl
  have hkeeps := (hrespelled _ _ (hnumbers.trans horder)).trans (hunread _ _ hadded)
  have hkept : (filter "this.Where(x => x.a == 12).Where(x => !x.b.c)"
      [.object [("a", .integer 12), ("b", .object [("c", .float ⟨0⟩)])]]).map List.length = .ok 1 := by decide +kernel
  have hsame {r s : Value} (h : q.keeps r = q.keeps s) :
      (filter "this.Where(x => x.a == 12).Where(x => !x.b.c)" [s]).map List.length =
        (filter "this.Where(x => x.a == 12).Where(x => !x.b.c)" [r]).map List.length := by
    rw [hfilter, hfilter, List.filter_singleton, List.filter_singleton, h]
    cases q.keeps s <;> rfl
  exact ⟨hkept, (hsame hkeeps).trans hkept⟩

end RecordQuery
