import RecordQuery.Proofs.Grammar.Chain

/-! Every function of the parser takes what its rule derives, as long as the tokens after that do not
    go on with the rule: one token decides where a rule ends. The two bounds of the parser, on the depth
    of groups and on the length of chains, are met by any number that the tokens do not exceed. -/

namespace RecordQuery.Grammar
open Parsing

/-! ### What comes next -/

/-- No path goes on with the next token. -/
def EndsPath (ts : List Token) : Prop := ∀ t ∈ ts.head?, t.kind ≠ .dot

/-- No comparison goes on with the next token. -/
def EndsComparison (ts : List Token) : Prop := EndsPath ts ∧ compareOp? ts = none

/-- No chain of `&&` goes on with the next token. -/
def EndsAnd (ts : List Token) : Prop := EndsComparison ts ∧ nextIs "&&" ts = false

/-- No condition goes on with the next token. -/
def EndsOr (ts : List Token) : Prop := EndsAnd ts ∧ nextIs "||" ts = false

theorem endsPath_cons {t : Token} {ts : List Token} (h : t.kind ≠ .dot) : EndsPath (t :: ts) := by
  intro u hu
  obtain rfl := Option.some.inj hu
  exact h

theorem endsComparison_of_isOperator {symbol : String} {t : Token} {ts : List Token}
    (h : t.isOperator symbol = true) (hs : CompareOp.ofSymbol? symbol = none) : EndsComparison (t :: ts) := by
  simp only [Token.isOperator, Bool.and_eq_true, beq_iff_eq] at h
  exact ⟨endsPath_cons (by simp [h.1]), by simp [compareOp?, h.1, h.2, hs]⟩

theorem endsAnd_of_isOperator {t : Token} {ts : List Token} (h : t.isOperator "||" = true) : EndsAnd (t :: ts) := by
  refine ⟨endsComparison_of_isOperator h (by simp [CompareOp.ofSymbol?]), ?_⟩
  simp only [Token.isOperator, Bool.and_eq_true, beq_iff_eq] at h
  simp [nextIs, Token.isOperator, h.2]

theorem endsOr_of_closeParen {t : Token} {ts : List Token} (h : t.kind = .closeParen) : EndsOr (t :: ts) :=
  ⟨⟨⟨endsPath_cons (by simp [h]), by simp [compareOp?, h]⟩, by simp [nextIs, Token.isOperator, h]⟩,
    by simp [nextIs, Token.isOperator, h]⟩

/-! ### Tokens -/

theorem token_cons {kind : Token.Kind} {expected : Expected} {t : Token} {ts : List Token} (h : t.kind = kind) :
    token kind expected (t :: ts) = .ok (t, ts) := by
  simp [token, h]

theorem name_cons {t : Token} {ts : List Token} (h : t.kind = .identifier) : name (t :: ts) = .ok (t.lexeme, ts) := by
  simp [name, token, h, Except.map]

theorem nextIs_cons {symbol : String} {t : Token} {ts : List Token} (h : t.isOperator symbol = true) :
    nextIs symbol (t :: ts) = true := by
  simp [nextIs, h]

theorem compareOp?_cons {t : Token} {op : CompareOp} {ts : List Token} (h : IsCompareOp t op) :
    compareOp? (t :: ts) = some (op, ts) := by
  simp [compareOp?, h.1, h.2, CompareOp.ofSymbol?_symbol]

/-! ### Paths and literals -/

theorem Fields.read {w : List Token} {names : List String} {rest : List Token} (h : Fields w names)
    (hr : EndsPath rest) : fields (w ++ rest) = .ok (names, rest) := by
  induction h with
  | nil =>
    cases rest with
    | nil => rfl
    | cons t ts =>
      unfold fields
      simp [hr t rfl]
  | cons hd hn _ ih => simp [fields, hd, hn, ih, Except.map]

theorem MemberAccess.read {w : List Token} {p : Path} {rest : List Token} (h : MemberAccess w p)
    (hr : EndsPath rest) : path (w ++ rest) = .ok (p, rest) := by
  obtain ⟨hn, hf⟩ := h
  simp [path, name_cons hn, hf.read hr, Except.map]

theorem ValueExpr.read {w : List Token} {e : Expr} {rest : List Token} (h : ValueExpr w e) :
    literal (w ++ rest) = .ok (e, rest) := by
  cases h with
  | number ht hn => simp [literal, ht, Parsing.number, hn]
  | negative hs hm ht hn => simp [literal, hs, hm, token_cons ht, Parsing.number, hn]
  | string ht => simp [literal, ht]
  | keyword ht hk => simp [literal, ht, hk, Keyword.ofWord?_word]

/-- A comparison starts with a path exactly if its first token is a name. -/
theorem MemberAccess.comparison_eq {w : List Token} {p : Path} {rest : List Token} (h : MemberAccess w p)
    (group : List Token → Parsing Condition) : comparison group (w ++ rest) = pathFirst (w ++ rest) := by
  obtain ⟨hn, -⟩ := h
  simp [comparison, hn]

theorem ValueExpr.comparison_eq {w : List Token} {e : Expr} {rest : List Token} (h : ValueExpr w e)
    (group : List Token → Parsing Condition) : comparison group (w ++ rest) = literalFirst (w ++ rest) := by
  cases h with
  | number ht | negative ht | string ht | keyword ht => simp [comparison, ht]

/-! ### Conditions -/

theorem Operands.length_le {α : Type} {symbol : String} {R : List Token → α → Prop} {w : List Token} {as : List α}
    (h : Operands symbol R w as) : as.length ≤ w.length := by
  induction h with
  | nil => exact Nat.le_refl _
  | cons _ _ _ ih =>
    simp only [List.length_cons, List.length_append]
    omega

section Operands

variable {α : Type} {symbol : String} {operand : List Token → Parsing α} {R : List Token → α → Prop}
  {Ends : List Token → Prop} {limit bound : Nat} {rest : List Token}

/-- The symbol between two operands ends the first one, and so does what comes after the last one. -/
theorem Operands.ends {w : List Token} {as : List α} (h : Operands symbol R w as)
    (hsymbol : ∀ t ts, t.isOperator symbol = true → Ends (t :: ts)) (hr : Ends rest) : Ends (w ++ rest) := by
  cases h with
  | nil => exact hr
  | cons ht _ _ => exact hsymbol _ _ ht

theorem Operands.read {w : List Token} {as : List α} (h : Operands symbol R w as)
    (hsymbol : ∀ t ts, t.isOperator symbol = true → Ends (t :: ts))
    (hoperand : ∀ {v a rest}, R v a → v.length ≤ limit → Ends rest → operand (v ++ rest) = .ok (a, rest))
    (hb : as.length ≤ bound) (hw : w.length ≤ limit) (hr : Ends rest) (hn : nextIs symbol rest = false) :
    moreOperands symbol operand bound (w ++ rest) = .ok (as, rest) := by
  induction h generalizing bound with
  | nil => cases bound <;> simp [moreOperands, hn]
  | @cons t v w a as ht ha h ih =>
    simp only [List.length_cons, List.length_append] at hb hw
    obtain ⟨bound, rfl⟩ : ∃ k, bound = k + 1 := ⟨bound - 1, by omega⟩
    have hv := hoperand ha (by omega) (h.ends hsymbol hr)
    have hrest : moreOperands symbol operand bound (w ++ rest) = .ok (as, rest) := ih (by omega) (by omega)
    simp [moreOperands, nextIs_cons ht, hv, hrest, Except.map]

theorem operands_read {v w : List Token} {a : α} {as : List α} (ha : R v a) (h : Operands symbol R w as)
    (hsymbol : ∀ t ts, t.isOperator symbol = true → Ends (t :: ts))
    (hoperand : ∀ {v a rest}, R v a → v.length ≤ limit → Ends rest → operand (v ++ rest) = .ok (a, rest))
    (hb : as.length ≤ bound) (hw : (v ++ w).length ≤ limit) (hr : Ends rest) (hn : nextIs symbol rest = false) :
    operands symbol operand bound (v ++ w ++ rest) = .ok ((a, as), rest) := by
  rw [List.length_append] at hw
  have hv := hoperand ha (by omega) (h.ends hsymbol hr)
  have has := h.read hsymbol hoperand hb (by omega) hr hn
  simp [operands, hv, has, Except.map]

end Operands

section Reads

variable {bound : Nat}

/-- The comparison that `w` derives is read from `w` where the bounds allow as much as `w` has. -/
def ReadsComparison (bound : Nat) (w : List Token) (e : Expr) : Prop :=
  ∀ (depth : Nat) (rest : List Token), w.length ≤ depth → depth ≤ bound → EndsComparison rest →
    comparison (condition bound depth) (w ++ rest) = .ok (e, rest)

@[inherit_doc ReadsComparison]
def ReadsAnd (bound : Nat) (w : List Token) (c : Condition) : Prop :=
  ∀ (depth : Nat) (rest : List Token), w.length ≤ depth → depth ≤ bound → EndsAnd rest →
    conjunction (condition bound depth) bound (w ++ rest) = .ok (c, rest)

@[inherit_doc ReadsComparison]
def ReadsOr (bound : Nat) (w : List Token) (c : Condition) : Prop :=
  ∀ (depth : Nat) (rest : List Token), w.length ≤ depth → depth ≤ bound → EndsOr rest →
    disjunction (condition bound depth) bound (w ++ rest) = .ok (c, rest)

theorem reads_pathFirst {v w : List Token} {t : Token} {p : Path} {op : CompareOp} {e : Expr} (hp : MemberAccess v p)
    (ht : IsCompareOp t op) (he : ValueExpr w e) :
    ReadsComparison bound (v ++ t :: w) (.comparison op (.path p) e) := by
  intro depth rest _ _ _
  have hr : EndsPath (t :: (w ++ rest)) := endsPath_cons (by simp [ht.1])
  have hread := hp.read hr
  simp [hp.comparison_eq, pathFirst, hread, compareOp?_cons ht, he.read, Except.map]

theorem reads_path {w : List Token} {p : Path} (hp : MemberAccess w p) : ReadsComparison bound w (.path p) := by
  intro depth rest _ _ hr
  simp [hp.comparison_eq, pathFirst, hp.read hr.1, hr.2]

theorem reads_valueFirst {v w : List Token} {t : Token} {p : Path} {op : CompareOp} {e : Expr} (he : ValueExpr v e)
    (ht : IsCompareOp t op) (hp : MemberAccess w p) :
    ReadsComparison bound (v ++ t :: w) (.comparison op e (.path p)) := by
  intro depth rest _ _ hr
  simp [he.comparison_eq, literalFirst, he.read, compareOp?_cons ht, hp.read hr.1, Except.map]

theorem reads_value {w : List Token} {e : Expr} (he : ValueExpr w e) : ReadsComparison bound w e := by
  intro depth rest _ _ hr
  simp [he.comparison_eq, literalFirst, he.read, hr.2]

theorem reads_negation {w : List Token} {t : Token} {p : Path} (ht : t.isOperator "!" = true) (hp : MemberAccess w p) :
    ReadsComparison bound (t :: w) (.negation p) := by
  intro depth rest _ _ hr
  simp only [Token.isOperator, Bool.and_eq_true, beq_iff_eq] at ht
  simp [comparison, ht.1, ht.2, hp.read hr.1, Except.map]

/-- A group is read by what reads conditions one level less deep. -/
theorem reads_group {w : List Token} {l r : Token} {c : Condition} (hl : l.kind = .openParen)
    (h : ReadsOr bound w c) (hr : r.kind = .closeParen) : ReadsComparison bound (l :: (w ++ [r])) (.logical c) := by
  intro depth rest hd hb _
  simp only [List.length_cons, List.length_append, List.length_nil] at hd
  obtain ⟨depth, rfl⟩ : ∃ d, depth = d + 1 := ⟨depth - 1, by omega⟩
  have hc := h depth (r :: rest) (by omega) (by omega) (endsOr_of_closeParen hr)
  simp [comparison, hl, closed, condition, hc, token_cons hr, Except.map]

theorem reads_and {v w : List Token} {a : Expr} {as : List Expr} (ha : ReadsComparison bound v a)
    (h : Operands "&&" (ReadsComparison bound) w as) : ReadsAnd bound (v ++ w) (Condition.all a as) := by
  intro depth rest hd hb hr
  have hlen := h.length_le
  have hread : operands "&&" (comparison (condition bound depth)) bound (v ++ w ++ rest) = .ok ((a, as), rest) := by
    refine operands_read ha h (fun t ts ht => ?_) (fun h hl hr => h _ _ hl hb hr) ?_ hd hr.1 hr.2
    · exact endsComparison_of_isOperator ht (by simp [CompareOp.ofSymbol?])
    · rw [List.length_append] at hd
      omega
  simp only [conjunction, hread, Except.map]

theorem reads_or {v w : List Token} {c : Condition} {cs : List Condition} (hc : ReadsAnd bound v c)
    (h : Operands "||" (ReadsAnd bound) w cs) : ReadsOr bound (v ++ w) (Condition.any c cs) := by
  intro depth rest hd hb hr
  have hlen := h.length_le
  have hread : operands "||" (conjunction (condition bound depth) bound) bound (v ++ w ++ rest) =
      .ok ((c, cs), rest) := by
    refine operands_read hc h (fun t ts ht => endsAnd_of_isOperator ht) (fun h hl hr => h _ _ hl hb hr) ?_ hd hr.1 hr.2
    rw [List.length_append] at hd
    omega
  simp only [disjunction, hread, Except.map]

mutual

theorem ComparisonExpr.reads {w : List Token} {e : Expr} : ComparisonExpr w e → ReadsComparison bound w e
  | .path hp => reads_path hp
  | .pathFirst hp ht he => reads_pathFirst hp ht he
  | .value he => reads_value he
  | .valueFirst he ht hp => reads_valueFirst he ht hp
  | .group hl h hr => reads_group hl h.reads hr
  | .negation ht hp => reads_negation ht hp

theorem AndChain.operands {w : List Token} {c : Condition} : AndChain w c →
    ∃ u v a b as, w = u ++ v ∧ c = Condition.all a (b :: as) ∧ ReadsComparison bound u a ∧
      Operands "&&" (ReadsComparison bound) v (b :: as)
  | .two (v := u) (w := v) (t := t) (a := a) (b := b) ha ht hb => by
    refine ⟨u, t :: v, a, b, [], rfl, rfl, ha.reads, ?_⟩
    simpa using Operands.cons ht (ComparisonExpr.reads hb) .nil
  | .more (w := v) (t := t) (b := b) h ht hb => by
    obtain ⟨u, v', a, c, as, rfl, rfl, ha, has⟩ := AndChain.operands h
    refine ⟨u, v' ++ t :: v, a, c, as ++ [b], by simp, (Condition.all_concat a c b as).symm, ha, ?_⟩
    exact has.concat ht (ComparisonExpr.reads hb)

theorem AndExpr.reads {w : List Token} {c : Condition} : AndExpr w c → ReadsAnd bound w c
  | .lone ha => by simpa [Condition.all, Condition.single] using reads_and (ComparisonExpr.reads ha) .nil
  | .chain h => by
    obtain ⟨u, v, a, b, as, rfl, rfl, ha, has⟩ := AndChain.operands h
    exact reads_and ha has

theorem OrExpr.operands {w : List Token} {c : Condition} : OrExpr w c →
    ∃ u v a as, w = u ++ v ∧ c = Condition.any a as ∧ ReadsAnd bound u a ∧ Operands "||" (ReadsAnd bound) v as
  | .one (w := u) (c := a) h => ⟨u, [], a, [], by simp, rfl, AndExpr.reads h, .nil⟩
  | .more (w := v) (t := t) (b := b) h ht hb => by
    obtain ⟨u, v', a, as, rfl, rfl, ha, has⟩ := OrExpr.operands h
    refine ⟨u, v' ++ t :: v, a, as ++ [b], by simp, (Condition.any_concat a b as).symm, ha, ?_⟩
    exact has.concat ht (AndExpr.reads hb)

theorem OrExpr.reads {w : List Token} {c : Condition} : OrExpr w c → ReadsOr bound w c
  | h => by
    obtain ⟨u, v, a, as, rfl, rfl, ha, has⟩ := OrExpr.operands h
    exact reads_or ha has

end

end Reads

/-! ### Calls -/

theorem LambdaExpr.read {bound : Nat} {w : List Token} {fn : Lambda Expr} {rest : List Token} (h : LambdaExpr w fn)
    (hw : w.length ≤ bound) (hr : EndsOr rest) : lambda bound (w ++ rest) = .ok (fn, rest) := by
  cases h with
  | mk hn ha hc =>
    simp only [List.length_cons] at hw
    have hread := hc.reads bound rest (by omega) (Nat.le_refl bound) hr
    simp [lambda, name_cons hn, nextIs_cons ha, condition, hread, Except.map]

theorem CallTokens.read {bound : Nat} {w : List Token} {c : Call Expr} {rest : List Token} (h : CallTokens w c)
    (hw : w.length ≤ bound) :
    ∃ dot v, w = dot :: v ∧ dot.kind = .dot ∧ call none bound (v ++ rest) = .ok (c, rest) := by
  cases h with
  | @mk w dot name l r fn hd hn hl hf hr =>
    simp only [List.length_cons, List.length_append] at hw
    have hread : lambda bound (w ++ r :: rest) = .ok (fn, r :: rest) := hf.read (by omega) (endsOr_of_closeParen hr)
    refine ⟨dot, name :: l :: (w ++ [r]), rfl, hd, ?_⟩
    simp [call, methodName, name_cons hn, token_cons hl, hread, token_cons hr, Except.map]

theorem CallsTokens.read {bound k : Nat} {w : List Token} {q : Query} {rest : List Token} (h : CallsTokens w q)
    (hk : w.length ≤ k) (hw : w.length ≤ bound) (hr : EndsPath rest) :
    calls none bound k (w ++ rest) = .ok (q, rest) := by
  induction h generalizing k with
  | nil =>
    cases rest with
    | nil => cases k <;> rfl
    | cons t ts => cases k <;> simp [calls, hr t rfl]
  | @cons v w c q hc _ ih =>
    simp only [List.length_append] at hk hw
    obtain ⟨dot, v, rfl, hd, hread⟩ := @CallTokens.read bound v c (w ++ rest) hc (by omega)
    simp only [List.length_cons] at hk hw
    obtain ⟨k, rfl⟩ : ∃ j, k = j + 1 := ⟨k - 1, by omega⟩
    have hrest : calls none bound k (w ++ rest) = .ok (q, rest) := ih (by omega) (by omega)
    simp [calls, hd, hread, hrest, Except.map]

theorem LinqExpr.read {w : List Token} {q : Query} {rest : List Token} (h : LinqExpr w q) (hr : EndsPath rest) :
    chain none (w ++ rest) = .ok (q, rest) := by
  obtain ⟨t, v, rfl, ht, hv⟩ := linqExpr_iff.mp h
  have hlen : v.length ≤ (t :: v ++ rest).length := by
    simp only [List.length_append, List.length_cons]
    omega
  have hread := hv.read hlen hlen hr
  simp only [List.cons_append] at hread ⊢
  simp only [chain, token_cons ht, hread]

end RecordQuery.Grammar
