import RecordQuery.Proofs.Grammar

/-! The chains of the grammar read from left to right. A rule nests a chain to the left, with its last
    operand at the root, while a parser meets the first operand first; here the two are the same chains. -/

namespace RecordQuery.Grammar

/-! ### Operands -/

/-- Operands that follow another one, each after the symbol. -/
inductive Operands {α : Type} (symbol : String) (R : List Token → α → Prop) : List Token → List α → Prop
  | nil : Operands symbol R [] []
  | cons {t : Token} {v w : List Token} {a : α} {as : List α} (ht : t.isOperator symbol = true) (ha : R v a)
      (h : Operands symbol R w as) : Operands symbol R (t :: (v ++ w)) (a :: as)

theorem Operands.concat {α : Type} {symbol : String} {R : List Token → α → Prop} {v w : List Token} {as : List α}
    {t : Token} {a : α} (h : Operands symbol R v as) (ht : t.isOperator symbol = true) (ha : R w a) :
    Operands symbol R (v ++ t :: w) (as ++ [a]) := by
  induction h with
  | nil => simpa using Operands.cons ht ha .nil
  | cons hu hb _ ih => simpa using Operands.cons hu hb ih

/-- Further operands of `&&` are put to the right of the chain before them. -/
theorem AndChain.foldl {v w : List Token} {c : Condition} {as : List Expr} (hc : AndChain v c)
    (h : Operands "&&" ComparisonExpr w as) :
    AndChain (v ++ w) (as.foldl (fun left right => ⟨.and, .logical left, right⟩) c) := by
  induction h generalizing v c with
  | nil => simpa using hc
  | cons ht ha _ ih => simpa using ih (hc.more ht ha)

theorem AndExpr.of_operands {v w : List Token} {a : Expr} {as : List Expr} (ha : ComparisonExpr v a)
    (h : Operands "&&" ComparisonExpr w as) : AndExpr (v ++ w) (Condition.all a as) := by
  cases h with
  | nil => simpa [Condition.all, Condition.single] using AndExpr.lone ha
  | cons ht hb h => simpa [Condition.all] using AndExpr.chain (AndChain.foldl (.two ha ht hb) h)

theorem OrExpr.of_operands {v w : List Token} {c : Condition} {cs : List Condition} (hc : OrExpr v c)
    (h : Operands "||" AndExpr w cs) : OrExpr (v ++ w) (Condition.any c cs) := by
  unfold Condition.any
  induction h generalizing v c with
  | nil => simpa using hc
  | cons ht ha _ ih => simpa using ih (hc.more ht ha)

theorem Condition.all_concat (a b c : Expr) (bs : List Expr) :
    Condition.all a (b :: (bs ++ [c])) = ⟨.and, .logical (Condition.all a (b :: bs)), c⟩ := by
  simp [Condition.all]

theorem Condition.any_concat (a c : Condition) (bs : List Condition) :
    Condition.any a (bs ++ [c]) = ⟨.or, .logical (Condition.any a bs), .logical c⟩ := by
  simp [Condition.any]

/-- Chains grow by one operand at the end. -/
@[elab_as_elim]
theorem AndChain.induction {P : ∀ w c, AndChain w c → Prop}
    (two : ∀ {v w} {t : Token} {a b} (ha : ComparisonExpr v a) (ht : t.isOperator "&&" = true)
      (hb : ComparisonExpr w b), P _ _ (.two ha ht hb))
    (more : ∀ {v w} {t : Token} {c b} (h : AndChain v c) (ht : t.isOperator "&&" = true) (hb : ComparisonExpr w b),
      P _ _ h → P _ _ (.more h ht hb)) {w : List Token} {c : Condition} : ∀ h : AndChain w c, P w c h
  | .two ha ht hb => two ha ht hb
  | .more h ht hb => more h ht hb (AndChain.induction two more h)

@[elab_as_elim, inherit_doc AndChain.induction]
theorem OrExpr.induction {P : ∀ w c, OrExpr w c → Prop} (one : ∀ {w c} (h : AndExpr w c), P _ _ (.one h))
    (more : ∀ {v w} {t : Token} {a b} (h : OrExpr v a) (ht : t.isOperator "||" = true) (hb : AndExpr w b),
      P _ _ h → P _ _ (.more h ht hb)) {w : List Token} {c : Condition} : ∀ h : OrExpr w c, P w c h
  | .one h => one h
  | .more h ht hb => more h ht hb (OrExpr.induction one more h)

/-! ### Calls -/

/-- The tokens of a call, its dot included. -/
inductive CallTokens : List Token → Call Expr → Prop
  | mk {w : List Token} {dot name l r : Token} {fn : Lambda Expr} (hd : dot.kind = .dot)
      (hn : name.kind = .identifier) (hl : l.kind = .openParen) (hf : LambdaExpr w fn) (hr : r.kind = .closeParen) :
      CallTokens (dot :: name :: l :: (w ++ [r])) ⟨name.lexeme, fn⟩

/-- The tokens of calls one after another. -/
inductive CallsTokens : List Token → Query → Prop
  | nil : CallsTokens [] []
  | cons {v w : List Token} {c : Call Expr} {q : Query} (hc : CallTokens v c) (h : CallsTokens w q) :
      CallsTokens (v ++ w) (c :: q)

theorem CallsTokens.concat {v w : List Token} {q : Query} {c : Call Expr} (h : CallsTokens v q)
    (hc : CallTokens w c) : CallsTokens (v ++ w) (q ++ [c]) := by
  induction h with
  | nil => simpa using CallsTokens.cons hc .nil
  | cons hd _ ih => simpa using CallsTokens.cons hd ih

/-- Calls that follow a query are put on it one after another. -/
theorem LinqExpr.append {v w : List Token} {q cs : Query} (hq : LinqExpr v q) (h : CallsTokens w cs) :
    LinqExpr (v ++ w) (q ++ cs) := by
  induction h generalizing v q with
  | nil => simpa using hq
  | cons hc _ ih =>
    cases hc with
    | mk hd hn hl hf hr => simpa using ih (hq.call hd hn hl hf hr)

/-- A query is `this` and the calls after it. -/
theorem linqExpr_iff {w : List Token} {q : Query} :
    LinqExpr w q ↔ ∃ t v, w = t :: v ∧ t.kind = .this ∧ CallsTokens v q := by
  constructor
  · intro h
    induction h with
    | @this t ht => exact ⟨t, [], rfl, ht, .nil⟩
    | call _ hd hn hl hf hr ih =>
      obtain ⟨t, v, rfl, ht, hv⟩ := ih
      exact ⟨t, _, rfl, ht, hv.concat (.mk hd hn hl hf hr)⟩
  · rintro ⟨t, v, rfl, ht, hv⟩
    simpa using LinqExpr.append (.this ht) hv

end RecordQuery.Grammar
