import Mathlib.Data.List.Chain
import RecordQuery.Proofs.Grammar.Acceptance

/-! Which tokens stand next to each other in what the grammar derives: two operands never do. There is an
    operator, a dot or a parenthesis between them. -/

namespace RecordQuery

/-- The token is a literal, or a part of one, or a name. -/
def Token.IsOperand (t : Token) : Prop := t.kind ∈ [.number, .string, .keyword, .identifier]

namespace Grammar

/-- One of the tokens is no operand. -/
def Apart (t u : Token) : Prop := ¬(t.IsOperand ∧ u.IsOperand)

theorem not_isOperand {t : Token} (h : t.kind ∈ [.this, .dot, .operator, .openParen, .closeParen, .addSub]) :
    ¬t.IsOperand := by
  intro ht
  simp only [Token.IsOperand, List.mem_cons, List.not_mem_nil, or_false] at h ht
  rcases h with h | h | h | h | h | h <;> simp [h] at ht

/-- A token that is no operand stands apart from those on both of its sides. -/
theorem apart_between {v w : List Token} {t : Token} (hv : v.IsChain Apart) (ht : ¬t.IsOperand)
    (hw : w.IsChain Apart) : (v ++ t :: w).IsChain Apart := by
  refine List.isChain_append.mpr ⟨hv, List.isChain_cons.mpr ⟨fun u _ h => ht h.1, hw⟩, ?_⟩
  intro u _ t' ht' h
  obtain rfl := Option.some.inj ht'
  exact ht h.2

theorem apart_after {w : List Token} {t : Token} (ht : ¬t.IsOperand) (hw : w.IsChain Apart) :
    (t :: w).IsChain Apart :=
  apart_between .nil ht hw

theorem apart_operator {v w : List Token} {t : Token} {symbol : String} (hv : v.IsChain Apart)
    (ht : t.isOperator symbol = true) (hw : w.IsChain Apart) : (v ++ t :: w).IsChain Apart :=
  apart_between hv (not_isOperand (by simp [kind_of_isOperator ht])) hw

/-! ### Paths and literals -/

theorem Fields.apart {w : List Token} {names : List String} (h : Fields w names) (t : Token) :
    (t :: w).IsChain Apart := by
  induction h generalizing t with
  | nil => exact .singleton t
  | cons hd _ _ ih => exact apart_between (.singleton t) (not_isOperand (by simp [hd])) (ih _)

theorem MemberAccess.apart {w : List Token} {p : Path} (h : MemberAccess w p) : w.IsChain Apart := by
  obtain ⟨-, hf⟩ := h
  exact hf.apart _

theorem ValueExpr.apart {w : List Token} {e : Expr} (h : ValueExpr w e) : w.IsChain Apart := by
  cases h with
  | number | string | keyword => exact .singleton _
  | negative hs => exact apart_after (not_isOperand (by simp [hs])) (.singleton _)

/-! ### Conditions -/

mutual

theorem ComparisonExpr.apart {w : List Token} {e : Expr} : ComparisonExpr w e → w.IsChain Apart
  | .path hp => hp.apart
  | .pathFirst hp ht he => apart_between hp.apart (not_isOperand (by simp [ht.1])) he.apart
  | .value he => he.apart
  | .valueFirst he ht hp => apart_between he.apart (not_isOperand (by simp [ht.1])) hp.apart
  | .group hl h hr =>
    apart_after (not_isOperand (by simp [hl])) (apart_between (OrExpr.apart h) (not_isOperand (by simp [hr])) .nil)
  | .negation ht hp => apart_operator .nil ht hp.apart

theorem AndChain.apart {w : List Token} {c : Condition} : AndChain w c → w.IsChain Apart
  | .two ha ht hb => apart_operator (ComparisonExpr.apart ha) ht (ComparisonExpr.apart hb)
  | .more h ht hb => apart_operator (AndChain.apart h) ht (ComparisonExpr.apart hb)

theorem AndExpr.apart {w : List Token} {c : Condition} : AndExpr w c → w.IsChain Apart
  | .lone ha => ComparisonExpr.apart ha
  | .chain h => AndChain.apart h

theorem OrExpr.apart {w : List Token} {c : Condition} : OrExpr w c → w.IsChain Apart
  | .one h => AndExpr.apart h
  | .more h ht hb => apart_operator (OrExpr.apart h) ht (AndExpr.apart hb)

end

/-! ### Queries -/

theorem LambdaExpr.apart {w : List Token} {fn : Lambda Expr} (h : LambdaExpr w fn) : w.IsChain Apart := by
  obtain ⟨-, ha, hc⟩ := h
  exact apart_operator (.singleton _) ha hc.apart

/-- In a query, two operands never stand next to each other. -/
theorem LinqExpr.apart {w : List Token} {q : Query} (h : LinqExpr w q) : w.IsChain Apart := by
  induction h with
  | this => exact .singleton _
  | @call _ _ _ name l r _ _ _ hd _ hl hf hr ih =>
    have hargument := apart_between hf.apart (not_isOperand (t := r) (by simp [hr])) .nil
    have hcall := apart_between (.singleton name) (not_isOperand (t := l) (by simp [hl])) hargument
    exact apart_between ih (not_isOperand (by simp [hd])) hcall

end Grammar

end RecordQuery
