import RecordQuery.Proofs.Grammar.Chain
import RecordQuery.Proofs.Scan.Segmentation

/-! A derivation looks at the kinds and texts of tokens and not at their places: tokens of the same lexemes are
    derived as the same tree. -/

namespace RecordQuery

/-- The tokens have the same kinds and texts, wherever they stand. -/
def Alike (v w : List Token) : Prop := v.map Token.toLexeme = w.map Token.toLexeme

theorem Alike.of_nil {v : List Token} (h : Alike v []) : v = [] := List.map_eq_nil_iff.mp h

theorem Alike.of_cons {v w : List Token} {t : Token} (h : Alike v (t :: w)) :
    ∃ u us, v = u :: us ∧ u.kind = t.kind ∧ u.lexeme = t.lexeme ∧ Alike us w := by
  obtain ⟨u, us, rfl, hu, hus⟩ := List.map_eq_cons_iff.mp h
  obtain ⟨hk, ht⟩ := Lexeme.mk.inj hu
  exact ⟨u, us, rfl, hk, String.toList_inj.mp ht, hus⟩

theorem Alike.of_append {v w x : List Token} (h : Alike v (w ++ x)) :
    ∃ w' x', v = w' ++ x' ∧ Alike w' w ∧ Alike x' x := by
  rw [Alike, List.map_append] at h
  obtain ⟨w', x', rfl, hw, hx⟩ := List.map_eq_append_iff.mp h
  exact ⟨w', x', rfl, hw, hx⟩

/-- An operator between two parts. -/
theorem Alike.of_operator {v w x : List Token} {t : Token} (h : Alike v (w ++ t :: x)) :
    ∃ w' u x', v = w' ++ u :: x' ∧ Alike w' w ∧ u.kind = t.kind ∧ u.lexeme = t.lexeme ∧ Alike x' x := by
  obtain ⟨w', y, rfl, hw, hy⟩ := h.of_append
  obtain ⟨u, x', rfl, hk, ht, hx⟩ := hy.of_cons
  exact ⟨w', u, x', rfl, hw, hk, ht, hx⟩

theorem isOperator_congr {t u : Token} (hk : u.kind = t.kind) (ht : u.lexeme = t.lexeme) (symbol : String) :
    u.isOperator symbol = t.isOperator symbol := by
  rw [Token.isOperator, Token.isOperator, hk, ht]

namespace Grammar

/-- What tokens are derived as does not depend on where they stand. -/
def Respells {α : Type} (R : List Token → α → Prop) : Prop :=
  ∀ {w v : List Token} {a : α}, R w a → Alike v w → R v a

theorem respells_fields : Respells Fields := by
  intro w v names h hv
  induction h generalizing v with
  | nil =>
    obtain rfl := hv.of_nil
    exact .nil
  | cons hd hn _ ih =>
    obtain ⟨dot, v, rfl, hdot, -, hv⟩ := hv.of_cons
    obtain ⟨name, v, rfl, hk, ht, hv⟩ := hv.of_cons
    exact ht ▸ .cons (hdot.trans hd) (hk.trans hn) (ih hv)

theorem respells_memberAccess : Respells MemberAccess := by
  rintro _ v _ ⟨hn, hf⟩ hv
  obtain ⟨name, v, rfl, hk, ht, hv⟩ := hv.of_cons
  exact ht ▸ .mk (hk.trans hn) (respells_fields hf hv)

theorem respells_valueExpr : Respells ValueExpr := by
  intro w v e h hv
  cases h with
  | number ht hn =>
    obtain ⟨t, v, rfl, hk, hl, hv⟩ := hv.of_cons
    obtain rfl := hv.of_nil
    exact .number (hk.trans ht) (hl ▸ hn)
  | negative hs hm ht hn =>
    obtain ⟨sign, v, rfl, hks, hls, hv⟩ := hv.of_cons
    obtain ⟨t, v, rfl, hk, hl, hv⟩ := hv.of_cons
    obtain rfl := hv.of_nil
    exact .negative (hks.trans hs) (hls.trans hm) (hk.trans ht) (hl ▸ hn)
  | string ht =>
    obtain ⟨t, v, rfl, hk, hl, hv⟩ := hv.of_cons
    obtain rfl := hv.of_nil
    exact hl ▸ .string (hk.trans ht)
  | keyword ht hw =>
    obtain ⟨t, v, rfl, hk, hl, hv⟩ := hv.of_cons
    obtain rfl := hv.of_nil
    exact .keyword (hk.trans ht) (hl.trans hw)

theorem isCompareOp_congr {t u : Token} {op : CompareOp} (h : IsCompareOp t op) (hk : u.kind = t.kind)
    (hl : u.lexeme = t.lexeme) : IsCompareOp u op :=
  ⟨hk.trans h.1, hl.trans h.2⟩

mutual

theorem ComparisonExpr.respell {w v : List Token} {e : Expr} : ComparisonExpr w e → Alike v w → ComparisonExpr v e
  | .path hp, hv => .path (respells_memberAccess hp hv)
  | .pathFirst hp ht he, hv => by
    obtain ⟨x, u, y, rfl, hx, hk, hl, hy⟩ := hv.of_operator
    exact .pathFirst (respells_memberAccess hp hx) (isCompareOp_congr ht hk hl) (respells_valueExpr he hy)
  | .value he, hv => .value (respells_valueExpr he hv)
  | .valueFirst he ht hp, hv => by
    obtain ⟨x, u, y, rfl, hx, hk, hl, hy⟩ := hv.of_operator
    exact .valueFirst (respells_valueExpr he hx) (isCompareOp_congr ht hk hl) (respells_memberAccess hp hy)
  | .group hl h hr, hv => by
    obtain ⟨l, x, rfl, hkl, -, hx⟩ := hv.of_cons
    obtain ⟨y, r, z, rfl, hy, hkr, -, hz⟩ := hx.of_operator
    obtain rfl := hz.of_nil
    exact .group (hkl.trans hl) (OrExpr.respell h hy) (hkr.trans hr)
  | .negation ht hp, hv => by
    obtain ⟨u, x, rfl, hk, hl, hx⟩ := hv.of_cons
    exact .negation ((isOperator_congr hk hl "!").trans ht) (respells_memberAccess hp hx)

theorem AndChain.respell {w v : List Token} {c : Condition} : AndChain w c → Alike v w → AndChain v c
  | .two ha ht hb, hv => by
    obtain ⟨x, u, y, rfl, hx, hk, hl, hy⟩ := hv.of_operator
    exact .two (ComparisonExpr.respell ha hx) ((isOperator_congr hk hl "&&").trans ht) (ComparisonExpr.respell hb hy)
  | .more h ht hb, hv => by
    obtain ⟨x, u, y, rfl, hx, hk, hl, hy⟩ := hv.of_operator
    exact .more (AndChain.respell h hx) ((isOperator_congr hk hl "&&").trans ht) (ComparisonExpr.respell hb hy)

theorem AndExpr.respell {w v : List Token} {c : Condition} : AndExpr w c → Alike v w → AndExpr v c
  | .lone ha, hv => .lone (ComparisonExpr.respell ha hv)
  | .chain h, hv => .chain (AndChain.respell h hv)

theorem OrExpr.respell {w v : List Token} {c : Condition} : OrExpr w c → Alike v w → OrExpr v c
  | .one h, hv => .one (AndExpr.respell h hv)
  | .more h ht hb, hv => by
    obtain ⟨x, u, y, rfl, hx, hk, hl, hy⟩ := hv.of_operator
    exact .more (OrExpr.respell h hx) ((isOperator_congr hk hl "||").trans ht) (AndExpr.respell hb hy)

end

theorem respells_callTokens : Respells CallTokens := by
  rintro _ v _ ⟨hd, hn, hl, ⟨hx, ha, hc⟩, hr⟩ hv
  obtain ⟨dot, v, rfl, hkd, -, hv⟩ := hv.of_cons
  obtain ⟨name, v, rfl, hkn, hln, hv⟩ := hv.of_cons
  obtain ⟨l, v, rfl, hkl, -, hv⟩ := hv.of_cons
  obtain ⟨x, v, rfl, hkx, hlx, hv⟩ := hv.of_cons
  obtain ⟨arrow, v, rfl, hka, hla, hv⟩ := hv.of_cons
  obtain ⟨body, r, v, rfl, hbody, hkr, -, hv⟩ := hv.of_operator
  obtain rfl := hv.of_nil
  have hfn := LambdaExpr.mk (hkx.trans hx) ((isOperator_congr hka hla "=>").trans ha) (hc.respell hbody)
  rw [← hln, ← hlx]
  exact .mk (hkd.trans hd) (hkn.trans hn) (hkl.trans hl) hfn (hkr.trans hr)

theorem respells_callsTokens : Respells CallsTokens := by
  intro w v q h hv
  induction h generalizing v with
  | nil =>
    obtain rfl := hv.of_nil
    exact .nil
  | cons hc _ ih =>
    obtain ⟨x, y, rfl, hx, hy⟩ := hv.of_append
    exact .cons (respells_callTokens hc hx) (ih hy)

theorem respells_linqExpr : Respells LinqExpr := by
  intro w v q h hv
  obtain ⟨this, w, rfl, ht, hq⟩ := linqExpr_iff.mp h
  obtain ⟨u, v, rfl, hk, -, hv⟩ := hv.of_cons
  exact linqExpr_iff.mpr ⟨u, v, rfl, hk.trans ht, respells_callsTokens hq hv⟩

end Grammar

end RecordQuery
