import RecordQuery.Proofs.Decimal
import RecordQuery.Proofs.Formula.Basic
import RecordQuery.Proofs.Grammar.Chain
import RecordQuery.Proofs.Meaning

/-! The tokens of a written formula are derived by the grammar, and the tree of the derivation holds of the
    same records. The tree need not have the formula's own grouping, since it nests every chain to the left;
    what is kept is the meaning. -/

namespace RecordQuery
open Grammar Text

/-! ### Meaning -/

theorem find?_eq_lookup (name : String) (fields : List (String × Value)) :
    (fields.find? fun f => f.1 = name).map (·.2) = fields.lookup name := by
  induction fields with
  | nil => rfl
  | cons f fields ih =>
    obtain ⟨k, v⟩ := f
    rw [lookup_cons, List.find?_cons]
    by_cases h : name = k
    · simp [h]
    · simp [h, Ne.symm h, ih]

theorem fetch_eq_walk (names : List String) (v : Value) : fetch names v = v.walk names := by
  induction names generalizing v with
  | nil => rfl
  | cons name names ih =>
    cases v with
    | object fields =>
      rw [fetch, Value.walk, Value.get?, ← find?_eq_lookup]
      cases fields.find? fun f => f.1 = name with
      | none => rfl
      | some f => exact ih f.2
    | _ => rfl

theorem CompareOp.relates_eq_holds (op : CompareOp) (a b : Value) : op.relates a b = op.holds a b := by
  cases op with
  | equal | notEqual => rfl
  | less | greater | lessEqual | greaterEqual =>
    simp only [relates, holds]
    cases a.order? b with
    | none => rfl
    | some o => cases o <;> rfl

/-! ### Tokens of single parts -/

theorem toLexeme_eq {t : Token} {l : Lexeme} (h : t.toLexeme = l) :
    t.kind = l.kind ∧ t.lexeme = String.ofList l.text := by
  subst h
  exact ⟨rfl, by simp [Token.toLexeme]⟩

theorem isOperator_of_toLexeme {t : Token} {symbol : String} (h : t.toLexeme = operatorLexeme symbol) :
    t.isOperator symbol = true := by
  obtain ⟨hk, ht⟩ := toLexeme_eq h
  simp [Token.isOperator, hk, ht, operatorLexeme]

theorem isCompareOp_of_toLexeme {t : Token} {op : CompareOp} (h : t.toLexeme = operatorLexeme op.symbol) :
    IsCompareOp t op := by
  obtain ⟨hk, ht⟩ := toLexeme_eq h
  exact ⟨hk, by simpa [operatorLexeme] using ht⟩

theorem fields_of_lexemes {w : List Token} {names : List String} (h : w.map Token.toLexeme = fieldLexemes names) :
    Grammar.Fields w names := by
  induction names generalizing w with
  | nil =>
    obtain rfl := List.map_eq_nil_iff.mp h
    exact .nil
  | cons s names ih =>
    obtain ⟨dot, w, rfl, hd, h⟩ := List.map_eq_cons_iff.mp h
    obtain ⟨name, w, rfl, hn, h⟩ := List.map_eq_cons_iff.mp h
    have hf := Grammar.Fields.cons (toLexeme_eq hd).1 (toLexeme_eq hn).1 (ih h)
    rwa [(toLexeme_eq hn).2, nameLexeme, String.ofList_toList] at hf

theorem memberAccess_of_lexemes {w : List Token} {p : Path} (h : w.map Token.toLexeme = p.lexemes) :
    MemberAccess w p := by
  obtain ⟨name, w, rfl, hn, h⟩ := List.map_eq_cons_iff.mp h
  have hm := MemberAccess.mk (toLexeme_eq hn).1 (fields_of_lexemes h)
  rwa [(toLexeme_eq hn).2, nameLexeme, String.ofList_toList] at hm

/-- The tree of a literal. -/
def Literal.expr : Literal → Expr
  | .number n => .number n
  | .string s => .string s
  | .keyword k => .keyword k

theorem valueExpr_of_lexemes {w : List Token} {l : Literal} (h : w.map Token.toLexeme = l.lexemes) :
    ValueExpr w l.expr := by
  cases l with
  | number n =>
    have hn := readInt64?_numeralOfInt n
    rw [numeralOfInt_eq] at hn
    simp only [Literal.lexemes] at h
    split at h
    · rename_i hneg
      obtain ⟨sign, w, rfl, hs, h⟩ := List.map_eq_cons_iff.mp h
      obtain ⟨t, w, rfl, ht, h⟩ := List.map_eq_cons_iff.mp h
      obtain rfl := List.map_eq_nil_iff.mp h
      rw [if_pos hneg] at hn
      exact .negative (toLexeme_eq hs).1 (toLexeme_eq hs).2 (toLexeme_eq ht).1 (by simpa [(toLexeme_eq ht).2] using hn)
    · rename_i hpos
      obtain ⟨t, w, rfl, ht, h⟩ := List.map_eq_cons_iff.mp h
      obtain rfl := List.map_eq_nil_iff.mp h
      rw [if_neg hpos] at hn
      exact .number (toLexeme_eq ht).1 (by simpa [(toLexeme_eq ht).2] using hn)
  | string s =>
    obtain ⟨t, w, rfl, ht, h⟩ := List.map_eq_cons_iff.mp h
    obtain rfl := List.map_eq_nil_iff.mp h
    have hv := ValueExpr.string (toLexeme_eq ht).1
    rwa [(toLexeme_eq ht).2, String.ofList_toList] at hv
  | keyword k =>
    obtain ⟨t, w, rfl, ht, h⟩ := List.map_eq_cons_iff.mp h
    obtain rfl := List.map_eq_nil_iff.mp h
    exact .keyword (toLexeme_eq ht).1 (by simpa using (toLexeme_eq ht).2)

/-! ### Tokens around a condition -/

theorem comparisonExpr_group {w : List Token} {ls : List Lexeme}
    (h : w.map Token.toLexeme = openLexeme :: (ls ++ [closeLexeme])) :
    ∃ v, v.map Token.toLexeme = ls ∧ ∀ c, OrExpr v c → ComparisonExpr w (.logical c) := by
  obtain ⟨l, w, rfl, hl, h⟩ := List.map_eq_cons_iff.mp h
  obtain ⟨v, last, rfl, hv, h⟩ := List.map_eq_append_iff.mp h
  obtain ⟨r, last, rfl, hr, h⟩ := List.map_eq_cons_iff.mp h
  obtain rfl := List.map_eq_nil_iff.mp h
  exact ⟨v, hv, fun c hc => .group (toLexeme_eq hl).1 hc (toLexeme_eq hr).1⟩

/-- The written form of a call, from that of its condition. -/
def callLexemes (method parameter : String) (body : List Lexeme) : List Lexeme :=
  dotLexeme :: nameLexeme method :: openLexeme :: nameLexeme parameter :: operatorLexeme "=>" ::
    (body ++ [closeLexeme])

theorem callTokens_of_lexemes {w : List Token} {method parameter : String} {body : List Lexeme}
    (h : w.map Token.toLexeme = callLexemes method parameter body) :
    ∃ v, v.map Token.toLexeme = body ∧ ∀ c, OrExpr v c → CallTokens w ⟨method, ⟨parameter, c⟩⟩ := by
  obtain ⟨dot, w, rfl, hdot, h⟩ := List.map_eq_cons_iff.mp h
  obtain ⟨name, w, rfl, hname, h⟩ := List.map_eq_cons_iff.mp h
  obtain ⟨l, w, rfl, hl, h⟩ := List.map_eq_cons_iff.mp h
  obtain ⟨x, w, rfl, hx, h⟩ := List.map_eq_cons_iff.mp h
  obtain ⟨arrow, w, rfl, harrow, h⟩ := List.map_eq_cons_iff.mp h
  obtain ⟨v, last, rfl, hv, h⟩ := List.map_eq_append_iff.mp h
  obtain ⟨r, last, rfl, hr, h⟩ := List.map_eq_cons_iff.mp h
  obtain rfl := List.map_eq_nil_iff.mp h
  refine ⟨v, hv, fun c hc => ?_⟩
  have hfn := LambdaExpr.mk (toLexeme_eq hx).1 (isOperator_of_toLexeme harrow) hc
  have hcall := CallTokens.mk (toLexeme_eq hdot).1 (toLexeme_eq hname).1 (toLexeme_eq hl).1 hfn (toLexeme_eq hr).1
  simpa [toLexeme_eq hname, toLexeme_eq hx, nameLexeme] using hcall

/-! ### Chains -/

/-- What a condition that is an operand alone holds of. -/
theorem holds_single (e : Expr) (r : Value) : (Expr.logical ⟨.and, e, .keyword .true⟩).holds r = e.holds r := by
  simp [Expr.holds, Expr.valueIn, Keyword.value, Value.isTruthy]

/-- One more operand of `&&` after an operand alone or a chain. -/
theorem Grammar.AndExpr.concat {v w : List Token} {t : Token} {a : Condition} {b : Expr} (ha : AndExpr v a)
    (ht : t.isOperator "&&" = true) (hb : ComparisonExpr w b) :
    ∃ c, AndChain (v ++ t :: w) c ∧ ∀ r, (Expr.logical c).holds r = ((Expr.logical a).holds r && b.holds r) := by
  cases ha with
  | lone ha => exact ⟨_, .two ha ht hb, fun r => by rw [holds_single, Expr.holds]⟩
  | chain h => exact ⟨_, .more h ht hb, fun r => by rw [Expr.holds]⟩

/-- A chain of `&&` after another one makes a single chain, in which the operands of the second one are put
    to the right of the first one by one. -/
theorem Grammar.AndExpr.append_chain {v : List Token} {t : Token} {a : Condition} (ha : AndExpr v a)
    (ht : t.isOperator "&&" = true) {w : List Token} {b : Condition} (hb : AndChain w b) :
    ∃ c, AndChain (v ++ t :: w) c ∧
      ∀ r, (Expr.logical c).holds r = ((Expr.logical a).holds r && (Expr.logical b).holds r) := by
  induction hb using AndChain.induction with
  | two hx hu hy =>
    obtain ⟨c, hc, hholds⟩ := ha.concat ht hx
    obtain ⟨d, hd, hholds'⟩ := (AndExpr.chain hc).concat hu hy
    rw [List.append_assoc] at hd
    exact ⟨d, hd, fun r => by rw [hholds', hholds, Bool.and_assoc, ← Expr.holds]⟩
  | more _ hu hy ih =>
    obtain ⟨c, hc, hholds⟩ := ih
    obtain ⟨d, hd, hholds'⟩ := (AndExpr.chain hc).concat hu hy
    rw [List.append_assoc] at hd
    exact ⟨d, hd, fun r => by rw [hholds', hholds, Bool.and_assoc, ← Expr.holds]⟩

theorem Grammar.AndExpr.append {v w : List Token} {t : Token} {a b : Condition} (ha : AndExpr v a)
    (ht : t.isOperator "&&" = true) (hb : AndExpr w b) :
    ∃ c, AndExpr (v ++ t :: w) c ∧
      ∀ r, (Expr.logical c).holds r = ((Expr.logical a).holds r && (Expr.logical b).holds r) := by
  cases hb with
  | lone hb =>
    obtain ⟨c, hc, hholds⟩ := ha.concat ht hb
    exact ⟨c, .chain hc, fun r => by rw [hholds, holds_single]⟩
  | chain hb =>
    obtain ⟨c, hc, hholds⟩ := ha.append_chain ht hb
    exact ⟨c, .chain hc, hholds⟩

theorem Grammar.OrExpr.append {v : List Token} {t : Token} {a : Condition} (ha : OrExpr v a)
    (ht : t.isOperator "||" = true) {w : List Token} {b : Condition} (hb : OrExpr w b) :
    ∃ c, OrExpr (v ++ t :: w) c ∧
      ∀ r, (Expr.logical c).holds r = ((Expr.logical a).holds r || (Expr.logical b).holds r) := by
  induction hb using OrExpr.induction with
  | one hb => exact ⟨_, .more ha ht hb, fun r => by rw [Expr.holds]⟩
  | more _ hu hy ih =>
    obtain ⟨c, hc, hholds⟩ := ih
    have hmore := OrExpr.more hc hu hy
    rw [List.append_assoc] at hmore
    exact ⟨_, hmore, fun r => by rw [Expr.holds, hholds, Bool.or_assoc, ← Expr.holds]⟩

/-! ### Formulas -/

/-- The tokens are derived as a condition that holds of the records that the formula holds of. -/
def Formula.DerivedBy (f : Formula) (R : List Token → Condition → Prop) (w : List Token) : Prop :=
  ∃ c, R w c ∧ ∀ r, (Expr.logical c).holds r = f.holds r

theorem Formula.derivedBy_lone {f : Formula} {w : List Token} {e : Expr} (he : ComparisonExpr w e)
    (h : ∀ r, e.holds r = f.holds r) : f.DerivedBy AndExpr w :=
  ⟨_, .lone he, fun r => by rw [holds_single, h]⟩

theorem Literal.valueIn_expr (l : Literal) (r : Value) : l.expr.valueIn r = l.value := by
  cases l with
  | number n | string s => rfl
  | keyword k => cases k <;> rfl

theorem Literal.holds_expr (l : Literal) (r : Value) : l.expr.holds r = l.value.isTruthy := by
  rw [← l.valueIn_expr r]
  cases l <;> rfl

/-- Every list of tokens of the formula's written form is derived as an operand of `||`, and as an operand of
    `&&` too unless the formula is a disjunction. -/
def Formula.Derived (f : Formula) : Prop :=
  (f.isOr = false → ∀ w, w.map Token.toLexeme = f.lexemes → f.DerivedBy AndExpr w) ∧
    ∀ w, w.map Token.toLexeme = f.lexemes → f.DerivedBy OrExpr w

theorem Formula.derived_of_and {f : Formula}
    (h : ∀ w, w.map Token.toLexeme = f.lexemes → f.DerivedBy AndExpr w) : f.Derived := by
  refine ⟨fun _ => h, fun w hw => ?_⟩
  obtain ⟨c, hc, hholds⟩ := h w hw
  exact ⟨c, .one hc, hholds⟩

/-- A group makes an operand of `&&` of a disjunction. -/
theorem Formula.Derived.grouped {f : Formula} (hf : f.Derived) {w : List Token}
    (h : w.map Token.toLexeme = f.grouped f.lexemes) : f.DerivedBy AndExpr w := by
  unfold Formula.grouped at h
  split at h
  · obtain ⟨v, hv, hgroup⟩ := comparisonExpr_group h
    obtain ⟨c, hc, hholds⟩ := hf.2 v hv
    exact derivedBy_lone (hgroup c hc) hholds
  · rename_i hor
    exact hf.1 (by simpa using hor) w h

theorem Formula.derived (f : Formula) : f.Derived := by
  induction f with
  | pathFirst p op l =>
    refine derived_of_and fun w h => ?_
    obtain ⟨v, w, rfl, hp, h⟩ := List.map_eq_append_iff.mp h
    obtain ⟨t, w, rfl, ht, hl⟩ := List.map_eq_cons_iff.mp h
    refine derivedBy_lone (.pathFirst (memberAccess_of_lexemes hp) (isCompareOp_of_toLexeme ht)
      (valueExpr_of_lexemes hl)) fun r => ?_
    rw [Expr.holds, Formula.holds, l.valueIn_expr, fetch_eq_walk, CompareOp.relates_eq_holds, Expr.valueIn]
  | literalFirst l op p =>
    refine derived_of_and fun w h => ?_
    obtain ⟨v, w, rfl, hl, h⟩ := List.map_eq_append_iff.mp h
    obtain ⟨t, w, rfl, ht, hp⟩ := List.map_eq_cons_iff.mp h
    refine derivedBy_lone (.valueFirst (valueExpr_of_lexemes hl) (isCompareOp_of_toLexeme ht)
      (memberAccess_of_lexemes hp)) fun r => ?_
    rw [Expr.holds, Formula.holds, l.valueIn_expr, fetch_eq_walk, CompareOp.relates_eq_holds, Expr.valueIn]
  | path p =>
    refine derived_of_and fun w h => derivedBy_lone (.path (memberAccess_of_lexemes h)) fun r => ?_
    simp only [Expr.holds, Formula.holds, Expr.valueIn, fetch_eq_walk]
  | literal l =>
    exact derived_of_and fun w h => derivedBy_lone (.value (valueExpr_of_lexemes h)) l.holds_expr
  | negation p =>
    refine derived_of_and fun w h => ?_
    obtain ⟨t, w, rfl, ht, hp⟩ := List.map_eq_cons_iff.mp h
    refine derivedBy_lone (.negation (isOperator_of_toLexeme ht) (memberAccess_of_lexemes hp)) fun r => ?_
    simp only [Expr.holds, Formula.holds, fetch_eq_walk]
  | and a b iha ihb =>
    refine derived_of_and fun w h => ?_
    obtain ⟨v, w, rfl, ha, h⟩ := List.map_eq_append_iff.mp h
    obtain ⟨t, w, rfl, ht, hb⟩ := List.map_eq_cons_iff.mp h
    obtain ⟨c, hc, hholds⟩ := iha.grouped ha
    obtain ⟨d, hd, hholds'⟩ := ihb.grouped hb
    obtain ⟨e, he, hand⟩ := hc.append (isOperator_of_toLexeme ht) hd
    exact ⟨e, he, fun r => by rw [hand, hholds, hholds', Formula.holds]⟩
  | or a b iha ihb =>
    refine ⟨fun hor => Bool.noConfusion hor, fun w h => ?_⟩
    obtain ⟨v, w, rfl, ha, h⟩ := List.map_eq_append_iff.mp h
    obtain ⟨t, w, rfl, ht, hb⟩ := List.map_eq_cons_iff.mp h
    obtain ⟨c, hc, hholds⟩ := iha.2 v ha
    obtain ⟨d, hd, hholds'⟩ := ihb.2 w hb
    obtain ⟨e, he, hor⟩ := OrExpr.append hc (isOperator_of_toLexeme ht) hd
    exact ⟨e, he, fun r => by rw [hor, hholds, hholds', Formula.holds]⟩

end RecordQuery
