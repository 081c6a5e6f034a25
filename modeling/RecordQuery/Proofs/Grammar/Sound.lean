import RecordQuery.Proofs.Basic
import RecordQuery.Proofs.Grammar.Chain

/-! Every function of the parser takes tokens that its rule derives, and gives the tree that they are
    derived with. The tokens that it leaves are the rest of the list. -/

namespace RecordQuery.Grammar
open Parsing

/-- The function `p` takes what `R` relates to its result, and leaves what comes after that. -/
def Sound {α : Type} (p : List Token → Parsing α) (R : List Token → α → Prop) : Prop :=
  ∀ {ts : List Token} {a : α} {rest : List Token}, p ts = .ok (a, rest) → ∃ w, ts = w ++ rest ∧ R w a

/-! ### Tokens -/

theorem token_eq_ok {kind : Token.Kind} {expected : Expected} {ts : List Token} {t : Token} {rest : List Token}
    (h : token kind expected ts = .ok (t, rest)) : ts = t :: rest ∧ t.kind = kind := by
  cases ts with
  | nil => cases h
  | cons u us =>
    simp only [token] at h
    split at h
    · rename_i hk
      cases h
      exact ⟨rfl, hk⟩
    · cases h

theorem name_eq_ok {ts : List Token} {s : String} {rest : List Token} (h : name ts = .ok (s, rest)) :
    ∃ t, ts = t :: rest ∧ t.kind = .identifier ∧ t.lexeme = s := by
  obtain ⟨⟨t, us⟩, ht, he⟩ := map_eq_ok h
  cases he
  obtain ⟨rfl, hk⟩ := token_eq_ok ht
  exact ⟨t, rfl, hk, rfl⟩

theorem nextIs_eq_true {symbol : String} {ts : List Token} (h : nextIs symbol ts = true) :
    ∃ t rest, ts = t :: rest ∧ t.isOperator symbol = true := by
  cases ts with
  | nil => cases h
  | cons t rest => exact ⟨t, rest, rfl, by simpa [nextIs] using h⟩

theorem CompareOp.symbol_of_ofSymbol? {s : String} {op : CompareOp} (h : CompareOp.ofSymbol? s = some op) :
    s = op.symbol := by
  unfold CompareOp.ofSymbol? at h
  repeat' split at h
  all_goals cases h <;> assumption

theorem Keyword.word_of_ofWord? {s : String} {k : Keyword} (h : Keyword.ofWord? s = some k) : s = k.word := by
  unfold Keyword.ofWord? at h
  repeat' split at h
  all_goals cases h <;> assumption

theorem compareOp?_eq_some {ts : List Token} {op : CompareOp} {rest : List Token}
    (h : compareOp? ts = some (op, rest)) : ∃ t, ts = t :: rest ∧ IsCompareOp t op := by
  cases ts with
  | nil => cases h
  | cons t us =>
    simp only [compareOp?] at h
    split at h
    · rename_i hk
      obtain ⟨o, ho, he⟩ := Option.map_eq_some_iff.mp h
      cases he
      exact ⟨t, rfl, hk, CompareOp.symbol_of_ofSymbol? ho⟩
    · cases h

/-! ### Paths and literals -/

theorem sound_fields : Sound fields Fields := by
  intro ts
  fun_induction fields ts with
  | case1 =>
    intro names rest h
    cases h
    exact ⟨[], rfl, .nil⟩
  | case2 => nofun
  | case3 t ht u us hu ih =>
    intro names rest h
    obtain ⟨⟨ns, r⟩, hr, he⟩ := map_eq_ok h
    cases he
    obtain ⟨w, rfl, hw⟩ := ih hr
    exact ⟨t :: u :: w, rfl, .cons ht hu hw⟩
  | case4 => nofun
  | case5 t ts =>
    intro names rest h
    cases h
    exact ⟨[], rfl, .nil⟩

theorem sound_path : Sound path MemberAccess := by
  intro ts p rest h
  unfold path at h
  split at h
  · cases h
  · rename_i root us hroot
    obtain ⟨t, rfl, ht, rfl⟩ := name_eq_ok hroot
    obtain ⟨⟨names, r⟩, hr, he⟩ := map_eq_ok h
    cases he
    obtain ⟨w, rfl, hw⟩ := sound_fields hr
    exact ⟨t :: w, rfl, .mk ht hw⟩

theorem number_eq_ok {digits : Token} {numeral : String} {ts rest : List Token} {e : Expr}
    (h : number digits numeral ts = .ok (e, rest)) :
    ∃ n, Text.readInt64? numeral.toList = some n ∧ e = .number n ∧ ts = rest := by
  unfold number at h
  split at h
  · rename_i n hn
    cases h
    exact ⟨n, hn, rfl, rfl⟩
  · cases h

theorem sound_literal : Sound literal ValueExpr := by
  intro ts e rest h
  cases ts with
  | nil => cases h
  | cons t ts =>
    simp only [literal] at h
    split at h
    · rename_i hk
      obtain ⟨n, hn, rfl, rfl⟩ := number_eq_ok h
      exact ⟨[t], rfl, .number hk hn⟩
    · rename_i hk
      split at h
      · rename_i hm
        split at h
        · cases h
        · rename_i digits us hd
          obtain ⟨rfl, hdk⟩ := token_eq_ok hd
          obtain ⟨n, hn, rfl, rfl⟩ := number_eq_ok h
          exact ⟨[t, digits], rfl, .negative hk hm hdk (by simpa using hn)⟩
      · cases h
    · rename_i hk
      cases h
      exact ⟨[t], rfl, .string hk⟩
    · rename_i hk
      split at h
      · rename_i k hw
        cases h
        exact ⟨[t], rfl, .keyword hk (Keyword.word_of_ofWord? hw)⟩
      · cases h
    · cases h

theorem sound_pathFirst : Sound pathFirst ComparisonExpr := by
  intro ts e rest h
  unfold pathFirst at h
  split at h
  · cases h
  · rename_i p us hp
    obtain ⟨v, rfl, hv⟩ := sound_path hp
    split at h
    · cases h
      exact ⟨v, rfl, .path hv⟩
    · rename_i op us' ho
      obtain ⟨t, rfl, ht⟩ := compareOp?_eq_some ho
      obtain ⟨⟨e', r⟩, he, heq⟩ := map_eq_ok h
      cases heq
      obtain ⟨w, rfl, hw⟩ := sound_literal he
      exact ⟨v ++ t :: w, by simp, .pathFirst hv ht hw⟩

theorem sound_literalFirst : Sound literalFirst ComparisonExpr := by
  intro ts e rest h
  unfold literalFirst at h
  split at h
  · cases h
  · rename_i e' us he
    obtain ⟨v, rfl, hv⟩ := sound_literal he
    split at h
    · cases h
      exact ⟨v, rfl, .value hv⟩
    · rename_i op us' ho
      obtain ⟨t, rfl, ht⟩ := compareOp?_eq_some ho
      obtain ⟨⟨p, r⟩, hp, heq⟩ := map_eq_ok h
      cases heq
      obtain ⟨w, rfl, hw⟩ := sound_path hp
      exact ⟨v ++ t :: w, by simp, .valueFirst hv ht hw⟩

/-! ### Conditions -/

section Conditions

variable {group : List Token → Parsing Condition}

theorem sound_closed {ts : List Token} {e : Expr} {rest : List Token} {l : Token} (hg : Sound group OrExpr)
    (hl : l.kind = .openParen) (h : closed group ts = .ok (e, rest)) :
    ∃ w, l :: ts = w ++ rest ∧ ComparisonExpr w e := by
  unfold closed at h
  split at h
  · cases h
  · rename_i c us hc
    obtain ⟨w, rfl, hw⟩ := hg hc
    obtain ⟨⟨r, us'⟩, hr, heq⟩ := map_eq_ok h
    cases heq
    obtain ⟨rfl, hrk⟩ := token_eq_ok hr
    exact ⟨l :: (w ++ [r]), by simp, .group hl hw hrk⟩

theorem sound_comparison (hg : Sound group OrExpr) : Sound (comparison group) ComparisonExpr := by
  intro ts e rest h
  cases ts with
  | nil => cases h
  | cons t ts =>
    simp only [comparison] at h
    split at h
    · exact sound_pathFirst h
    · exact sound_literalFirst h
    · exact sound_literalFirst h
    · exact sound_literalFirst h
    · exact sound_literalFirst h
    · rename_i hk
      exact sound_closed hg hk h
    · rename_i hk
      split at h
      · rename_i hm
        obtain ⟨⟨p, r⟩, hp, heq⟩ := map_eq_ok h
        cases heq
        obtain ⟨w, rfl, hw⟩ := sound_path hp
        exact ⟨t :: w, rfl, .negation (by simp [Token.isOperator, hk, hm]) hw⟩
      · cases h
    · cases h

theorem sound_moreOperands {α : Type} {symbol : String} {operand : List Token → Parsing α}
    {R : List Token → α → Prop} (ho : Sound operand R) (k : Nat) :
    Sound (moreOperands symbol operand k) (Operands symbol R) := by
  induction k with
  | zero =>
    intro ts as rest h
    cases h
    exact ⟨[], rfl, .nil⟩
  | succ k ih =>
    intro ts as rest h
    rw [moreOperands] at h
    split at h
    · rename_i hs
      obtain ⟨t, us, rfl, ht⟩ := nextIs_eq_true hs
      split at h
      · cases h
      · rename_i a us' ha
        obtain ⟨v, hv, hR⟩ := ho ha
        obtain ⟨⟨bs, r⟩, hbs, heq⟩ := map_eq_ok h
        cases heq
        obtain ⟨w, rfl, hw⟩ := ih hbs
        rw [List.tail_cons] at hv
        exact ⟨t :: (v ++ w), by simp [hv], .cons ht hR hw⟩
    · cases h
      exact ⟨[], rfl, .nil⟩

theorem operands_eq_ok {α : Type} {symbol : String} {operand : List Token → Parsing α} {R : List Token → α → Prop}
    (ho : Sound operand R) {bound : Nat} {ts : List Token} {a : α} {as : List α} {rest : List Token}
    (h : operands symbol operand bound ts = .ok ((a, as), rest)) :
    ∃ v w, ts = v ++ w ++ rest ∧ R v a ∧ Operands symbol R w as := by
  unfold operands at h
  split at h
  · cases h
  · rename_i b us hb
    obtain ⟨v, rfl, hv⟩ := ho hb
    obtain ⟨⟨bs, r⟩, hbs, heq⟩ := map_eq_ok h
    cases heq
    obtain ⟨w, rfl, hw⟩ := sound_moreOperands ho bound hbs
    exact ⟨v, w, by simp, hv, hw⟩

theorem sound_conjunction (hg : Sound group OrExpr) (bound : Nat) : Sound (conjunction group bound) AndExpr := by
  intro ts c rest h
  obtain ⟨⟨⟨a, as⟩, r⟩, ha, heq⟩ := map_eq_ok h
  cases heq
  obtain ⟨v, w, rfl, hv, hw⟩ := operands_eq_ok (sound_comparison hg) ha
  exact ⟨v ++ w, rfl, .of_operands hv hw⟩

theorem sound_disjunction (hg : Sound group OrExpr) (bound : Nat) : Sound (disjunction group bound) OrExpr := by
  intro ts c rest h
  obtain ⟨⟨⟨a, as⟩, r⟩, ha, heq⟩ := map_eq_ok h
  cases heq
  obtain ⟨v, w, rfl, hv, hw⟩ := operands_eq_ok (sound_conjunction hg bound) ha
  exact ⟨v ++ w, rfl, .of_operands (.one hv) hw⟩

end Conditions

theorem sound_condition (bound depth : Nat) : Sound (condition bound depth) OrExpr := by
  induction depth with
  | zero => nofun
  | succ depth ih => exact sound_disjunction ih bound

/-! ### Calls -/

theorem sound_lambda (bound : Nat) : Sound (lambda bound) LambdaExpr := by
  intro ts fn rest h
  unfold lambda at h
  split at h
  · cases h
  · rename_i parameter us hp
    obtain ⟨t, rfl, ht, rfl⟩ := name_eq_ok hp
    split at h
    · rename_i ha
      obtain ⟨arrow, us', rfl, harrow⟩ := nextIs_eq_true ha
      obtain ⟨⟨c, r⟩, hc, heq⟩ := map_eq_ok h
      cases heq
      obtain ⟨w, hw, hR⟩ := sound_condition bound (bound + 1) hc
      rw [List.tail_cons] at hw
      exact ⟨t :: arrow :: w, by simp [hw], .mk ht harrow hR⟩
    · cases h

theorem methodName_eq_ok {known : Option (List String)} {ts : List Token} {s : String} {rest : List Token}
    (h : methodName known ts = .ok (s, rest)) : name ts = .ok (s, rest) := by
  unfold methodName at h
  split at h
  · split at h
    · cases h
    · exact h
  · exact h

theorem call_eq_ok {known : Option (List String)} {bound : Nat} {dot : Token} {ts : List Token} {c : Call Expr}
    {rest : List Token} (hd : dot.kind = .dot) (h : call known bound ts = .ok (c, rest)) :
    ∃ w, dot :: ts = w ++ rest ∧ CallTokens w c := by
  unfold call at h
  split at h
  · cases h
  · rename_i method us hm
    obtain ⟨t, rfl, ht, rfl⟩ := name_eq_ok (methodName_eq_ok hm)
    split at h
    · cases h
    · rename_i l us hl
      obtain ⟨rfl, hlk⟩ := token_eq_ok hl
      split at h
      · cases h
      · rename_i fn us hf
        obtain ⟨w, rfl, hw⟩ := sound_lambda bound hf
        obtain ⟨⟨r, us⟩, hr, heq⟩ := map_eq_ok h
        cases heq
        obtain ⟨rfl, hrk⟩ := token_eq_ok hr
        exact ⟨dot :: t :: l :: (w ++ [r]), by simp, .mk hd ht hlk hw hrk⟩

theorem sound_calls (known : Option (List String)) (bound k : Nat) : Sound (calls known bound k) CallsTokens := by
  intro ts
  fun_induction calls known bound k ts with
  | case1 ts =>
    intro q rest h
    cases h
    exact ⟨[], rfl, .nil⟩
  | case2 =>
    intro q rest h
    cases h
    exact ⟨[], rfl, .nil⟩
  | case3 => nofun
  | case4 k t ts ht c us hc ih =>
    intro q rest h
    obtain ⟨⟨cs, r⟩, hcs, heq⟩ := map_eq_ok h
    cases heq
    obtain ⟨v, hv, hvc⟩ := call_eq_ok ht hc
    obtain ⟨w, rfl, hw⟩ := ih hcs
    exact ⟨v ++ w, by simp [hv], .cons hvc hw⟩
  | case5 k t ts =>
    intro q rest h
    cases h
    exact ⟨[], rfl, .nil⟩

theorem sound_chain (known : Option (List String)) : Sound (chain known) LinqExpr := by
  intro ts q rest h
  unfold chain at h
  split at h
  · cases h
  · rename_i t us ht
    obtain ⟨rfl, htk⟩ := token_eq_ok ht
    obtain ⟨w, rfl, hw⟩ := sound_calls _ _ _ h
    exact ⟨t :: w, rfl, linqExpr_iff.mpr ⟨t, w, rfl, htk, hw⟩⟩

end RecordQuery.Grammar
