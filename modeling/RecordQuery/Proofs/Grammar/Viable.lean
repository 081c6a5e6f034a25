import RecordQuery.Proofs.Grammar.Lookahead
import RecordQuery.Proofs.Grammar.Sound

/-! Where a rule stops, the tokens before the reported one are the start of something that the rule
    derives: a parser never goes past a token after which nothing can follow any more. -/

namespace RecordQuery.Grammar
open Parsing

variable {α β : Type}

/-! ### Starts -/

/-- The tokens can be completed to something that the rule derives. -/
def Starts (R : List Token → α → Prop) (v : List Token) : Prop := ∃ w a, R (v ++ w) a

theorem Starts.of {R : List Token → α → Prop} {v : List Token} {a : α} (h : R v a) : Starts R v :=
  ⟨[], a, by simpa using h⟩

/-- The error reports the token `t` after the tokens `v`: its position, its kind and its text. A numeral out of range is
    reported with the minus sign that may be the last of the tokens `v`. -/
inductive Locates (v : List Token) (t : Token) : ParseError → Prop
  | unexpected (expected : Expected) : Locates v t ⟨t.position, expected, t.kind, t.text⟩
  | number (hk : t.kind = .number) (hr : Text.readInt64? t.lexeme.toList = none) :
      Locates v t ⟨t.position, .numberInRange, .number, some t.lexeme⟩
  | negative {u : List Token} {sign : Token} (hv : v = u ++ [sign]) (hs : sign.kind = .addSub) (hm : sign.lexeme = "-")
      (hk : t.kind = .number) (hr : Text.readInt64? ("-" ++ t.lexeme).toList = none) :
      Locates v t ⟨t.position, .numberInRange, .number, some ("-" ++ t.lexeme)⟩

theorem Locates.append {v : List Token} {t : Token} {e : ParseError} (u : List Token) (h : Locates v t e) :
    Locates (u ++ v) t e := by
  cases h with
  | unexpected expected => exact .unexpected expected
  | number hk hr => exact .number hk hr
  | negative hv hs hm hk hr => exact .negative (by rw [hv, List.append_assoc]) hs hm hk hr

/-- The tokens before a stop can be completed, and the token after them is reported. -/
structure Viable (R : List Token → α → Prop) (v : List Token) (stop : Stop) : Prop where
  starts : Starts R v
  locates : ∀ t rest last, stop.found = t :: rest → Locates v t (stop.error last)

theorem Starts.viable {R : List Token → α → Prop} {v : List Token} {expected : Expected} {ts : List Token}
    (h : Starts R v) : Viable R v (.unexpected expected ts) := by
  refine ⟨h, fun t rest last hfound => ?_⟩
  obtain rfl : ts = t :: rest := hfound
  exact .unexpected expected

/-- What completes a part also completes a whole that has the part after the tokens `u`. -/
theorem Viable.within {R : List Token → α → Prop} {T : List Token → β → Prop} {v : List Token} {stop : Stop}
    (h : Viable R v stop) (u : List Token) (hR : ∀ w a, R w a → Starts T (u ++ w)) : Viable T (u ++ v) stop := by
  obtain ⟨⟨w, a, hw⟩, hlocates⟩ := h
  obtain ⟨w', b, hb⟩ := hR _ a hw
  exact ⟨⟨w ++ w', b, by simpa using hb⟩, fun t rest last hfound => (hlocates t rest last hfound).append u⟩

/-- Where `p` stops, the tokens before the reported one meet the condition. -/
def Stops (p : List Token → Parsing α) (C : List Token → Stop → Prop) : Prop :=
  ∀ ts stop, p ts = .error stop → ∃ v, ts = v ++ stop.found ∧ C v stop

/-! ### Ways to read -/

section Ways

variable {p : List Token → Parsing α} {C C' : List Token → Stop → Prop}

theorem stops_give (a : α) : Stops (give a) C := nofun

theorem stops_halt {expected : Expected} (hC : ∀ ts, C [] (.unexpected expected ts)) :
    Stops (halt expected : List Token → Parsing α) C := by
  intro ts stop h
  cases h
  exact ⟨[], rfl, hC ts⟩

theorem stops_look {f : Token.Kind × String → List Token → Parsing α} (h : ∀ next, Stops (f next) C) :
    Stops (look f) C :=
  fun ts => h (ahead ts) ts

theorem Stops.imp (h : Stops p C) (hC : ∀ v stop, C v stop → C' v stop) : Stops p C' := by
  intro ts stop hts
  obtain ⟨v, hv, hv'⟩ := h ts stop hts
  exact ⟨v, hv, hC v stop hv'⟩

theorem Stops.andThen {R : List Token → α → Prop} {q : α → List Token → Parsing β} (hp : Stops p C) (hs : Sound p R)
    (hq : ∀ v a, R v a → Stops (q a) fun u => C (v ++ u)) : Stops (andThen p q) C := by
  intro ts stop h
  cases hr : p ts with
  | error stop' =>
    rw [andThen_of_error hr] at h
    cases h
    exact hp ts _ hr
  | ok r =>
    obtain ⟨a, rest⟩ := r
    rw [andThen_of_ok hr] at h
    obtain ⟨v, rfl, hv⟩ := hs hr
    obtain ⟨u, rfl, hu⟩ := hq v a hv _ _ h
    exact ⟨v ++ u, (List.append_assoc v u _).symm, hu⟩

theorem Stops.andThen_give {f : α → β} (hp : Stops p C) : Stops (Parsing.andThen p fun a => give (f a)) C := by
  intro ts stop h
  cases hr : p ts with
  | error stop' =>
    rw [andThen_of_error hr] at h
    cases h
    exact hp ts _ hr
  | ok r =>
    rw [andThen_of_ok hr] at h
    cases h

theorem stops_take {q : Token → List Token → Parsing β} {accepts : Token.Kind × String → Prop}
    [DecidablePred accepts] {expected : Expected} (hC : ∀ ts, C [] (.unexpected expected ts))
    (hq : ∀ t, accepts (t.kind, t.lexeme) → Stops (q t) fun u => C (t :: u)) :
    Stops (andThen (takeIf accepts expected) q) C := by
  intro ts stop h
  cases ts with
  | nil =>
    cases h
    exact ⟨[], rfl, hC []⟩
  | cons t ts =>
    by_cases ha : accepts (t.kind, t.lexeme)
    · rw [andThen_takeIf ha] at h
      obtain ⟨u, rfl, hu⟩ := hq t ha _ _ h
      exact ⟨t :: u, rfl, hu⟩
    · rw [andThen_of_error (takeIf_of_not ha)] at h
      cases h
      exact ⟨[], rfl, hC (t :: ts)⟩

end Ways

/-! ### Paths and literals -/

theorem starts_memberAccess : Starts MemberAccess [] :=
  ⟨[⟨.identifier, some "x", 0⟩], _, .mk rfl .nil⟩

theorem starts_valueExpr : Starts ValueExpr [] :=
  ⟨[⟨.string, some "", 0⟩], _, .string rfl⟩

theorem sound_name : Sound name fun v s => ∃ t, v = [t] ∧ t.kind = .identifier ∧ t.lexeme = s := by
  intro ts s rest h
  obtain ⟨t, rfl, ht, hs⟩ := name_eq_ok h
  exact ⟨[t], rfl, t, rfl, ht, hs⟩

theorem stops_name {C : List Token → Stop → Prop} (hC : ∀ ts, C [] (.unexpected .identifier ts)) : Stops name C := by
  rw [name_eq]
  exact stops_take hC fun t _ => stops_give t.lexeme

theorem stops_fields : Stops fields (Viable Fields) := by
  have hname {dot : Token} (hd : dot.kind = .dot) : Starts Fields [dot] :=
    ⟨[⟨.identifier, some "x", 0⟩], _, .cons hd rfl .nil⟩
  intro ts
  fun_induction fields ts with
  | case1 =>
    intro stop h
    cases h
  | case2 t ht =>
    intro stop h
    cases h
    exact ⟨[t], rfl, (hname ht).viable⟩
  | case3 t ht u us hu ih =>
    intro stop h
    obtain ⟨v, rfl, hv⟩ := ih _ (map_eq_error h)
    exact ⟨t :: u :: v, rfl, hv.within [t, u] fun w names hw => .of (.cons ht hu hw)⟩
  | case4 t ht u us hu =>
    intro stop h
    cases h
    exact ⟨[t], rfl, (hname ht).viable⟩
  | case5 =>
    intro stop h
    cases h

theorem stops_path : Stops path (Viable MemberAccess) := by
  rw [path_eq]
  refine (stops_name fun ts => starts_memberAccess.viable).andThen sound_name ?_
  rintro v s ⟨t, rfl, ht, rfl⟩
  refine (stops_fields.imp fun u stop hu => ?_).andThen_give
  exact hu.within [t] fun w names hw => .of (.mk ht hw)

/-- A numeral out of range is reported after the sign, which has been taken. -/
theorem stops_signed {sign : String} {C : List Token → Stop → Prop} (hC : ∀ ts, C [] (.unexpected .number ts))
    (hr : ∀ digits rest, digits.kind = .number → Text.readInt64? (sign ++ digits.lexeme).toList = none →
      C [] (.outOfRange digits (sign ++ digits.lexeme) rest)) : Stops (signed sign) C := by
  intro ts stop h
  by_cases hk : (ahead ts).1 = .number
  · cases ts with
    | nil => cases hk
    | cons t ts =>
      rw [signed_cons hk, number] at h
      split at h
      · cases h
      · rename_i hread
        cases h
        exact ⟨[], rfl, hr t ts hk hread⟩
  · rw [signed_of_ne hk] at h
    cases h
    exact ⟨[], rfl, hC ts⟩

theorem stops_literal : Stops literal (Viable ValueExpr) := by
  have hhalt {expected : Expected} (ts : List Token) : Viable ValueExpr [] (.unexpected expected ts) :=
    starts_valueExpr.viable
  rw [literal_eq]
  refine stops_look fun next => ?_
  split
  · refine stops_signed hhalt fun digits rest hk hr => ⟨starts_valueExpr, fun t us last hfound => ?_⟩
    obtain ⟨rfl, rfl⟩ := List.cons.inj hfound
    rw [String.empty_append] at hr ⊢
    rw [Stop.error, hk]
    exact .number hk hr
  · split
    · refine stops_take hhalt fun sign hsign => ?_
      obtain ⟨hs, hm⟩ := Prod.ext_iff.mp hsign
      have hstart : Starts ValueExpr [sign] := ⟨[⟨.number, some "1", 0⟩], .number (-1), .negative hs hm rfl (by decide)⟩
      refine stops_signed (fun ts => hstart.viable) fun digits rest hk hr => ⟨hstart, fun t us last hfound => ?_⟩
      obtain ⟨rfl, rfl⟩ := List.cons.inj hfound
      rw [Stop.error, hk]
      exact .negative (List.nil_append _).symm hs hm hk hr
    · exact stops_halt hhalt
  · exact stops_take hhalt fun t _ => stops_give _
  · split
    · exact stops_take hhalt fun t _ => stops_give _
    · exact stops_halt hhalt
  · exact stops_halt hhalt

/-! ### Conditions -/

theorem starts_comparisonExpr : Starts ComparisonExpr [] := by
  obtain ⟨w, p, hw⟩ := starts_memberAccess
  exact ⟨w, _, .path hw⟩

theorem starts_andExpr : Starts AndExpr [] := by
  obtain ⟨w, e, hw⟩ := starts_comparisonExpr
  exact ⟨w, _, .lone hw⟩

theorem starts_orExpr : Starts OrExpr [] := by
  obtain ⟨w, c, hw⟩ := starts_andExpr
  exact ⟨w, c, .one hw⟩

theorem isCompareOp_of_comparing? {t : Token} {op : CompareOp} (h : comparing? (t.kind, t.lexeme) = some op) :
    IsCompareOp t op := by
  unfold comparing? at h
  split at h
  · rename_i hk
    exact ⟨hk, CompareOp.symbol_of_ofSymbol? h⟩
  · cases h

theorem stops_compared {P : List Token → α → Prop} {Q : List Token → β → Prop} {side : List Token → Parsing α}
    {other : List Token → Parsing β} {alone : α → Expr} {both : CompareOp → α → β → Expr} (hs : Stops side (Viable P))
    (hsound : Sound side P) (ho : Stops other (Viable Q)) (halone : ∀ v a, P v a → ComparisonExpr v (alone a))
    (hboth : ∀ v t w a b op, P v a → IsCompareOp t op → Q w b → ComparisonExpr (v ++ t :: w) (both op a b)) :
    Stops (compared side other alone both) (Viable ComparisonExpr) := by
  have hside : Stops side (Viable ComparisonExpr) :=
    hs.imp fun v stop hv => hv.within [] fun w a hw => .of (halone w a hw)
  refine hside.andThen hsound fun v a hv => stops_look fun next => ?_
  split
  · exact stops_give _
  · rename_i op hop
    have hend : Starts ComparisonExpr (v ++ []) := .of (by simpa using halone v a hv)
    refine stops_take (fun ts => hend.viable) fun t ht => ?_
    refine (ho.imp fun u stop hu => ?_).andThen_give
    rw [List.append_cons]
    refine hu.within (v ++ [t]) fun w b hw => ?_
    rw [← List.append_cons]
    exact .of (hboth v t w a b op hv (isCompareOp_of_comparing? (ht ▸ hop)) hw)

theorem stops_pathFirst : Stops pathFirst (Viable ComparisonExpr) := by
  rw [pathFirst_eq]
  exact stops_compared stops_path sound_path stops_literal (fun v p hp => .path hp)
    fun v t w p e op hp ht he => .pathFirst hp ht he

theorem stops_literalFirst : Stops literalFirst (Viable ComparisonExpr) := by
  rw [literalFirst_eq]
  exact stops_compared stops_literal sound_literal stops_path (fun v e he => .value he)
    fun v t w e p op he ht hp => .valueFirst he ht hp

section Conditions

variable {group : List Token → Parsing Condition} (hg : Sound group OrExpr) (hstops : Stops group (Viable OrExpr))

include hg hstops

theorem stops_closed {l : Token} (hl : l.kind = .openParen) :
    Stops (closed group) fun u => Viable ComparisonExpr (l :: u) := by
  have hopen {w : List Token} {c : Condition} (hw : OrExpr w c) : Starts ComparisonExpr (l :: w) :=
    ⟨[⟨.closeParen, some ")", 0⟩], _, .group hl hw rfl⟩
  rw [closed_eq]
  refine Stops.andThen ?_ hg fun w c hw => stops_take (fun ts => ?_) fun t _ => stops_give _
  · exact hstops.imp fun v stop hv => hv.within [l] fun w c hw => hopen hw
  · simpa using (hopen hw).viable

theorem stops_comparison : Stops (comparison group) (Viable ComparisonExpr) := by
  have hhalt {expected : Expected} (ts : List Token) : Viable ComparisonExpr [] (.unexpected expected ts) :=
    starts_comparisonExpr.viable
  rw [comparison_eq]
  refine stops_look fun next => ?_
  split
  · exact stops_pathFirst
  · exact stops_literalFirst
  · exact stops_literalFirst
  · exact stops_literalFirst
  · exact stops_literalFirst
  · exact stops_take hhalt fun l hl => stops_closed hg hstops hl
  · split
    · refine stops_take hhalt fun t ht => (stops_path.imp fun v stop hv => ?_).andThen_give
      have hnot : t.isOperator "!" = true := by simpa [Token.isOperator] using ht
      exact hv.within [t] fun w p hp => .of (.negation hnot hp)
    · exact stops_halt hhalt
  · exact stops_halt hhalt

omit hg hstops

variable {symbol : String} {operand : List Token → Parsing α} {R : List Token → α → Prop}

theorem stops_moreOperands (ho : Sound operand R) (hstops : Stops operand (Viable R)) (k : Nat) :
    Stops (moreOperands symbol operand k) (Viable (Operands symbol R)) := by
  induction k with
  | zero => exact stops_give []
  | succ k ih =>
    have hnil : Starts (Operands symbol R) [] := .of .nil
    rw [moreOperands_eq]
    refine stops_look fun next => ?_
    split
    · refine stops_take (fun ts => hnil.viable) fun t ht => ?_
      have hsym : t.isOperator symbol = true := by simpa [Token.isOperator] using ht
      refine Stops.andThen (hstops.imp fun v stop hv => ?_) ho fun v a hv => ?_
      · exact hv.within [t] fun w a hw => .of (by simpa using Operands.cons hsym hw .nil)
      · refine (ih.imp fun u stop hu => ?_).andThen_give
        exact hu.within (t :: v) fun w as hw => .of (.cons hsym hv hw)
    · exact stops_give []

theorem stops_operands {T : List Token → β → Prop} {f : α → List α → β} (ho : Sound operand R)
    (hstops : Stops operand (Viable R)) (hT : ∀ v w a as, R v a → Operands symbol R w as → T (v ++ w) (f a as))
    (bound : Nat) : Stops (operands symbol operand bound) (Viable T) := by
  have halone {v : List Token} {a : α} (hv : R v a) : Starts T v := .of (by simpa using hT v [] a [] hv .nil)
  rw [operands_eq]
  refine Stops.andThen (hstops.imp fun v stop hv => ?_) ho fun v a hv => ?_
  · exact hv.within [] fun w a hw => halone hw
  · refine ((stops_moreOperands ho hstops bound).imp fun u stop hu => ?_).andThen_give
    exact hu.within v fun w as hw => .of (hT v w a as hv hw)

include hg hstops

theorem stops_conjunction (bound : Nat) : Stops (conjunction group bound) (Viable AndExpr) := by
  rw [conjunction_eq]
  exact (stops_operands (sound_comparison hg) (stops_comparison hg hstops)
    (fun v w a as hv hw => AndExpr.of_operands hv hw) bound).andThen_give

theorem stops_disjunction (bound : Nat) : Stops (disjunction group bound) (Viable OrExpr) := by
  rw [disjunction_eq]
  exact (stops_operands (sound_conjunction hg bound) (stops_conjunction hg hstops bound)
    (fun v w a as hv hw => OrExpr.of_operands (.one hv) hw) bound).andThen_give

end Conditions

/-- Where the bound on the depth is met no token of a group has been taken. -/
theorem stops_condition (bound depth : Nat) : Stops (condition bound depth) (Viable OrExpr) := by
  induction depth with
  | zero => exact stops_halt fun ts => starts_orExpr.viable
  | succ depth ih => exact stops_disjunction (sound_condition bound depth) ih bound

/-! ### Calls -/

theorem starts_lambdaExpr_of_name {name : Token} (hn : name.kind = .identifier) : Starts LambdaExpr [name] := by
  obtain ⟨w, c, hw⟩ := starts_orExpr
  exact ⟨⟨.operator, some "=>", 0⟩ :: w, _, .mk hn rfl hw⟩

theorem starts_lambdaExpr : Starts LambdaExpr [] := by
  obtain ⟨w, c, hw⟩ := starts_orExpr
  exact ⟨⟨.identifier, some "x", 0⟩ :: ⟨.operator, some "=>", 0⟩ :: w, _, .mk rfl rfl hw⟩

theorem stops_lambda (bound : Nat) : Stops (lambda bound) (Viable LambdaExpr) := by
  rw [lambda_eq]
  refine (stops_name fun ts => starts_lambdaExpr.viable).andThen sound_name ?_
  rintro v s ⟨name, rfl, hn, rfl⟩
  refine stops_take (fun ts => (starts_lambdaExpr_of_name hn).viable) fun arrow harrow => ?_
  have ha : arrow.isOperator "=>" = true := by simpa [Token.isOperator] using harrow
  refine ((stops_condition bound (bound + 1)).imp fun v stop hv => ?_).andThen_give
  exact hv.within [name, arrow] fun w c hw => .of (.mk hn ha hw)

section Calls

variable {dot : Token} (hd : dot.kind = .dot)

include hd

theorem starts_callTokens_of_lambda {name l : Token} {w : List Token} {fn : Lambda Expr} (hn : name.kind = .identifier)
    (hl : l.kind = .openParen) (hw : LambdaExpr w fn) : Starts CallTokens (dot :: name :: l :: w) :=
  ⟨[⟨.closeParen, some ")", 0⟩], _, .mk hd hn hl hw rfl⟩

theorem starts_callTokens_of_name {name : Token} (hn : name.kind = .identifier) : Starts CallTokens [dot, name] := by
  obtain ⟨w, fn, hw⟩ := starts_lambdaExpr
  exact ⟨⟨.openParen, some "(", 0⟩ :: (w ++ [⟨.closeParen, some ")", 0⟩]), _, .mk hd hn rfl hw rfl⟩

theorem starts_callTokens : Starts CallTokens [dot] := by
  let name : Token := ⟨.identifier, some "f", 0⟩
  obtain ⟨w, c, hc⟩ := starts_callTokens_of_name hd (show name.kind = .identifier from rfl)
  exact ⟨name :: w, c, hc⟩

theorem sound_call (bound : Nat) : Sound (call none bound) fun v c => CallTokens (dot :: v) c := by
  intro ts c rest h
  obtain ⟨w, hw, hc⟩ := call_eq_ok hd h
  cases w with
  | nil => cases hc
  | cons t v =>
    obtain ⟨rfl, rfl⟩ := List.cons.inj hw
    exact ⟨v, rfl, hc⟩

theorem stops_call (bound : Nat) : Stops (call none bound) fun v => Viable CallTokens (dot :: v) := by
  rw [call_eq, methodName_none]
  refine (stops_name fun ts => (starts_callTokens hd).viable).andThen sound_name ?_
  rintro v s ⟨name, rfl, hn, rfl⟩
  refine stops_take (fun ts => (starts_callTokens_of_name hd hn).viable) fun l hl => ?_
  refine Stops.andThen ((stops_lambda bound).imp fun v stop hv => ?_) (sound_lambda bound) fun w fn hw => ?_
  · exact hv.within [dot, name, l] fun w fn hw => starts_callTokens_of_lambda hd hn hl hw
  · refine stops_take (fun ts => ?_) fun r _ => stops_give _
    simpa using (starts_callTokens_of_lambda hd hn hl hw).viable

end Calls

theorem stops_calls (bound k : Nat) : Stops (calls none bound k) (Viable CallsTokens) := by
  have hnil : Starts CallsTokens [] := .of .nil
  induction k with
  | zero => exact stops_give []
  | succ k ih =>
    rw [calls_eq]
    refine stops_look fun next => ?_
    split
    · refine stops_take (fun ts => hnil.viable) fun dot hd => ?_
      refine Stops.andThen ((stops_call hd bound).imp fun v stop hv => ?_) (sound_call hd bound) fun v c hc => ?_
      · exact hv.within [] fun w c hw => .of (by simpa using CallsTokens.cons hw .nil)
      · refine (ih.imp fun u stop hu => ?_).andThen_give
        exact hu.within (dot :: v) fun w cs hw => .of (.cons hc hw)
    · exact stops_give []

theorem stops_chain : Stops (chain none) (Viable LinqExpr) := by
  intro ts
  rw [chain_eq]
  have hthis : Starts LinqExpr [] := ⟨[⟨.this, some "this", 0⟩], [], .this rfl⟩
  refine stops_take (fun ts => hthis.viable) (fun t ht => ?_) ts
  refine (stops_calls _ _).imp fun v stop hv => ?_
  exact hv.within [t] fun w q hw => .of (linqExpr_iff.mpr ⟨t, w, rfl, ht, hw⟩)

/-- Where the parser stops, the tokens before the reported one can be completed to a query. -/
theorem stops_query : Stops (query none) (Viable LinqExpr) := by
  intro ts stop h
  cases hc : chain none ts with
  | error stop' =>
    obtain rfl : stop' = stop := Except.error.inj ((query_of_chain_error hc).symm.trans h)
    exact stops_chain ts stop' hc
  | ok r =>
    obtain ⟨q, rest⟩ := r
    obtain ⟨w, rfl, hw⟩ := sound_chain none hc
    rw [query, hc] at h
    have hstop : ending rest = .error stop := map_eq_error h
    cases rest with
    | nil => cases hstop
    | cons t rest =>
      rw [ending] at hstop
      split at hstop
      · cases hstop
      · cases hstop
        exact ⟨w, rfl, (Starts.of hw).viable⟩

end RecordQuery.Grammar
