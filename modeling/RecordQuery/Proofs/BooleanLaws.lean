import RecordQuery.Proofs.Derived
import RecordQuery.Proofs.Formula.Filter
import RecordQuery.Proofs.Keeps

/-! Conditions put together in the text of a query. A text that can be the condition of a call can stand in
    parentheses in any other condition, whatever it consists of, and there it says of a record what it says alone. So
    the operators between such texts, and calls one after another, follow the laws of Boolean algebra. -/

namespace RecordQuery
open Grammar Text

/-! ### Parts of conditions -/

theorem Cut.concat_close {p : Nat} {cs : List Char} {w : List Token} (h : Cut p cs w) :
    Cut p (cs ++ [')']) (w ++ [closeLexeme.token (p + cs.length)]) :=
  h.append (Cut.single (l := closeLexeme) rfl) fun _ => Lexeme.ends_of_mark (by decide) (by decide) (by decide)

theorem Cut.of_concat_close {p : Nat} {cs : List Char} {w : List Token} {t : Token}
    (h : Cut p (cs ++ [')']) (w ++ [t])) (ht : t.kind = .closeParen) : Cut p cs w := by
  obtain ⟨ds, gap, hsplit, hds, hv, hgap⟩ := h.of_concat
  rw [hv.written_eq (congrArg Token.Kind.sign? ht)] at hsplit
  rcases List.eq_nil_or_concat gap with rfl | ⟨gap, c, rfl⟩
  · rwa [List.append_cancel_right hsplit]
  · -- a blank after the parenthesis would be the last character
    rw [List.concat_eq_append, ← List.append_assoc, ← List.append_assoc] at hsplit
    obtain ⟨-, hlast⟩ := List.append_inj' hsplit rfl
    obtain rfl : ')' = c := List.singleton_inj.mp hlast
    exact absurd (hgap ')' (by simp)) (by decide)

theorem derives_true : Derives ComparisonExpr ['t', 'r', 'u', 'e'] (.keyword .true) := fun _ =>
  ⟨_, Cut.single (l := ⟨.keyword, ['t', 'r', 'u', 'e']⟩) List.mem_cons_self, .value (.keyword rfl rfl)⟩

/-- A condition in parentheses is an operand. -/
theorem Derives.group {cs : List Char} {c : Condition} (h : Derives OrExpr cs c) :
    Derives ComparisonExpr ('(' :: (cs ++ [')'])) (.logical c) := fun p => by
  obtain ⟨w, hw, hc⟩ := h (p + 1)
  have hcut := Cut.lexeme (p := p) (l := openLexeme) rfl (fun _ _ => trivial) hw.concat_close
  exact ⟨_, hcut, .group rfl hc rfl⟩

/-- Two parts with an operator between them. -/
theorem Derives.join {α β γ : Type} {R : List Token → α → Prop} {S : List Token → β → Prop} {T : List Token → γ → Prop}
    {cs ds : List Char} {symbol : String} {a : α} {b : β} {c : γ} (ha : Derives R cs a) (hb : Derives S ds b)
    (hs : (operatorLexeme symbol).Valid)
    (hT : ∀ v t w, R v a → t.isOperator symbol = true → S w b → T (v ++ t :: w) c) :
    Derives T (cs ++ ' ' :: (symbol.toList ++ ' ' :: ds)) c := fun p => by
  obtain ⟨v, hv, hva⟩ := ha p
  obtain ⟨w, hw, hwb⟩ := hb (p + cs.length + 1 + symbol.toList.length + 1)
  have hspace : Blanks [' '] := by decide
  have hends (l : Lexeme) (rest : List Char) : l.Ends (' ' :: rest) := Lexeme.ends_blank (hspace ' ' (by simp))
  have hsymbol := Cut.lexeme (p := p + cs.length + 1) hs (hends _ _) (Cut.blanks hspace hw)
  have hjoin := hv.append (Cut.blanks hspace hsymbol) (hends · _)
  exact ⟨_, hjoin, hT _ _ _ hva (isOperator_of_toLexeme (Lexeme.toLexeme_token _ _)) hwb⟩

/-! ### Calls -/

/-- The text of a call of `Where`. -/
def whereCall (condition : String) : String := ".Where(x => " ++ condition ++ ")"

/-- The tokens in front of the condition. -/
def whereTokens : List Token :=
  [⟨.dot, some ".", 0⟩, ⟨.identifier, some "Where", 1⟩, ⟨.openParen, some "(", 6⟩, ⟨.identifier, some "x", 7⟩,
    ⟨.operator, some "=>", 9⟩]

/-- They end in front of a blank, so they are the same whatever the condition is. -/
theorem cut_whereCall_iff {condition : String} {w : List Token} :
    Cut 0 (whereCall condition).toList w ↔ ∃ v, w = whereTokens ++ v ∧ Cut 12 (condition.toList ++ [')']) v := by
  have hcut : Cut 0 ".Where(x => ".toList whereTokens := cut_iff_listFrom.mpr (by decide +kernel)
  have hstop : ∀ t ∈ whereTokens, t.stop ≠ 12 := by decide
  rw [whereCall, String.toList_append, String.toList_append, List.append_assoc]
  exact hcut.append_iff fun t ht h => absurd h (hstop t ht)

theorem callsTokens_where_iff {v : List Token} {c : Call Expr} :
    CallsTokens (whereTokens ++ v) [c] ↔
      ∃ w body, (∃ r, v = w ++ [r] ∧ r.kind = .closeParen) ∧ OrExpr w body ∧ c = ⟨"Where", ⟨"x", body⟩⟩ := by
  constructor
  · intro h
    generalize hw : whereTokens ++ v = w at h
    cases h with
    | cons hc hnil =>
      cases hnil
      obtain ⟨-, -, -, ⟨-, -, hbody⟩, hr⟩ := hc
      simp only [whereTokens, List.cons_append, List.nil_append, List.append_nil, List.cons.injEq] at hw
      obtain ⟨rfl, rfl, rfl, rfl, rfl, rfl⟩ := hw
      exact ⟨_, _, ⟨_, rfl, hr⟩, hbody, rfl⟩
  · rintro ⟨w, body, ⟨r, rfl, hr⟩, hbody, rfl⟩
    have hfn : LambdaExpr (⟨.identifier, some "x", 7⟩ :: ⟨.operator, some "=>", 9⟩ :: w) ⟨"x", body⟩ :=
      .mk rfl rfl hbody
    have hcall : CallTokens (whereTokens ++ (w ++ [r])) ⟨"Where", ⟨"x", body⟩⟩ := .mk rfl rfl rfl hfn hr
    simpa using CallsTokens.cons hcall .nil

/-- The text is a single call of `Where` if and only if the condition is the text of a condition. -/
theorem derives_whereCall_iff {condition : String} {c : Call Expr} :
    Derives CallsTokens (whereCall condition).toList [c] ↔
      ∃ body, Derives OrExpr condition.toList body ∧ c = ⟨"Where", ⟨"x", body⟩⟩ := by
  constructor
  · intro h
    obtain ⟨w, hcut, hw⟩ := h 0
    obtain ⟨v, rfl, hv⟩ := cut_whereCall_iff.mp hcut
    obtain ⟨w, body, ⟨r, rfl, hr⟩, hbody, rfl⟩ := callsTokens_where_iff.mp hw
    exact ⟨body, (hv.of_concat_close hr).derives OrExpr.respell hbody, rfl⟩
  · rintro ⟨body, hbody, rfl⟩
    obtain ⟨v, hv, hvb⟩ := hbody 12
    have hcut := cut_whereCall_iff.mpr ⟨_, rfl, hv.concat_close⟩
    exact hcut.derives respells_callsTokens (callsTokens_where_iff.mpr ⟨v, body, ⟨_, rfl, rfl⟩, hvb, rfl⟩)

theorem parse_whereCall {condition : String} {body : Condition} (h : Derives OrExpr condition.toList body) :
    parse ("this" ++ whereCall condition) = .ok [⟨"Where", ⟨"x", body⟩⟩] :=
  parse_this_append_iff.mpr (derives_whereCall_iff.mpr ⟨body, h, rfl⟩)

theorem filter_whereCall {condition : String} {body : Condition} {f : Predicate}
    (h : Derives OrExpr condition.toList body) (hf : ∀ r, (Expr.logical body).holds r = f r) (records : List Value) :
    filter ("this" ++ whereCall condition) records = .ok (records.filter f) := by
  rw [filter_of_parse (parse_whereCall h) (by simp)]
  exact congrArg Except.ok (List.filter_congr fun r _ => by simp [Query.keeps, hf])

theorem filter_whereCall_whereCall {first second : String} {a b : Condition} (ha : Derives OrExpr first.toList a)
    (hb : Derives OrExpr second.toList b) (records : List Value) :
    filter ("this" ++ whereCall first ++ whereCall second) records =
      .ok (records.filter fun r => (Expr.logical a).holds r && (Expr.logical b).holds r) := by
  rw [filter_of_parse (parse_append (parse_whereCall ha) (parse_whereCall hb)) (by simp)]
  exact congrArg Except.ok (List.filter_congr fun r _ => by simp [Query.keeps])

/-! ### Laws -/

/-- Whatever the texts of two conditions are, a call with each of them one after the other keeps the records that a
    single call with both of them keeps. A call with either of them keeps what one of the two calls keeps. A condition
    in parentheses, with `true` after it or without, says what it says alone. -/
theorem filter_boolean {first second : String} {p q : Call Expr} (hp : parse ("this" ++ whereCall first) = .ok [p])
    (hq : parse ("this" ++ whereCall second) = .ok [q]) :
    ∃ f g : Predicate, ∀ records,
      filter ("this" ++ whereCall first) records = .ok (records.filter f) ∧
      filter ("this" ++ whereCall second) records = .ok (records.filter g) ∧
      filter ("this" ++ whereCall first ++ whereCall second) records = .ok (records.filter fun r => f r && g r) ∧
      filter ("this" ++ whereCall ("(" ++ first ++ ") && (" ++ second ++ ")")) records =
        .ok (records.filter fun r => f r && g r) ∧
      filter ("this" ++ whereCall ("(" ++ first ++ ") || (" ++ second ++ ")")) records =
        .ok (records.filter fun r => f r || g r) ∧
      filter ("this" ++ whereCall ("(" ++ first ++ ") && true")) records = .ok (records.filter f) ∧
      filter ("this" ++ whereCall ("(" ++ first ++ ")")) records = .ok (records.filter f) := by
  obtain ⟨a, ha, rfl⟩ := derives_whereCall_iff.mp (parse_this_append_iff.mp hp)
  obtain ⟨b, hb, rfl⟩ := derives_whereCall_iff.mp (parse_this_append_iff.mp hq)
  have hand : (operatorLexeme "&&").Valid := valid_operatorLexeme (by decide)
  have hor : (operatorLexeme "||").Valid := valid_operatorLexeme (by decide)
  have hboth : Derives OrExpr ("(" ++ first ++ ") && (" ++ second ++ ")").toList ⟨.and, .logical a, .logical b⟩ := by
    simpa using ha.group.join hb.group hand fun _ _ _ hv ht hw => OrExpr.one (.chain (.two hv ht hw))
  have heither : Derives OrExpr ("(" ++ first ++ ") || (" ++ second ++ ")").toList
      ⟨.or, .logical ⟨.and, .logical a, .keyword .true⟩, .logical ⟨.and, .logical b, .keyword .true⟩⟩ := by
    simpa using ha.group.join hb.group hor fun _ _ _ hv ht hw => OrExpr.more (.one (.lone hv)) ht (.lone hw)
  have htrue : Derives OrExpr ("(" ++ first ++ ") && true").toList ⟨.and, .logical a, .keyword .true⟩ := by
    simpa using ha.group.join derives_true hand fun _ _ _ hv ht hw => OrExpr.one (.chain (.two hv ht hw))
  have halone : Derives OrExpr ("(" ++ first ++ ")").toList ⟨.and, .logical a, .keyword .true⟩ := by
    simpa using ha.group.imp fun _ hw => OrExpr.one (.lone hw)
  refine ⟨(Expr.logical a).holds, (Expr.logical b).holds, fun records => ⟨filter_whereCall ha (fun _ => rfl) records,
    filter_whereCall hb (fun _ => rfl) records, filter_whereCall_whereCall ha hb records, ?_, ?_, ?_, ?_⟩⟩
  · exact filter_whereCall hboth (fun r => by rw [Expr.holds]) records
  · exact filter_whereCall heither (fun r => by rw [Expr.holds, holds_single, holds_single]) records
  · exact filter_whereCall htrue (holds_single _) records
  · exact filter_whereCall halone (holds_single _) records

/-- Both conditions have operators, parentheses or blanks of their own, and one of them has a parenthesis in a string. -/
theorem filter_boolean_quoted :
    process "this.Where(x => (x == \")\" || x > 1) && ( ( x\t!= 2 ) ))" [.string ")", .integer 1, .integer 2] =
      .ok "[\n  \")\"\n]" := by
  have hsingle (text : String) (h : (parse text).map List.length = .ok 1) : ∃ c, parse text = .ok [c] := by
    obtain ⟨q, hq, hlen⟩ := map_eq_ok h
    obtain ⟨c, rfl⟩ := List.length_eq_one_iff.mp hlen
    exact ⟨c, hq⟩
  obtain ⟨p, hp⟩ := hsingle ("this" ++ whereCall "x == \")\" || x > 1") (by decide +kernel)
  obtain ⟨q, hq⟩ := hsingle ("this" ++ whereCall " ( x\t!= 2 ) ") (by decide +kernel)
  obtain ⟨f, g, hlaws⟩ := filter_boolean hp hq
  obtain ⟨-, -, hchain, hboth, -⟩ := hlaws [.string ")", .integer 1, .integer 2]
  have hprocess : process ("this" ++ whereCall "x == \")\" || x > 1" ++ whereCall " ( x\t!= 2 ) ")
      [.string ")", .integer 1, .integer 2] = .ok "[\n  \")\"\n]" := by decide +kernel
  rw [process, hchain, ← hboth] at hprocess
  exact hprocess

end RecordQuery
