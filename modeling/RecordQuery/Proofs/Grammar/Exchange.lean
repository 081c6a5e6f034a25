import RecordQuery.Proofs.Grammar.Context
import RecordQuery.Proofs.Grammar.Known
import RecordQuery.Proofs.Grammar.Located
import RecordQuery.Proofs.Grammar.Respell

/-! Another literal in the place of one. A parser that gets past a literal goes the same way with any other literal
    there, and its result has the other literal at the same place and is the same everywhere else. With a numeral that
    is out of range it stops at the numeral. -/

namespace RecordQuery

namespace Parsing

variable {α β : Type}

/-! ### Literals -/

/-- What a literal comes to: a tree, or a numeral that is out of range and its digits. -/
abbrev Outcome := Except (Token × String) Expr

/-- What a parser gives that puts a literal into its result and leaves `rest`. With a numeral out of range it has not
    taken what comes behind the numeral. -/
def filled (f : Expr → α) (rest behind : List Token) : Outcome → Parsing α
  | .ok e => .ok (f e, rest)
  | .error (digits, numeral) => .error (.outOfRange digits numeral behind)

/-- The tokens are read as a literal, whatever comes behind them. -/
def ReadsAs (l : List Token) (r : Outcome) : Prop := ∀ behind, literal (l ++ behind) = filled id behind behind r

/-- The literal that is exchanged for others. -/
def nullAt (position : Nat) : Token := ⟨.keyword, some "null", position⟩

/-- The kinds of the tokens that literals start with. -/
def literalStarts : List Token.Kind := [.number, .string, .keyword, .addSub]

theorem readsAs_null (position : Nat) : ReadsAs [nullAt position] (.ok (.keyword .null)) :=
  fun _ => rfl

theorem ReadsAs.starts {l : List Token} {r : Outcome} (h : ReadsAs l r) (behind : List Token) :
    (ahead (l ++ behind)).1 ∈ literalStarts := by
  cases l with
  | nil =>
    have hnil := h []
    rcases r with ⟨digits, numeral⟩ | e <;> cases hnil
  | cons t l =>
    have hcons := h []
    rw [List.append_nil, literal] at hcons
    rw [List.cons_append, ahead]
    cases hk : t.kind with
    | number | string | keyword | addSub => simp [literalStarts]
    | _ =>
      rw [hk] at hcons
      rcases r with ⟨digits, numeral⟩ | e <;> cases hcons

/-! ### Ways to read -/

/-- Where `p` reads tokens with a literal among them, it reads them in the same way with every other literal instead:
    either it does not get to the literal, or it puts it into its result in one of the ways `F`. -/
def Exchanges (F : Set (Expr → α)) (p : List Token → Parsing α) : Prop :=
  ∀ v position w a rest, p (v ++ nullAt position :: w) = .ok (a, rest) →
    (∃ u, ∀ l r, ReadsAs l r → p (v ++ (l ++ w)) = .ok (a, u ++ (l ++ w))) ∨
      ∃ f ∈ F, ∀ l r, ReadsAs l r → p (v ++ (l ++ w)) = filled f rest w r

/-- What `q` does after a part with a literal in it does not depend on the literal. -/
def Carries (G : Set (Expr → β)) (f : Expr → α) (q : α → List Token → Parsing β) : Prop :=
  ∀ e ts b rest, q (f e) ts = .ok (b, rest) → ∃ g ∈ G, ∀ e', q (f e') ts = .ok (g e', rest)

section Ways

variable {F : Set (Expr → α)} {G : Set (Expr → β)} {p : List Token → Parsing α}

theorem exchanges_give (a : α) : Exchanges F (give a) := by
  intro v position w b rest h
  cases h
  exact .inl ⟨v, fun _ _ _ => rfl⟩

theorem exchanges_halt (expected : Expected) : Exchanges F (halt expected) := nofun

theorem exchanges_takeIf {F : Set (Expr → Token)} {accepts : Token.Kind × String → Prop} [DecidablePred accepts]
    {expected : Expected} (h : ¬accepts (.keyword, "null")) : Exchanges F (takeIf accepts expected) := by
  intro v position w a rest ht
  cases v with
  | nil => exact absurd ((takeIf_of_not h).symm.trans ht) nofun
  | cons t v =>
    rw [List.cons_append, takeIf] at ht
    split at ht
    · rename_i hacc
      cases ht
      exact .inl ⟨v, fun l r _ => if_pos hacc⟩
    · cases ht

/-- All literals have to look alike to a parser that looks ahead. -/
theorem exchanges_look {f : Token.Kind × String → List Token → Parsing α} (h : ∀ next, Exchanges F (f next))
    (hstarts : ∀ next, next.1 ∈ literalStarts → f next = f (.keyword, "null")) : Exchanges F (look f) := by
  intro v position w a rest hlook
  cases v with
  | nil =>
    have hnext {l : List Token} {r : Outcome} (hl : ReadsAs l r) : look f (l ++ w) = f (.keyword, "null") (l ++ w) := by
      rw [look, hstarts _ (hl.starts w)]
    rcases h _ [] position w a rest hlook with ⟨u, hu⟩ | ⟨g, hg, hg'⟩
    · exact .inl ⟨u, fun l r hl => (hnext hl).trans (hu l r hl)⟩
    · exact .inr ⟨g, hg, fun l r hl => (hnext hl).trans (hg' l r hl)⟩
  | cons t v => exact h _ (t :: v) position w a rest hlook

theorem Exchanges.andThen {q : α → List Token → Parsing β} (hp : Exchanges F p) (hq : ∀ a, Exchanges G (q a))
    (hc : ∀ f ∈ F, Carries G f q) : Exchanges G (andThen p q) := by
  intro v position w b rest h
  cases hr : p (v ++ nullAt position :: w) with
  | error stop =>
    rw [andThen_of_error hr] at h
    cases h
  | ok r =>
    obtain ⟨a, ts⟩ := r
    rw [andThen_of_ok hr] at h
    have hnull := readsAs_null position
    rcases hp v position w a ts hr with ⟨u, hu⟩ | ⟨f, hf, hfill⟩
    · -- The literal is left to `q`.
      obtain rfl : ts = u ++ nullAt position :: w := by
        have := hr.symm.trans (hu _ _ hnull)
        cases this
        rfl
      rcases hq a u position w b rest h with ⟨x, hx⟩ | ⟨g, hg, hfill⟩
      · exact .inl ⟨x, fun l r hl => (andThen_of_ok (hu l r hl)).trans (hx l r hl)⟩
      · exact .inr ⟨g, hg, fun l r hl => (andThen_of_ok (hu l r hl)).trans (hfill l r hl)⟩
    · obtain rfl : a = f (.keyword .null) := by
        have := hr.symm.trans (hfill _ _ hnull)
        cases this
        rfl
      obtain ⟨g, hg, hcarry⟩ := hc f hf _ ts b rest h
      refine .inr ⟨g, hg, fun l r hl => ?_⟩
      rcases r with ⟨digits, numeral⟩ | e
      · exact andThen_of_error (hfill l _ hl)
      · exact (andThen_of_ok (hfill l _ hl)).trans (hcarry e)

/-- A parser that takes no literal leaves it to the next one. -/
theorem Exchanges.before {q : α → List Token → Parsing β} (hp : Exchanges ∅ p) (hq : ∀ a, Exchanges G (q a)) :
    Exchanges G (Parsing.andThen p q) :=
  hp.andThen hq fun _ hf => hf.elim

theorem carries_give {f : Expr → α} {h : α → β} (hg : (fun e => h (f e)) ∈ G) :
    Carries G f fun a => give (h a) := by
  intro e ts b rest hok
  cases hok
  exact ⟨_, hg, fun _ => rfl⟩

theorem carries_andThen {γ : Type} {f : Expr → α} {p : List Token → Parsing γ} {q : α → γ → List Token → Parsing β}
    (h : ∀ c, Carries G f fun a => q a c) : Carries G f fun a => andThen p (q a) := by
  intro e ts b rest hok
  change andThen p (q (f e)) ts = _ at hok
  cases hr : p ts with
  | error stop =>
    rw [andThen_of_error hr] at hok
    cases hok
  | ok r =>
    rw [andThen_of_ok hr] at hok
    obtain ⟨g, hg, hcarry⟩ := h r.1 e r.2 b rest hok
    exact ⟨g, hg, fun e' => (andThen_of_ok hr).trans (hcarry e')⟩

theorem carries_look {f : Expr → α} {q : α → Token.Kind × String → List Token → Parsing β}
    (h : ∀ next, Carries G f fun a => q a next) : Carries G f fun a => look (q a) :=
  fun e ts => h (ahead ts) e ts

end Ways

/-! ### Paths and literals -/

theorem exchanges_name : Exchanges ∅ name := by
  rw [name_eq]
  exact (exchanges_takeIf (by simp)).before fun _ => exchanges_give _

theorem exchanges_fields : Exchanges ∅ fields := by
  intro v position w a rest h
  left
  generalize hts : v ++ nullAt position :: w = ts at h
  fun_induction fields ts generalizing v a with
  | case1 => cases v <;> cases hts
  | case2 => cases h
  | case3 t ht u us hu ih =>
    obtain ⟨⟨names, more⟩, hmore, heq⟩ := map_eq_ok h
    cases heq
    rcases v with _ | ⟨_, _ | ⟨_, v⟩⟩
    · cases hts
      cases ht
    · cases hts
      cases hu
    · cases hts
      obtain ⟨x, hx⟩ := ih v names rfl hmore
      refine ⟨x, fun l r hl => ?_⟩
      simp [fields, ht, hu, hx l r hl, Except.map]
  | case4 => cases h
  | case5 t ts ht =>
    cases h
    refine ⟨v, fun l r hl => ?_⟩
    have hahead : (ahead (v ++ (l ++ w))).1 ≠ .dot := by
      cases v with
      | nil =>
        intro hdot
        have hstarts := hl.starts w
        rw [List.nil_append] at hdot
        simp [hdot, literalStarts] at hstarts
      | cons u v =>
        cases hts
        exact ht
    rw [fields_eq, look, if_neg hahead]
    rfl

theorem exchanges_path : Exchanges ∅ path := by
  rw [path_eq]
  exact exchanges_name.before fun _ => exchanges_fields.before fun _ => exchanges_give _

theorem exchanges_literal : Exchanges (Set.range Expr.Context.fill) literal := by
  intro v position w e rest h
  cases v with
  | nil =>
    have hrest : rest = w := by
      have := h.symm.trans (readsAs_null position w)
      cases this
      rfl
    subst hrest
    exact .inr ⟨id, ⟨.hole, rfl⟩, fun l r hl => hl rest⟩
  | cons t v =>
    -- A literal of two tokens is a sign and a numeral, so it does not reach the literal behind it.
    left
    obtain ⟨x, hx, hvalue⟩ := Grammar.sound_literal h
    have hread (more : List Token) : literal (x ++ more) = .ok (e, more) := hvalue.read
    cases hvalue with
    | number | string | keyword =>
      cases hx
      exact ⟨v, fun l r _ => hread _⟩
    | negative _ _ hk =>
      cases v with
      | nil =>
        cases hx
        cases hk
      | cons u v =>
        cases hx
        exact ⟨v, fun l r _ => hread _⟩

/-! ### Conditions -/

theorem comparing?_of_literalStarts {next : Token.Kind × String} (h : next.1 ∈ literalStarts) :
    comparing? next = none := by
  refine if_neg fun hk => ?_
  rw [hk] at h
  simp [literalStarts] at h

theorem exchanges_compared {F : Set (Expr → α)} {G : Set (Expr → β)} {side : List Token → Parsing α}
    {other : List Token → Parsing β} {alone : α → Expr} {both : CompareOp → α → β → Expr} (hs : Exchanges F side)
    (ho : Exchanges G other) (halone : ∀ f ∈ F, (fun e => alone (f e)) ∈ inExpr)
    (hleft : ∀ f ∈ F, ∀ op b, (fun e => both op (f e) b) ∈ inExpr)
    (hright : ∀ g ∈ G, ∀ op a, (fun e => both op a (g e)) ∈ inExpr) :
    Exchanges inExpr (compared side other alone both) := by
  refine hs.andThen (fun a => ?_) fun f hf => carries_look fun next => ?_
  · refine exchanges_look (fun next => ?_) fun next hnext => ?_
    · split
      · exact exchanges_give _
      · rename_i op hop
        refine (exchanges_takeIf ?_).before fun _ => ho.andThen (fun _ => exchanges_give _) fun g hg => ?_
        · rintro rfl
          cases hop
        · exact carries_give (hright g hg op a)
    · simp only [comparing?_of_literalStarts hnext]
      rfl
  · split
    · exact carries_give (halone f hf)
    · rename_i op _
      exact carries_andThen fun _ => carries_andThen fun b => carries_give (hleft f hf op b)

theorem exchanges_pathFirst : Exchanges inExpr pathFirst := by
  rw [pathFirst_eq]
  refine exchanges_compared exchanges_path exchanges_literal nofun nofun ?_
  rintro _ ⟨c, rfl⟩ op p
  exact ⟨.comparisonRight op (.path p) c, rfl⟩

theorem exchanges_literalFirst : Exchanges inExpr literalFirst := by
  rw [literalFirst_eq]
  refine exchanges_compared exchanges_literal exchanges_path (fun _ hf => hf) ?_ nofun
  rintro _ ⟨c, rfl⟩ op p
  exact ⟨.comparisonLeft op c (.path p), rfl⟩

section Conditions

variable {group : List Token → Parsing Condition} (hg : Exchanges inCondition group)

include hg

theorem exchanges_closed : Exchanges inExpr (closed group) := by
  rw [closed_eq]
  refine hg.andThen (fun c => (exchanges_takeIf (by simp)).before fun _ => exchanges_give _) ?_
  rintro _ ⟨c, rfl⟩
  exact carries_andThen fun _ => carries_give ⟨c.logical, funext c.fill_logical⟩

theorem exchanges_comparison : Exchanges inExpr (comparison group) := by
  rw [comparison_eq]
  refine exchanges_look (fun next => ?_) fun next hnext => ?_
  · split
    · exact exchanges_pathFirst
    · exact exchanges_literalFirst
    · exact exchanges_literalFirst
    · exact exchanges_literalFirst
    · exact exchanges_literalFirst
    · exact (exchanges_takeIf (by simp)).before fun _ => exchanges_closed hg
    · split
      · exact (exchanges_takeIf (by simp)).before fun _ => exchanges_path.before fun _ => exchanges_give _
      · exact exchanges_halt .comparison
    · exact exchanges_halt .comparison
  · obtain ⟨kind, text⟩ := next
    simp only [literalStarts, List.mem_cons, List.not_mem_nil, or_false] at hnext
    rcases hnext with rfl | rfl | rfl | rfl <;> rfl

omit hg

variable {F : Set (Expr → α)} {symbol : String} {operand : List Token → Parsing α} (ho : Exchanges F operand)

include ho

/-- The literal is in the first part of a list or in the list of the other parts. -/
theorem Exchanges.cons {items : List Token → Parsing (List α)} (hitems : Exchanges (inList F) items) :
    Exchanges (inList F) (Parsing.andThen operand fun a => Parsing.andThen items fun as => give (a :: as)) := by
  refine ho.andThen (fun a => ?_) fun f hf => ?_
  · exact hitems.andThen (fun _ => exchanges_give _) fun g hg => carries_give (inList_cons a hg)
  · exact carries_andThen fun as => carries_give (inList_head hf as)

theorem exchanges_moreOperands (k : Nat) : Exchanges (inList F) (moreOperands symbol operand k) := by
  induction k with
  | zero => exact exchanges_give []
  | succ k ih =>
    rw [moreOperands_eq]
    refine exchanges_look (fun next => ?_) fun next hnext => ?_
    · split
      · exact (exchanges_takeIf (by simp)).before fun _ => ho.cons ih
      · exact exchanges_give []
    · have hoperator (s : String) : next ≠ (.operator, s) := by
        rintro rfl
        simp [literalStarts] at hnext
      rw [if_neg (hoperator symbol), if_neg (by simp)]

theorem exchanges_operands (bound : Nat) : Exchanges (inOperands F) (operands symbol operand bound) := by
  rw [operands_eq]
  refine ho.andThen (fun a => ?_) fun f hf => ?_
  · exact (exchanges_moreOperands ho bound).andThen (fun _ => exchanges_give _) fun g hg =>
      carries_give (inList_cons a hg)
  · exact carries_andThen fun as => carries_give (inList_head hf as)

omit ho

include hg

theorem exchanges_conjunction (bound : Nat) : Exchanges inCondition (conjunction group bound) := by
  rw [conjunction_eq]
  exact (exchanges_operands (exchanges_comparison hg) bound).andThen (fun _ => exchanges_give _) fun f hf =>
    carries_give (inCondition_all hf)

theorem exchanges_disjunction (bound : Nat) : Exchanges inCondition (disjunction group bound) := by
  rw [disjunction_eq]
  exact (exchanges_operands (exchanges_conjunction hg bound) bound).andThen (fun _ => exchanges_give _) fun f hf =>
    carries_give (inCondition_any hf)

end Conditions

theorem exchanges_condition (bound depth : Nat) : Exchanges inCondition (condition bound depth) := by
  induction depth with
  | zero => exact exchanges_halt .comparison
  | succ depth ih => exact exchanges_disjunction ih bound

/-! ### Calls -/

theorem exchanges_methodName (known : Option (List String)) : Exchanges ∅ (methodName known) := by
  cases known with
  | none =>
    rw [methodName_none]
    exact exchanges_name
  | some names =>
    rw [methodName_some]
    refine exchanges_look (fun next => ?_) fun next hnext => ?_
    · split
      · exact exchanges_halt (.methodName names)
      · exact exchanges_name
    · rw [if_neg fun h => ?_, if_neg (by simp)]
      simp [h.1, literalStarts] at hnext

theorem exchanges_lambda (bound : Nat) :
    Exchanges {f | ∃ parameter, ∃ c ∈ inCondition, f = fun e => ⟨parameter, c e⟩} (lambda bound) := by
  rw [lambda_eq]
  refine exchanges_name.before fun parameter => (exchanges_takeIf (by simp)).before fun _ => ?_
  exact (exchanges_condition bound (bound + 1)).andThen (fun _ => exchanges_give _) fun c hc =>
    carries_give ⟨parameter, c, hc, rfl⟩

theorem exchanges_call (known : Option (List String)) (bound : Nat) : Exchanges inCall (call known bound) := by
  rw [call_eq]
  refine (exchanges_methodName known).before fun method => (exchanges_takeIf (by simp)).before fun _ => ?_
  refine (exchanges_lambda bound).andThen (fun fn => (exchanges_takeIf (by simp)).before fun _ => exchanges_give _) ?_
  rintro _ ⟨parameter, _, ⟨c, rfl⟩, rfl⟩
  exact carries_andThen fun _ => carries_give ⟨method, parameter, c, rfl⟩

theorem exchanges_calls (known : Option (List String)) (bound k : Nat) :
    Exchanges (inList inCall) (calls known bound k) := by
  induction k with
  | zero => exact exchanges_give []
  | succ k ih =>
    rw [calls_eq]
    refine exchanges_look (fun next => ?_) fun next hnext => ?_
    · split
      · exact (exchanges_takeIf (by simp)).before fun _ => (exchanges_call known bound).cons ih
      · exact exchanges_give []
    · rw [if_neg fun h => ?_, if_neg (by simp)]
      simp [h, literalStarts] at hnext

theorem exchanges_chainWithin (known : Option (List String)) (bound : Nat) :
    Exchanges (inList inCall) (chainWithin known bound) :=
  (exchanges_takeIf (by simp)).before fun _ => exchanges_calls known bound bound

end Parsing

namespace Grammar
open Parsing

/-! ### Queries -/

theorem atEnd_of_alike {v w : List Token} (h : Alike v w) (hw : AtEnd w) : AtEnd v := by
  rcases hw with rfl | ⟨t, more, rfl, ht⟩
  · exact .inl h.of_nil
  · obtain ⟨u, us, rfl, hk, -, -⟩ := h.of_cons
    exact .inr ⟨u, us, rfl, hk.trans ht⟩

/-- Tokens that look alike make the same query, wherever they stand. -/
theorem parseTokens_of_alike {known : Option (List String)} {ts ts' : List Token} {q : Query} (h : Alike ts' ts)
    (hq : parseTokens known ts = .ok q) : parseTokens known ts' = .ok q := by
  have hnone {ts ts' : List Token} (h : Alike ts' ts) (hq : parseTokens none ts = .ok q) :
      parseTokens none ts' = .ok q := by
    obtain ⟨rest, hchain, hrest⟩ := parseTokens_eq_ok.mp hq
    obtain ⟨w, rfl, hw⟩ := sound_chain none hchain
    obtain ⟨w', rest', rfl, hw', hrest'⟩ := h.of_append
    have hend := atEnd_of_alike hrest' hrest
    exact parseTokens_eq_ok.mpr ⟨rest', (respells_linqExpr hw hw').read hend.endsPath, hend⟩
  cases known with
  | none => exact hnone h hq
  | some names =>
    obtain ⟨hq, hmem⟩ := parseTokens_known_iff.mp hq
    exact parseTokens_known_iff.mpr ⟨hnone h hq, hmem⟩

/-- What is parsed where the literal stands in the hole. -/
def parsed (c : Query.Context) : Outcome → Except ParseError Query
  | .ok e => .ok (c.fill e)
  | .error (digits, numeral) => .error ⟨digits.position, .numberInRange, digits.kind, some numeral⟩

/-- A literal of a query has a place in it. With another literal instead, what is parsed is the same query with the
    other literal in this place; with a numeral out of range, the numeral is reported. -/
theorem parseTokens_exchange {known : Option (List String)} {v w : List Token} {position : Nat} {q : Query}
    (hv : ∀ t ∈ v, t.kind ≠ .ending) (h : parseTokens known (v ++ nullAt position :: w) = .ok q) :
    ∃ c : Query.Context, ∀ l r w', ReadsAs l r → l.length ≤ 2 → Alike w' w →
      parseTokens known (v ++ (l ++ w')) = parsed c r := by
  obtain ⟨rest, hchain, hrest⟩ := parseTokens_eq_ok.mp h
  obtain ⟨x, hx, -⟩ := sound_chain known hchain
  -- A bound that is enough for literals of one and of two tokens.
  let bound := (v ++ w).length + 2
  have hbound {l : List Token} (hl : l.length ≤ 2) :
      chain known (v ++ (l ++ w)) = chainWithin known bound (v ++ (l ++ w)) := by
    refine chain_eq_of_le ?_
    simp only [bound, List.length_append]
    omega
  have hnull := readsAs_null position
  rw [show v ++ nullAt position :: w = v ++ ([nullAt position] ++ w) from rfl, hbound (by simp)] at hchain
  rcases exchanges_chainWithin known bound v position w q rest hchain with
    ⟨u, hu⟩ | ⟨f, ⟨before, _, hcall, after, rfl⟩, hf⟩
  · -- The query would be at its end before the literal.
    obtain rfl : rest = u ++ ([nullAt position] ++ w) := by
      have := hchain.symm.trans (hu _ _ hnull)
      cases this
      rfl
    obtain rfl : v = x ++ u := by
      rw [← List.append_assoc] at hx
      exact List.append_cancel_right hx
    rcases hrest with hrest | ⟨t, more, hrest, ht⟩
    · cases u <;> cases hrest
    · cases u with
      | nil =>
        cases hrest
        cases ht
      | cons t' u =>
        cases hrest
        exact absurd ht (hv t (by simp))
  · obtain ⟨method, parameter, c, rfl⟩ := hcall
    refine ⟨⟨before, method, parameter, c, after⟩, fun l r w' hl hlen hw' => ?_⟩
    have hread := hf l r hl
    rw [← hbound hlen] at hread
    rcases r with ⟨digits, numeral⟩ | e
    · obtain ⟨u, hu, hmoved⟩ := query_moved (query_of_chain_error hread)
      have hwhole : v ++ l ++ w = u ++ [digits] ++ w := by
        rw [List.append_assoc, hu, List.append_assoc]
        rfl
      have hsplit : v ++ l = u ++ [digits] := List.append_cancel_right hwhole
      have hstop : query known (v ++ (l ++ w')) = .error (.outOfRange digits numeral w') := by
        rw [← List.append_assoc, hsplit, List.append_assoc]
        exact hmoved (digits :: w') rfl
      exact parseTokens_eq_error.mpr ⟨_, hstop, rfl⟩
    · have hok := parseTokens_eq_ok.mpr ⟨rest, hread, hrest⟩
      refine parseTokens_of_alike ?_ hok
      rw [Alike] at hw' ⊢
      simp only [List.map_append, hw']

end Grammar

end RecordQuery
