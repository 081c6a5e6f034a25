import RecordQuery.Proofs.Grammar.Respell
import RecordQuery.Proofs.Parse
import RecordQuery.Proofs.Scan.Concat

/-! Texts that are derived as a part of a query wherever they stand. Such texts are put together as the rules of
    the grammar put lists of tokens together, so a text is parsed without a look at its places. -/

namespace RecordQuery
open Grammar Text

/-- Wherever the text stands, it is cut into tokens that are derived as `a`. -/
def Derives {α : Type} (R : List Token → α → Prop) (cs : List Char) (a : α) : Prop := ∀ p, ∃ w, Cut p cs w ∧ R w a

theorem Cut.derives {α : Type} {R : List Token → α → Prop} {p : Nat} {cs : List Char} {w : List Token} {a : α}
    (h : Cut p cs w) (hR : Respells R) (ha : R w a) : Derives R cs a := fun q => by
  obtain ⟨v, hv, hvw⟩ := h.spells q
  exact ⟨v, hv, hR ha hvw⟩

theorem Derives.imp {α β : Type} {R : List Token → α → Prop} {S : List Token → β → Prop} {cs : List Char} {a : α}
    {b : β} (h : Derives R cs a) (hS : ∀ w, R w a → S w b) : Derives S cs b := fun p => by
  obtain ⟨w, hw, hwa⟩ := h p
  exact ⟨w, hw, hS w hwa⟩

/-- One text after another, where the second one goes on with no lexeme. -/
theorem Derives.append {α β γ : Type} {R : List Token → α → Prop} {S : List Token → β → Prop}
    {T : List Token → γ → Prop} {cs ds : List Char} {a : α} {b : β} {c : γ} (ha : Derives R cs a) (hb : Derives S ds b)
    (he : ∀ l : Lexeme, l.Ends ds) (hT : ∀ v w, R v a → S w b → T (v ++ w) c) : Derives T (cs ++ ds) c := fun p => by
  obtain ⟨v, hv, hva⟩ := ha p
  obtain ⟨w, hw, hwb⟩ := hb (p + cs.length)
  exact ⟨v ++ w, hv.append hw he, hT v w hva hwb⟩

/-! ### Queries -/

theorem takeWhile_ne_ending {w rest : List Token} (hw : ∀ t ∈ w, t.kind ≠ .ending) (hr : AtEnd rest) :
    (w ++ rest).takeWhile (·.kind ≠ .ending) = w := by
  refine takeWhile_append (fun t ht => decide_eq_true (hw t ht)) fun t ht => ?_
  rcases hr with rfl | ⟨u, more, rfl, hu⟩
  · cases ht
  · obtain rfl := Option.some.inj ht
    simp [hu]

theorem Cut.ne_ending {p : Nat} {cs : List Char} {w : List Token} (h : Cut p cs w) : ∀ t ∈ w, t.kind ≠ .ending := by
  intro t ht hk
  have hvalid := h.valid t ht
  rwa [Lexeme.Valid, show t.toLexeme.kind = .ending from hk] at hvalid

/-- A text is parsed as the query that its tokens are derived as. -/
theorem parse_eq_ok_iff {text : String} {q : Query} :
    parse text = .ok q ↔ ∃ w, Cut 0 text.toList w ∧ LinqExpr w q := by
  constructor
  · intro h
    obtain ⟨w, rest, hscan, hrest, hw⟩ := exists_linqExpr_of_parse h
    obtain ⟨body, hsplit, hbody⟩ := Token.cut_of_listFrom hscan
    -- both are what stands before the first end token
    have hfront := takeWhile_ne_ending hw.ne_ending hrest
    rw [hsplit, takeWhile_ne_ending hbody.ne_ending (.inr ⟨_, [], rfl, rfl⟩)] at hfront
    exact ⟨w, hfront ▸ hbody, hw⟩
  · rintro ⟨w, hcut, hw⟩
    obtain ⟨this, v, rfl, ht, hv⟩ := linqExpr_iff.mp hw
    exact parse_of_callsTokens (Token.listFrom_of_cut hcut) ht hv

theorem parse_iff_derives {text : String} {q : Query} : parse text = .ok q ↔ Derives LinqExpr text.toList q := by
  rw [parse_eq_ok_iff]
  exact ⟨fun ⟨w, hcut, hw⟩ => hcut.derives respells_linqExpr hw, fun h => h 0⟩

/-! ### Calls after a query -/

/-- No lexeme goes on into the text of calls, which starts with a dot if there are any. -/
theorem ends_of_callsTokens {p : Nat} {cs : List Char} {w : List Token} {q : Query} (h : Cut p cs w)
    (hq : CallsTokens w q) (l : Lexeme) : l.Ends cs := by
  cases hq with
  | nil => exact Lexeme.ends_of_isBlank fun c hc => h.of_nil c (List.mem_of_mem_head? hc)
  | cons hc _ =>
    obtain ⟨hd, -, -, -, -⟩ := hc
    obtain ⟨gap, rest, rfl, hg, hv, -, -⟩ := h.of_cons
    cases gap with
    | nil =>
      rw [hv.written_eq (congrArg Token.Kind.sign? hd)]
      exact Lexeme.ends_of_mark (by decide) (by decide) (by decide)
    | cons c gap => exact Lexeme.ends_blank (hg c List.mem_cons_self)

theorem Derives.ends {cs : List Char} {q : Query} (h : Derives CallsTokens cs q) (l : Lexeme) : l.Ends cs := by
  obtain ⟨w, hcut, hq⟩ := h 0
  exact ends_of_callsTokens hcut hq l

/-- The calls are made on the query in front of them. -/
theorem Derives.calls {cs ds : List Char} {p q : Query} (hp : Derives LinqExpr cs p) (hq : Derives CallsTokens ds q) :
    Derives LinqExpr (cs ++ ds) (p ++ q) :=
  hp.append hq hq.ends fun _ _ hv hw => hv.append hw

/-- The text after `this` is the text of calls, which could stand after any other query as well. -/
theorem parse_this_append_iff {rest : String} {q : Query} :
    parse ("this" ++ rest) = .ok q ↔ Derives CallsTokens rest.toList q := by
  constructor
  · intro h
    obtain ⟨w, hcut, hw⟩ := parse_eq_ok_iff.mp h
    obtain ⟨this, w, rfl, ht, hq⟩ := linqExpr_iff.mp hw
    obtain ⟨gap, cs, hsplit, hg, hv, -, hcut⟩ := hcut.of_cons
    rw [hv.written_eq (congrArg Token.Kind.sign? ht), String.toList_append] at hsplit
    cases gap with
    | nil =>
      obtain rfl : rest.toList = cs := List.append_cancel_left hsplit
      exact hcut.derives respells_callsTokens hq
    | cons c gap =>
      obtain rfl : 't' = c := (List.cons.inj hsplit).1
      exact absurd (hg 't' List.mem_cons_self) (by decide)
  · intro h
    have hthis : Derives LinqExpr "this".toList [] := parse_iff_derives.mp rfl
    rw [parse_iff_derives, String.toList_append]
    exact hthis.calls h

/-- A query goes on with the calls that can stand after `this`. -/
theorem parse_append {first rest : String} {p q : Query} (hp : parse first = .ok p)
    (hq : parse ("this" ++ rest) = .ok q) : parse (first ++ rest) = .ok (p ++ q) := by
  rw [parse_iff_derives] at hp ⊢
  rw [String.toList_append]
  exact hp.calls (parse_this_append_iff.mp hq)

end RecordQuery
