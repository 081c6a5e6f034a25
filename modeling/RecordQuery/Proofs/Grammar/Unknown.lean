import RecordQuery.Proofs.Grammar.Known
import RecordQuery.Proofs.Grammar.Located
import RecordQuery.Proofs.Methods

/-! What a parser does that knows the names of the methods, where it meets a name that it does not know.
    It reports the first one, and if there is none it does what a parser does that takes any name. So it
    reports whatever is wrong first. -/

namespace RecordQuery.Grammar
open Parsing

/-- The tokens before the name of a method: a query, as far as it has been read, and a dot. -/
inductive BeforeMethod : List Token → Prop
  | mk {w : List Token} {q : Query} {dot : Token} (hq : LinqExpr w q) (hd : dot.kind = .dot) : BeforeMethod (w ++ [dot])

/-- In the list `ts` the token `t`, after `v`, names a method, and it is none of the names. -/
structure UnknownAt (names : List String) (ts v : List Token) (t : Token) (rest : List Token) : Prop where
  split : ts = v ++ t :: rest
  before : BeforeMethod v
  identifier : t.kind = .identifier
  unknown : t.lexeme ∉ names

/-- No unknown name of a method comes before `t`. -/
structure FirstUnknown (names : List String) (ts v : List Token) (t : Token) (rest : List Token) : Prop
    extends UnknownAt names ts v t rest where
  first : ∀ v' t' rest', UnknownAt names ts v' t' rest' → v.length ≤ v'.length

variable {names : List String} {ts v rest : List Token} {t : Token}

theorem exists_firstUnknown (h : UnknownAt names ts v t rest) : ∃ v t rest, FirstUnknown names ts v t rest := by
  induction hn : v.length using Nat.strongRecOn generalizing v t rest with
  | ind n ih =>
    by_cases hfirst : ∀ v' t' rest', UnknownAt names ts v' t' rest' → v.length ≤ v'.length
    · exact ⟨v, t, rest, h, hfirst⟩
    · simp only [Classical.not_forall, Nat.not_le] at hfirst
      obtain ⟨v', t', rest', h', hlt⟩ := hfirst
      exact ih v'.length (hn ▸ hlt) h' rfl

/-! ### No unknown name -/

/-- After a query, calls are read the same way if all names that stand for methods are known. -/
theorem calls_eq_of_known {w us : List Token} {q : Query} {bound k : Nat} (hts : ts = w ++ us) (hq : LinqExpr w q)
    (h : ∀ v t rest, ¬UnknownAt names ts v t rest) : calls (some names) bound k us = calls none bound k us := by
  induction k generalizing w us q with
  | zero => rfl
  | succ k ih =>
    cases us with
    | nil => rfl
    | cons dot us =>
      by_cases hd : dot.kind = .dot
      · have hcall : call (some names) bound us = call none bound us := by
          refine call_congr bound (methodName_of_mem fun s rest hname => ?_)
          obtain ⟨t, rfl, ht, rfl⟩ := name_eq_ok hname
          refine Decidable.byContradiction fun hmem => ?_
          exact h _ _ _ ⟨by rw [hts, List.append_cons], .mk hq hd, ht, hmem⟩
        rw [calls, calls, if_pos hd, if_pos hd, hcall]
        cases hc : call none bound us with
        | error stop => rfl
        | ok r =>
          obtain ⟨c, rest⟩ := r
          obtain ⟨x, hx, hcx⟩ := call_eq_ok hd hc
          have hsame : calls (some names) bound k rest = calls none bound k rest :=
            ih (by simp [hts, hx]) (hq.append (.cons hcx .nil))
          simp only [hsame]
      · rw [calls, calls, if_neg hd, if_neg hd]

theorem chain_eq_of_known (h : ∀ v t rest, ¬UnknownAt names ts v t rest) : chain (some names) ts = chain none ts := by
  rw [chain, chain]
  cases ht : token .this .this ts with
  | error stop => rfl
  | ok r =>
    obtain ⟨t, us⟩ := r
    obtain ⟨rfl, hk⟩ := token_eq_ok ht
    exact calls_eq_of_known (w := [t]) rfl (.this hk) h

theorem parseTokens_eq_of_known (h : ∀ v t rest, ¬UnknownAt names ts v t rest) :
    parseTokens (some names) ts = parseTokens none ts := by
  have hquery : query (some names) ts = query none ts := by rw [query, query, chain_eq_of_known h]
  simp only [parseTokens, Parser.ofTokens, Parser.next, hquery]
  cases query none ts <;> rfl

/-! ### The first unknown name -/

/-- Every method of a query stands where a method is named. -/
theorem LinqExpr.exists_method {w : List Token} {q : Query} (h : LinqExpr w q) {c : Call Expr} (hc : c ∈ q) :
    ∃ v t rest, w = v ++ t :: rest ∧ BeforeMethod v ∧ t.kind = .identifier ∧ t.lexeme = c.method := by
  induction h with
  | this => cases hc
  | @call v w dot name l r q fn hq hd hn hl hf hr ih =>
    rcases List.mem_append.mp hc with hc | hc
    · obtain ⟨x, t, rest, rfl, hx⟩ := ih hc
      exact ⟨x, t, _, by rw [List.append_assoc, List.cons_append], hx⟩
    · obtain rfl := List.mem_singleton.mp hc
      exact ⟨v ++ [dot], name, _, List.append_cons v dot _, .mk hq hd, hn, rfl⟩

/-- Calls of known methods are read, and then the unknown name is reported. -/
theorem calls_of_not_mem {w : List Token} {q : Query} {dot : Token} {bound k : Nat} (h : CallsTokens w q)
    (hmem : ∀ c ∈ q, c.method ∈ names) (hd : dot.kind = .dot) (ht : t.kind = .identifier) (hn : t.lexeme ∉ names)
    (hk : w.length < k) (hb : w.length ≤ bound) :
    calls (some names) bound k (w ++ dot :: t :: rest) = .error (.unexpected (.methodName names) (t :: rest)) := by
  obtain ⟨k, rfl⟩ : ∃ j, k = j + 1 := ⟨k - 1, by omega⟩
  induction h generalizing k with
  | nil =>
    rw [List.nil_append, calls, if_pos hd, call_of_error bound (methodName_of_not_mem (name_cons ht) hn)]
  | @cons v w c q hc _ ih =>
    obtain ⟨hc', hmem⟩ := List.forall_mem_cons.mp hmem
    simp only [List.length_append] at hk hb
    obtain ⟨d, x, rfl, hd', hread⟩ := @CallTokens.read bound v c (w ++ dot :: t :: rest) hc (by omega)
    simp only [List.length_cons] at hk hb
    obtain ⟨k, rfl⟩ : ∃ j, k = j + 1 := ⟨k - 1, by omega⟩
    have hrest := ih hmem (by omega) k (by omega)
    simp [calls, hd', call_known_iff.mpr ⟨hread, hc'⟩, hrest, Except.map]

/-- The first unknown name is reported. -/
theorem FirstUnknown.reported (h : FirstUnknown names ts v t rest) :
    parseTokens (some names) ts = .error ⟨t.position, .methodName names, .identifier, t.text⟩ := by
  obtain ⟨⟨rfl, ⟨hq, hd⟩, ht, hn⟩, hfirst⟩ := h
  rename_i w q dot
  have hmem : ∀ c ∈ q, c.method ∈ names := by
    intro c hc
    obtain ⟨x, u, y, rfl, hx, hu, hm⟩ := hq.exists_method hc
    refine Decidable.byContradiction fun hnot => ?_
    have hle := hfirst x u (y ++ [dot] ++ t :: rest) ⟨by simp, hx, hu, hm ▸ hnot⟩
    simp only [List.length_append, List.length_cons] at hle
    omega
  obtain ⟨this, x, rfl, hthis, hx⟩ := linqExpr_iff.mp hq
  refine parseTokens_eq_error.mpr ⟨.unexpected (.methodName names) (t :: rest), ?_, by rw [Stop.error, ← ht]; rfl⟩
  refine query_of_chain_error ?_
  rw [chain, show this :: x ++ [dot] ++ t :: rest = this :: (x ++ dot :: t :: rest) by simp, token_cons hthis]
  have hlen : x.length < (this :: (x ++ dot :: t :: rest)).length := by
    simp only [List.length_cons, List.length_append]
    omega
  exact calls_of_not_mem hx hmem hd ht hn hlen (Nat.le_of_lt hlen)

/-! ### Further on -/

/-- A name that stands where a method is named comes before the token that is reported, if any name will do. -/
theorem exists_split_of_error {stop : Stop} (hv : BeforeMethod v) (ht : t.kind = .identifier)
    (h : query none (v ++ t :: rest) = .error stop) : ∃ u, rest = u ++ stop.found := by
  obtain ⟨x, hx, hdead⟩ := ne_ok_of_error h
  -- The name can be completed to a query, so nothing up to it is reported.
  have hstarts : ∃ w q, LinqExpr (v ++ t :: w) q := by
    obtain ⟨hq, hd⟩ := hv
    obtain ⟨w, c, hc⟩ := starts_callTokens_of_name hd ht
    exact ⟨w, _, by simpa using hq.append (.cons hc .nil)⟩
  obtain ⟨w, q, hq⟩ := hstarts
  rcases List.append_eq_append_iff.mp hx with ⟨u, rfl, hu⟩ | ⟨u, rfl, hu⟩
  · cases u with
    | nil =>
      rw [List.append_nil] at hdead
      exact absurd hq.accepted (hdead t rest hu.symm w q)
    | cons t' u =>
      obtain ⟨rfl, hrest⟩ := List.cons.inj hu
      exact ⟨u, hrest⟩
  · cases u with
    | nil =>
      rw [List.append_nil] at hq
      exact absurd hq.accepted (hdead t rest hu w q)
    | cons t' u =>
      refine absurd hq.accepted ?_
      rw [List.append_assoc]
      exact hdead t' _ hu _ q

/-- The error reports a token of `rest`, which comes after the tokens `v`, or the end of the list. -/
def LocatesWithin (v rest : List Token) (e : ParseError) : Prop :=
  (∃ u t more, rest = u ++ t :: more ∧ Locates (v ++ u) t e) ∨
    ∃ expected, e = ⟨lastPosition (v ++ rest), expected, .ending, none⟩

theorem locatesWithin_of_error {e : ParseError} (hv : BeforeMethod v) (ht : t.kind = .identifier)
    (h : parseTokens none (v ++ t :: rest) = .error e) : LocatesWithin (v ++ [t]) rest e := by
  obtain ⟨stop, hstop, rfl⟩ := parseTokens_eq_error.mp h
  obtain ⟨u, hu⟩ := exists_split_of_error hv ht hstop
  obtain ⟨x, hx, hviable⟩ := stops_query _ stop hstop
  have hsplit : x ++ stop.found = v ++ [t] ++ u ++ stop.found := by
    rw [← hx, hu]
    simp
  have hxu : x = v ++ [t] ++ u := List.append_cancel_right hsplit
  cases hfound : stop.found with
  | cons t' more =>
    rw [hfound] at hu
    exact .inl ⟨u, t', more, hu, hxu ▸ hviable.locates t' more _ hfound⟩
  | nil =>
    refine .inr ?_
    cases stop with
    | unexpected expected us =>
      obtain rfl : us = [] := hfound
      exact ⟨expected, by rw [List.append_assoc]; rfl⟩
    | outOfRange digits numeral us => cases hfound

/-! ### Strict parsing -/

/-- A parser that knows the names of the methods lists them in increasing order. It gives the queries that a parser
    gives which takes any name, as long as their methods are known. Where it gives an error, either the other parser
    gives the same one, or it is the error for the first unknown name, and the other parser gives a query or an error
    further on. -/
theorem parseTokens_registered (entries : List (String × Method)) (ts : List Token) :
    let ms := Methods.ofList entries
    (ms.names.Pairwise (· < ·) ∧ ∀ name, name ∈ ms.names ↔ ms.contains name = true) ∧
      (∀ q, parseTokens (some ms.names) ts = .ok q ↔
        parseTokens none ts = .ok q ∧ ∀ c ∈ q, ms.contains c.method = true) ∧
      (∀ e, parseTokens (some ms.names) ts = .error e → parseTokens none ts = .error e ∨
        ∃ v t rest, FirstUnknown ms.names ts v t rest ∧
          e = ⟨t.position, .methodName ms.names, .identifier, t.text⟩ ∧
          ((∃ q, parseTokens none ts = .ok q) ∨
            ∃ e', parseTokens none ts = .error e' ∧ LocatesWithin (v ++ [t]) rest e')) ∧
      ∀ v t rest, FirstUnknown ms.names ts v t rest →
        parseTokens (some ms.names) ts = .error ⟨t.position, .methodName ms.names, .identifier, t.text⟩ := by
  intro ms
  refine ⟨⟨ms.increasing, fun name => Methods.mem_names_iff_contains⟩, fun q => ?_,
    fun e he => ?_, fun v t rest h => h.reported⟩
  · simp only [parseTokens_known_iff, Methods.mem_names_iff_contains]
  · by_cases hknown : ∀ v t rest, ¬UnknownAt ms.names ts v t rest
    · exact .inl (parseTokens_eq_of_known hknown ▸ he)
    · simp only [Classical.not_forall, Classical.not_not] at hknown
      obtain ⟨v, t, rest, hunknown⟩ := hknown
      obtain ⟨v, t, rest, hfirst⟩ := exists_firstUnknown hunknown
      refine .inr ⟨v, t, rest, hfirst, Except.error.inj (he.symm.trans hfirst.reported), ?_⟩
      cases hlenient : parseTokens none ts with
      | ok q => exact .inl ⟨q, rfl⟩
      | error e' =>
        exact .inr ⟨e', rfl, locatesWithin_of_error hfirst.before hfirst.identifier (hfirst.split ▸ hlenient)⟩

/-- In `this.Sum(x => )` the method comes before the condition that is not there. -/
example :
    let ts : List Token := [⟨.this, some "this", 0⟩, ⟨.dot, some ".", 4⟩, ⟨.identifier, some "Sum", 5⟩,
      ⟨.openParen, some "(", 8⟩, ⟨.identifier, some "x", 9⟩, ⟨.operator, some "=>", 11⟩, ⟨.closeParen, some ")", 14⟩,
      .atEnd 15]
    parseTokens (some Methods.standard.names) ts = .error ⟨5, .methodName ["Where"], .identifier, some "Sum"⟩ ∧
      parseTokens none ts = .error ⟨14, .comparison, .closeParen, some ")"⟩ :=
  ⟨rfl, rfl⟩

end RecordQuery.Grammar
