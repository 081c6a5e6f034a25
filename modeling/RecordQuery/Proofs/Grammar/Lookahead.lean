import RecordQuery.Proofs.Grammar.Reading

/-! What a rule does depends on the tokens that it takes and on how the token after them looks, and on
    nothing behind that. The bounds on the depth of groups and on the length of chains do not matter
    as long as the list of tokens is no longer than they are. -/

namespace RecordQuery

namespace Stop

/-- The tokens from the one that is reported. -/
def found : Stop → List Token
  | .unexpected _ rest => rest
  | .outOfRange digits _ rest => digits :: rest

/-- The same stop where other tokens come instead of the ones from the one that is reported. -/
def moved (ts : List Token) : Stop → Stop
  | .unexpected expected _ => .unexpected expected ts
  | .outOfRange digits numeral _ => .outOfRange (ts.headD digits) numeral ts.tail

end Stop

namespace Parsing

variable {α β : Type}

/-- The tokens that a rule has not taken, and of those that it has taken the one that is reported. -/
def left : Parsing α → List Token
  | .error stop => stop.found
  | .ok (_, rest) => rest

/-- The same result where other tokens are left. -/
def moved (ts : List Token) : Parsing α → Parsing α
  | .error stop => .error (stop.moved ts)
  | .ok (a, _) => .ok (a, ts)

theorem ahead_append (v : List Token) {ts ts' : List Token} (h : ahead ts' = ahead ts) :
    ahead (v ++ ts') = ahead (v ++ ts) := by
  cases v with
  | nil => exact h
  | cons t v => rfl

/-- On lists of at most `n` tokens, `p'` ends after the same tokens as `p` and with the same result, whatever comes
    after them, as long as it looks the same. -/
def Agrees (n : Nat) (p p' : List Token → Parsing α) : Prop :=
  ∀ ts, ts.length ≤ n → ∃ v, ts = v ++ left (p ts) ∧
    ∀ ts', (v ++ ts').length ≤ n → ahead ts' = ahead (left (p ts)) → p' (v ++ ts') = moved ts' (p ts)

variable {n : Nat} {p p' : List Token → Parsing α}

/-! ### Ways to read -/

theorem agrees_give (a : α) : Agrees n (give a) (give a) :=
  fun _ _ => ⟨[], rfl, fun _ _ _ => rfl⟩

theorem agrees_halt (expected : Expected) : Agrees n (halt expected) (halt expected : List Token → Parsing α) :=
  fun _ _ => ⟨[], rfl, fun _ _ _ => rfl⟩

/-- No list is shorter than the empty one. -/
theorem Agrees.zero {r : Parsing α} (hp : p [] = r) (hp' : p' [] = r) (hleft : left r = []) (hmoved : moved [] r = r) :
    Agrees 0 p p' := by
  intro ts hts
  obtain rfl := List.length_eq_zero_iff.mp (Nat.le_zero.mp hts)
  refine ⟨[], by rw [hp, hleft]; rfl, fun ts' hts' _ => ?_⟩
  obtain rfl := List.length_eq_zero_iff.mp (Nat.le_zero.mp hts')
  rw [hp, hmoved]
  exact hp'

theorem agrees_look {f f' : Token.Kind × String → List Token → Parsing α} (h : ∀ next, Agrees n (f next) (f' next)) :
    Agrees n (look f) (look f') := by
  intro ts hts
  obtain ⟨v, hv, hf⟩ := h (ahead ts) ts hts
  refine ⟨v, hv, fun ts' hlen hnext => ?_⟩
  have hahead : ahead (v ++ ts') = ahead ts := (ahead_append v hnext).trans (congrArg ahead hv.symm)
  rw [look, hahead]
  exact hf ts' hlen hnext

theorem Agrees.andThen {q q' : α → List Token → Parsing β} (hp : Agrees n p p') (hq : ∀ a, Agrees n (q a) (q' a)) :
    Agrees n (Parsing.andThen p q) (Parsing.andThen p' q') := by
  intro ts hts
  obtain ⟨v, hv, hp⟩ := hp ts hts
  cases hr : p ts with
  | error stop =>
    rw [hr] at hv hp
    rw [andThen_of_error hr]
    exact ⟨v, hv, fun ts' hlen hnext => andThen_of_error (hp ts' hlen hnext)⟩
  | ok r =>
    obtain ⟨a, rest⟩ := r
    rw [hr] at hv hp
    rw [andThen_of_ok hr]
    have hrest : rest.length ≤ n := by
      have := congrArg List.length hv
      simp only [left, List.length_append] at this
      omega
    obtain ⟨w, hw, hq⟩ := hq a rest hrest
    refine ⟨v ++ w, by rw [List.append_assoc, ← hw]; exact hv, fun ts' hlen hnext => ?_⟩
    rw [List.append_assoc] at hlen ⊢
    have hmid : p' (v ++ (w ++ ts')) = .ok (a, w ++ ts') :=
      hp _ hlen ((ahead_append w hnext).trans (congrArg ahead hw.symm))
    rw [andThen_of_ok hmid]
    exact hq ts' (by simp only [List.length_append] at hlen ⊢; omega) hnext

/-- A token that is not taken is left. After one that is taken there is room for one token less. -/
theorem agrees_take {q q' : Token → List Token → Parsing β} {accepts : Token.Kind × String → Prop}
    [DecidablePred accepts] {expected : Expected} (hend : ¬accepts (.ending, "")) (hq : ∀ t, Agrees n (q t) (q' t)) :
    Agrees (n + 1) (andThen (takeIf accepts expected) q) (andThen (takeIf accepts expected) q') := by
  intro ts hts
  by_cases h : accepts (ahead ts)
  · cases ts with
    | nil => exact absurd h hend
    | cons t ts =>
      obtain ⟨v, hv, hq⟩ := hq t ts (Nat.le_of_succ_le_succ hts)
      rw [andThen_takeIf h]
      refine ⟨t :: v, congrArg (t :: ·) hv, fun ts' hlen hnext => ?_⟩
      rw [List.cons_append, andThen_takeIf h]
      exact hq ts' (Nat.le_of_succ_le_succ hlen) hnext
  · rw [andThen_of_error (takeIf_of_not h)]
    exact ⟨[], rfl, fun ts' _ hnext => andThen_of_error (takeIf_of_not fun h' => h (hnext ▸ h'))⟩

theorem Agrees.mono {m : Nat} (h : Agrees n p p') (hm : m ≤ n) : Agrees m p p' := by
  intro ts hts
  obtain ⟨v, hv, hp⟩ := h ts (Nat.le_trans hts hm)
  exact ⟨v, hv, fun ts' hlen => hp ts' (Nat.le_trans hlen hm)⟩

theorem agrees_take_le {q q' : Token → List Token → Parsing β} {accepts : Token.Kind × String → Prop}
    [DecidablePred accepts] {expected : Expected} (hend : ¬accepts (.ending, "")) (hq : ∀ t, Agrees n (q t) (q' t)) :
    Agrees n (andThen (takeIf accepts expected) q) (andThen (takeIf accepts expected) q') :=
  (agrees_take hend hq).mono (Nat.le_succ n)

/-! ### Paths and literals -/

theorem agrees_name : Agrees n name name := by
  rw [name_eq]
  exact agrees_take_le (by simp) fun _ => agrees_give _

theorem agrees_fields : Agrees n fields fields := by
  induction n with
  | zero => exact .zero rfl rfl rfl rfl
  | succ n ih =>
    rw [fields_eq]
    refine agrees_look fun next => ?_
    split
    · exact agrees_take (by simp) fun _ => agrees_name.andThen fun _ => ih.andThen fun _ => agrees_give _
    · exact agrees_give _

theorem agrees_path : Agrees n path path := by
  rw [path_eq]
  exact agrees_name.andThen fun _ => agrees_fields.andThen fun _ => agrees_give _

/-- A numeral out of range is reported, so it may be replaced like a token that is left. -/
theorem agrees_signed (sign : String) : Agrees n (signed sign) (signed sign) := by
  intro ts _
  by_cases h : (ahead ts).1 = .number
  · cases ts with
    | nil => cases h
    | cons t ts =>
      rw [signed_cons h]
      cases hread : Text.readInt64? (sign ++ t.lexeme).toList with
      | some i =>
        have hnumber (more : List Token) : number t (sign ++ t.lexeme) more = .ok (.number i, more) := by
          rw [number, hread]
        rw [hnumber]
        exact ⟨[t], rfl, fun ts' _ _ => (signed_cons h).trans (hnumber ts')⟩
      | none =>
        have hnumber (u : Token) (more : List Token) :
            number u (sign ++ t.lexeme) more = .error (.outOfRange u (sign ++ t.lexeme) more) := by
          rw [number, hread]
        rw [hnumber]
        refine ⟨[], rfl, fun ts' _ hnext => ?_⟩
        cases ts' with
        | nil => exact absurd (congrArg Prod.fst hnext).symm (h ▸ nofun)
        | cons u us =>
          obtain ⟨hkind, hlexeme⟩ := Prod.ext_iff.mp hnext
          rw [List.nil_append, signed_cons (hkind.trans h), show u.lexeme = t.lexeme from hlexeme, hnumber]
          rfl
  · rw [signed_of_ne h]
    exact ⟨[], rfl, fun ts' _ hnext => signed_of_ne fun h' => h (hnext ▸ h')⟩

theorem agrees_literal : Agrees n literal literal := by
  rw [literal_eq]
  refine agrees_look fun next => ?_
  split
  · exact agrees_signed ""
  · split
    · exact agrees_take_le (by simp) fun _ => agrees_signed "-"
    · exact agrees_halt .literal
  · exact agrees_take_le (by simp) fun _ => agrees_give _
  · rename_i hk
    split
    · refine agrees_take_le ?_ fun _ => agrees_give _
      rintro rfl
      cases hk
    · exact agrees_halt .literal
  · exact agrees_halt .literal

/-! ### Conditions -/

theorem agrees_compared {γ : Type} {side : List Token → Parsing β} {other : List Token → Parsing γ} {alone : β → Expr}
    {both : CompareOp → β → γ → Expr} (hs : Agrees n side side) (ho : Agrees n other other) :
    Agrees n (compared side other alone both) (compared side other alone both) := by
  refine hs.andThen fun a => agrees_look fun next => ?_
  split
  · exact agrees_give _
  · rename_i op hop
    refine agrees_take_le ?_ fun _ => ho.andThen fun _ => agrees_give _
    rintro rfl
    cases hop

theorem agrees_pathFirst : Agrees n pathFirst pathFirst := by
  rw [pathFirst_eq]
  exact agrees_compared agrees_path agrees_literal

theorem agrees_literalFirst : Agrees n literalFirst literalFirst := by
  rw [literalFirst_eq]
  exact agrees_compared agrees_literal agrees_path

section Conditions

variable {group group' : List Token → Parsing Condition} (hg : Agrees n group group') {b b' : Nat}

include hg

theorem agrees_closed : Agrees n (closed group) (closed group') := by
  rw [closed_eq, closed_eq]
  exact hg.andThen fun _ => agrees_take_le (by simp) fun _ => agrees_give _

/-- In a group there is room for one token less, since its opening parenthesis has been taken. -/
theorem agrees_comparison : Agrees (n + 1) (comparison group) (comparison group') := by
  rw [comparison_eq, comparison_eq]
  refine agrees_look fun next => ?_
  split
  · exact agrees_pathFirst
  · exact agrees_literalFirst
  · exact agrees_literalFirst
  · exact agrees_literalFirst
  · exact agrees_literalFirst
  · exact agrees_take (by simp) fun _ => agrees_closed hg
  · split
    · exact agrees_take_le (by simp) fun _ => agrees_path.andThen fun _ => agrees_give _
    · exact agrees_halt .comparison
  · exact agrees_halt .comparison

omit hg

variable {symbol : String} {operand operand' : List Token → Parsing α}

theorem agrees_moreOperands (ho : Agrees n operand operand') (hb : n ≤ b) (hb' : n ≤ b') :
    Agrees n (moreOperands symbol operand b) (moreOperands symbol operand' b') := by
  induction n generalizing b b' with
  | zero => exact .zero (by cases b <;> rfl) (by cases b' <;> rfl) rfl rfl
  | succ n ih =>
    obtain ⟨b, rfl⟩ := Nat.exists_eq_succ_of_ne_zero (Nat.ne_zero_of_lt hb)
    obtain ⟨b', rfl⟩ := Nat.exists_eq_succ_of_ne_zero (Nat.ne_zero_of_lt hb')
    have hrest := ih (ho.mono (Nat.le_succ n)) (Nat.le_of_succ_le_succ hb) (Nat.le_of_succ_le_succ hb')
    rw [moreOperands_eq, moreOperands_eq]
    refine agrees_look fun next => ?_
    split
    · have ho := ho.mono (Nat.le_succ n)
      exact agrees_take (by simp) fun _ => ho.andThen fun _ => hrest.andThen fun _ => agrees_give _
    · exact agrees_give _

theorem agrees_operands (ho : Agrees n operand operand') (hb : n ≤ b) (hb' : n ≤ b') :
    Agrees n (operands symbol operand b) (operands symbol operand' b') := by
  rw [operands_eq, operands_eq]
  exact ho.andThen fun _ => (agrees_moreOperands ho hb hb').andThen fun _ => agrees_give _

include hg

theorem agrees_conjunction (hb : n + 1 ≤ b) (hb' : n + 1 ≤ b') :
    Agrees (n + 1) (conjunction group b) (conjunction group' b') := by
  rw [conjunction_eq, conjunction_eq]
  exact (agrees_operands (agrees_comparison hg) hb hb').andThen fun _ => agrees_give _

theorem agrees_disjunction (hb : n + 1 ≤ b) (hb' : n + 1 ≤ b') :
    Agrees (n + 1) (disjunction group b) (disjunction group' b') := by
  rw [disjunction_eq, disjunction_eq]
  exact (agrees_operands (agrees_conjunction hg hb hb') hb hb').andThen fun _ => agrees_give _

end Conditions

theorem agrees_condition {b b' d d' : Nat} (hb : n ≤ b) (hb' : n ≤ b') (hd : n ≤ d) (hd' : n ≤ d') :
    Agrees n (condition b d) (condition b' d') := by
  induction n generalizing d d' with
  | zero => exact .zero (by cases d <;> rfl) (by cases d' <;> rfl) rfl rfl
  | succ n ih =>
    obtain ⟨d, rfl⟩ := Nat.exists_eq_succ_of_ne_zero (Nat.ne_zero_of_lt hd)
    obtain ⟨d', rfl⟩ := Nat.exists_eq_succ_of_ne_zero (Nat.ne_zero_of_lt hd')
    have hgroup := ih (Nat.le_of_succ_le hb) (Nat.le_of_succ_le hb') (Nat.le_of_succ_le_succ hd)
      (Nat.le_of_succ_le_succ hd')
    exact agrees_disjunction hgroup hb hb'

/-! ### Calls -/

section Calls

variable {b b' : Nat} (hb : n ≤ b) (hb' : n ≤ b') (known : Option (List String))

theorem agrees_methodName : Agrees n (methodName known) (methodName known) := by
  cases known with
  | none =>
    rw [methodName_none]
    exact agrees_name
  | some names =>
    rw [methodName_some]
    refine agrees_look fun next => ?_
    split
    · exact agrees_halt (.methodName names)
    · exact agrees_name

include hb hb'

theorem agrees_lambda : Agrees n (lambda b) (lambda b') := by
  rw [lambda_eq, lambda_eq]
  exact agrees_name.andThen fun _ => agrees_take_le (by simp) fun _ =>
    (agrees_condition hb hb' (Nat.le_succ_of_le hb) (Nat.le_succ_of_le hb')).andThen fun _ => agrees_give _

theorem agrees_arguments (method : String) : Agrees n (arguments b method) (arguments b' method) :=
  agrees_take_le (by simp) fun _ => (agrees_lambda hb hb').andThen fun _ =>
    agrees_take_le (by simp) fun _ => agrees_give _

theorem agrees_call : Agrees n (call known b) (call known b') := by
  rw [call_eq, call_eq]
  exact (agrees_methodName known).andThen fun method => agrees_arguments hb hb' method

theorem agrees_calls {k k' : Nat} (hk : n ≤ k) (hk' : n ≤ k') : Agrees n (calls known b k) (calls known b' k') := by
  induction n generalizing k k' with
  | zero => exact .zero (by cases k <;> rfl) (by cases k' <;> rfl) rfl rfl
  | succ n ih =>
    obtain ⟨k, rfl⟩ := Nat.exists_eq_succ_of_ne_zero (Nat.ne_zero_of_lt hk)
    obtain ⟨k', rfl⟩ := Nat.exists_eq_succ_of_ne_zero (Nat.ne_zero_of_lt hk')
    have hb := Nat.le_of_succ_le hb
    have hb' := Nat.le_of_succ_le hb'
    have hrest := ih hb hb' (Nat.le_of_succ_le_succ hk) (Nat.le_of_succ_le_succ hk')
    rw [calls_eq, calls_eq]
    refine agrees_look fun next => ?_
    split
    · have hcall := agrees_call hb hb' known
      exact agrees_take (by simp) fun _ => hcall.andThen fun _ => hrest.andThen fun _ => agrees_give _
    · exact agrees_give _

theorem agrees_chainWithin : Agrees n (chainWithin known b) (chainWithin known b') :=
  agrees_take_le (by simp) fun _ => agrees_calls hb hb' known hb hb'

end Calls

/-! ### Queries -/

@[simp] theorem moved_left (r : Parsing α) : moved (left r) r = r := by
  match r with
  | .ok _ | .error (.unexpected _ _) | .error (.outOfRange _ _ _) => rfl

theorem Agrees.eq {n : Nat} {p p' : List Token → Parsing α} {ts : List Token} (h : Agrees n p p')
    (hts : ts.length ≤ n) : p' ts = p ts := by
  obtain ⟨v, hv, hp⟩ := h ts hts
  have hsame := hp (left (p ts)) (hv ▸ hts) rfl
  rwa [← hv, moved_left] at hsame

variable {known : Option (List String)}

theorem chain_eq_of_le {ts : List Token} {b : Nat} (h : ts.length ≤ b) : chain known ts = chainWithin known b ts := by
  rw [chain_eq]
  exact (agrees_chainWithin h (Nat.le_refl _) known).eq (Nat.le_refl _)

theorem chain_moved (known : Option (List String)) (ts : List Token) :
    ∃ v, ts = v ++ left (chain known ts) ∧
      ∀ ts', ahead ts' = ahead (left (chain known ts)) → chain known (v ++ ts') = moved ts' (chain known ts) := by
  have hsplit (b : Nat) (hb : ts.length ≤ b) := agrees_chainWithin (Nat.le_refl b) (Nat.le_refl b) known ts hb
  obtain ⟨v, hv, -⟩ := hsplit ts.length (Nat.le_refl _)
  rw [← chain_eq] at hv
  refine ⟨v, hv, fun ts' hnext => ?_⟩
  -- A bound for both lists: what is taken does not depend on it.
  have hb : ts.length ≤ max ts.length (v ++ ts').length := Nat.le_max_left _ _
  obtain ⟨w, hw, hmoved⟩ := hsplit _ hb
  rw [← chain_eq_of_le hb] at hw hmoved
  obtain rfl : w = v := List.append_cancel_right (hw.symm.trans hv)
  rw [chain_eq_of_le (Nat.le_max_right _ _)]
  exact hmoved ts' (Nat.le_max_right _ _) hnext

theorem query_of_chain_error {ts : List Token} {stop : Stop} (h : chain known ts = .error stop) :
    query known ts = .error stop := by
  rw [query, h]

/-- An error depends on the tokens before the reported one and on how that one looks, and on nothing else. -/
theorem query_moved {ts : List Token} {stop : Stop} (h : query known ts = .error stop) :
    ∃ v, ts = v ++ stop.found ∧
      ∀ ts', ahead ts' = ahead stop.found → query known (v ++ ts') = .error (stop.moved ts') := by
  obtain ⟨v, hv, hmoved⟩ := chain_moved known ts
  cases hc : chain known ts with
  | error stop' =>
    obtain rfl : stop' = stop := Except.error.inj ((query_of_chain_error hc).symm.trans h)
    rw [hc] at hv hmoved
    exact ⟨v, hv, fun ts' hnext => query_of_chain_error (hmoved ts' hnext)⟩
  | ok r =>
    obtain ⟨q, rest⟩ := r
    rw [hc] at hv hmoved
    have hquery {us vs : List Token} (h : chain known us = .ok (q, vs)) (hend : (ahead vs).1 ≠ .ending) :
        query known us = .error (.unexpected .ending vs) := by
      cases vs with
      | nil => exact absurd rfl hend
      | cons t vs => simp [query, h, ending, show t.kind ≠ .ending from hend, Except.map]
    by_cases hend : (ahead rest).1 = .ending
    · have hok : ∃ us, ending rest = .ok us := by
        cases rest with
        | nil => exact ⟨[], rfl⟩
        | cons t rest => exact ⟨rest, if_pos hend⟩
      obtain ⟨us, hus⟩ := hok
      simp [query, hc, hus, Except.map] at h
    · obtain rfl : Stop.unexpected .ending rest = stop := Except.error.inj ((hquery hc hend).symm.trans h)
      exact ⟨v, hv, fun ts' hnext => hquery (hmoved ts' hnext) (hnext ▸ hend)⟩

end Parsing

end RecordQuery
