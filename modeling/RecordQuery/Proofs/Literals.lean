import RecordQuery.Proofs.Decimal
import RecordQuery.Proofs.Derived
import RecordQuery.Proofs.Grammar.Exchange
import RecordQuery.Proofs.Grammar.Neighbours
import RecordQuery.Proofs.Spacing

/-! Integers in the place of a literal. A numeral is cut out of the text like the literal that it stands for, so the rest
    of the query is read as before, and the number is the exact one, or the numeral is reported. -/

namespace RecordQuery
open Grammar Parsing Text

/-! ### The place of a literal -/

/-- What ends where a word starts is no word, so it also ends where other characters stand. -/
theorem Lexeme.Ends.of_letter {l : Lexeme} {rest more : List Char} {c : Char} (h : l.Ends ('n' :: rest))
    (hk : l.kind ≠ .number) (hgt : c ≠ '>') (heq : c ≠ '=') : l.Ends (c :: more) := by
  obtain ⟨kind, text⟩ := l
  intro d hd
  obtain rfl := Option.some.inj hd
  cases kind with
  | number => exact absurd rfl hk
  | identifier => cases (h 'n' rfl : isNameChar 'n' = false)
  | this | keyword => cases (h 'n' rfl : isWord 'n' = false)
  | operator => exact ⟨fun _ => hgt, fun _ => heq⟩
  | _ => trivial

/-- Between the two texts there is a place for a literal: with `null` there, they are a query that has it as a token. -/
def LiteralPosition (known : Option (List String)) (before after : String) : Prop :=
  (∃ q, parseWith known (before ++ "null" ++ after) = .ok q) ∧
    ∃ ts, scan (before ++ "null" ++ after) = .ok ts ∧ nullAt before.length ∈ ts

/-- The tokens around a place for a literal. A token that reaches up to the place goes on with no literal, and the text
    behind the place goes on with none either. -/
structure Around (known : Option (List String)) (before after : String) (v w : List Token) : Prop where
  front : Cut 0 before.toList v
  back : ∃ p, Cut p after.toList w
  parsed : ∃ q last, parseTokens known (v ++ nullAt before.length :: (w ++ [.atEnd last])) = .ok q
  left : ∀ t ∈ v, t.stop = before.length → t.kind ≠ .number ∧ ∃ rest, t.toLexeme.Ends ('n' :: rest)
  right : ∀ c ∈ after.toList.head?, isWord c = false

/-- No numeral stands right before another literal. -/
theorem not_number_of_apart {v w : List Token} {t : Token} {p : Nat} (h : (v ++ [t] ++ nullAt p :: w).IsChain Apart) :
    t.kind ≠ .number := by
  intro hk
  obtain ⟨-, -, hapart⟩ := List.isChain_append.mp h
  refine hapart t (by simp) (nullAt p) rfl ⟨?_, ?_⟩
  · simp [Token.IsOperand, hk]
  · simp [Token.IsOperand, nullAt]

theorem LiteralPosition.around {known : Option (List String)} {before after : String}
    (h : LiteralPosition known before after) : ∃ v w, Around known before after v w := by
  obtain ⟨⟨q, hq⟩, ts, hscan, hmem⟩ := h
  obtain ⟨ts', hscan', hparsed⟩ := parseWith_eq_ok_iff.mp hq
  obtain rfl : ts = ts' := Except.ok.inj (hscan.symm.trans hscan')
  have htext : (before ++ "null" ++ after).toList = before.toList ++ ("null".toList ++ after.toList) := by
    rw [String.toList_append, String.toList_append, List.append_assoc]
  obtain ⟨body, rfl, hbody⟩ : ∃ body, ts = body ++ [.atEnd (0 + (before ++ "null" ++ after).toList.length)] ∧
      Cut 0 (before ++ "null" ++ after).toList body := Token.cut_of_listFrom hscan
  rw [htext] at hbody
  have hnull : nullAt before.length ∈ body := by
    refine (List.mem_append.mp hmem).resolve_right fun hlast => ?_
    cases List.mem_singleton.mp hlast
  obtain ⟨v, w, rfl⟩ := List.append_of_mem hnull
  -- The place of the literal says where the text is divided.
  obtain ⟨ds, rest, hsplit, hlen, hfront, hright, hback⟩ := hbody.of_middle
  have hlen : before.toList.length = ds.length := by
    rw [String.length_toList]
    exact hlen.trans (Nat.zero_add _)
  obtain ⟨rfl, hrest⟩ := List.append_inj hsplit hlen
  have hwritten : (nullAt before.length).toLexeme.written = "null".toList := by
    simp [Lexeme.written, Token.toLexeme, Token.lexeme, nullAt]
  rw [hwritten] at hrest
  obtain rfl := List.append_cancel_left hrest
  refine ⟨v, w, hfront, ⟨_, hback⟩, ⟨q, _, by simpa using hparsed⟩, fun t ht hstop => ⟨?_, after.toList, ?_⟩, hright⟩
  · have hquery : parse (before ++ "null" ++ after) = .ok q := by
      cases known with
      | none => exact hq
      | some names => exact (parseWith_known_iff.mp hq).1
    obtain ⟨body, hcut, hlinq⟩ := parse_eq_ok_iff.mp hquery
    rw [htext] at hcut
    obtain rfl := hbody.unique hcut
    obtain ⟨v', rfl⟩ := (hbody.divides rfl).exists_concat ht hstop
    exact not_number_of_apart hlinq.apart
  · have hends := (hbody.divides rfl).ends (List.mem_append_left _ ht) rfl (hstop.trans String.length_toList.symm)
    exact hends

/-- In front of a text that does not start with a word character, the characters are cut into the tokens `l`, and no
    operator goes on with them. -/
structure Stands (p : Nat) (cs : List Char) (l : List Token) : Prop where
  head : ∃ c more, cs = c :: more ∧ c ≠ '>' ∧ c ≠ '='
  cut : ∀ rest ts, (∀ c ∈ rest.head?, isWord c = false) → Cut (p + cs.length) rest ts → Cut p (cs ++ rest) (l ++ ts)

/-- With another literal in its place, or with a numeral out of range, the rest of the text is read as before. -/
theorem parse_exchange {known : Option (List String)} {before after : String}
    (h : LiteralPosition known before after) :
    ∃ c : Query.Context, ∀ (text : String) (l : List Token) (r : Outcome), Stands before.length text.toList l →
      ReadsAs l r → l.length ≤ 2 → parseWith known (before ++ text ++ after) = (parsed c r).mapError .parse := by
  obtain ⟨v, w, hfront, ⟨p, hback⟩, ⟨q, last, hparsed⟩, hleft, hright⟩ := h.around
  obtain ⟨c, hc⟩ := parseTokens_exchange hfront.ne_ending hparsed
  refine ⟨c, fun text l r htext hl hlen => ?_⟩
  obtain ⟨w', hback', hw'⟩ := hback.spells (before.length + text.toList.length)
  have hcut : Cut 0 (before ++ text ++ after).toList (v ++ (l ++ w')) := by
    rw [String.toList_append, String.toList_append, List.append_assoc]
    refine (hfront.append_iff fun t ht hstop => ?_).mpr ⟨_, rfl, ?_⟩
    · rw [Nat.zero_add, String.length_toList] at hstop
      obtain ⟨hk, rest, hends⟩ := hleft t ht hstop
      obtain ⟨c, more, hhead, hgt, heq⟩ := htext.head
      rw [hhead]
      exact hends.of_letter hk hgt heq
    · rw [Nat.zero_add, String.length_toList]
      exact htext.cut _ _ hright hback'
  have hscan : scan (before ++ text ++ after) = .ok (v ++ (l ++ w') ++ [.atEnd _]) := Token.listFrom_of_cut hcut
  have halike (n : Nat) : Alike (w' ++ [.atEnd n]) (w ++ [.atEnd last]) := by
    rw [Alike, List.map_append, List.map_append, hw']
    rfl
  rw [parseWith, hscan, List.append_assoc, List.append_assoc]
  exact congrArg (Except.mapError _) (hc l r _ hl hlen (halike _))

/-! ### Numerals -/

/-- What a numeral of these digits comes to. -/
def numeralOutcome (digits : Token) (numeral : String) : Outcome :=
  match readInt64? numeral.toList with
  | some n => .ok (.number n)
  | none => .error (digits, numeral)

theorem number_eq_filled (digits : Token) (numeral : String) (rest : List Token) :
    number digits numeral rest = filled id rest rest (numeralOutcome digits numeral) := by
  rw [number, numeralOutcome]
  cases readInt64? numeral.toList <;> rfl

def digitsAt (d : String) (position : Nat) : Token := ⟨.number, some d, position⟩

def minusAt (position : Nat) : Token := ⟨.addSub, some "-", position⟩

theorem readsAs_digits (d : String) (p : Nat) : ReadsAs [digitsAt d p] (numeralOutcome (digitsAt d p) d) :=
  fun rest => number_eq_filled (digitsAt d p) d rest

theorem readsAs_negative (d : String) (p q : Nat) :
    ReadsAs [minusAt p, digitsAt d q] (numeralOutcome (digitsAt d q) ("-" ++ d)) :=
  fun rest => number_eq_filled (digitsAt d q) ("-" ++ d) rest

theorem stands_null (p : Nat) : Stands p "null".toList [nullAt p] := by
  refine ⟨⟨'n', _, rfl, by decide, by decide⟩, fun rest ts hrest hts => ?_⟩
  exact Cut.lexeme (l := ⟨.keyword, "null".toList⟩) (by simp [Lexeme.Valid, valueWords]) hrest hts

theorem Cut.digits {d : String} (hd : isDigits d.toList = true) {p : Nat} {rest : List Char} {ts : List Token}
    (hrest : ∀ c ∈ rest.head?, isWord c = false) (hts : Cut (p + d.toList.length) rest ts) :
    Cut p (d.toList ++ rest) (digitsAt d p :: ts) := by
  have hends : Lexeme.Ends ⟨.number, d.toList⟩ rest := fun c hc =>
    (isNameChar_eq_false_iff.mp (Lexeme.isNameChar_of_not_isWord (hrest c hc))).2
  have hcut := Cut.lexeme (l := ⟨.number, d.toList⟩) (isDigits_iff.mp hd) hends hts
  rwa [Lexeme.token, String.ofList_toList] at hcut

theorem stands_digits {d : String} (hd : isDigits d.toList = true) (p : Nat) : Stands p d.toList [digitsAt d p] := by
  refine ⟨?_, fun rest ts hrest hts => Cut.digits hd hrest hts⟩
  obtain ⟨hne, hall⟩ := isDigits_iff.mp hd
  obtain ⟨c, more, hc⟩ := List.exists_cons_of_ne_nil hne
  have hdigit : c.isDigit = true := hall c (by simp [hc])
  refine ⟨c, more, hc, ?_, ?_⟩ <;> rintro rfl <;> cases hdigit

theorem stands_negative {d gap : String} (hd : isDigits d.toList = true) (hg : Blanks gap.toList) (p : Nat) :
    Stands p ("-" ++ gap ++ d).toList [minusAt p, digitsAt d (p + 1 + gap.length)] := by
  rw [String.toList_append, String.toList_append, List.append_assoc]
  refine ⟨⟨'-', _, rfl, by decide, by decide⟩, fun rest ts hrest hts => ?_⟩
  rw [List.append_assoc, List.append_assoc]
  refine Cut.lexeme (l := ⟨.addSub, "-".toList⟩) (by simp [Lexeme.Valid]) (fun _ _ => trivial) (Cut.blanks hg ?_)
  have hlen : p + ("-".toList ++ (gap.toList ++ d.toList)).length = p + 1 + gap.length + d.toList.length := by
    rw [List.length_append, List.length_append, @String.length_toList gap, ← Nat.add_assoc, ← Nat.add_assoc]
    rfl
  rw [hlen] at hts
  rw [String.length_toList]
  exact Cut.digits hd hrest hts

/-- A numeral gives the number that it denotes, and only if the number is in range. -/
theorem numeral_exact {c : Query.Context} {digits : Token} {numeral : String} {m : Int}
    {result : Except QueryError Query} (hm : readInt64? numeral.toList = int64? m)
    (hresult : result = (parsed c (numeralOutcome digits numeral)).mapError .parse) :
    ((∃ n : Int64, n.toInt = m ∧ result = .ok (c.fill (.number n))) ↔ -2 ^ 63 ≤ m ∧ m < 2 ^ 63) ∧
      (¬(-2 ^ 63 ≤ m ∧ m < 2 ^ 63) →
        result = .error (.parse ⟨digits.position, .numberInRange, digits.kind, some numeral⟩)) := by
  rw [numeralOutcome, hm] at hresult
  cases hread : int64? m with
  | some n =>
    have hin : ¬(m < -2 ^ 63 ∨ 2 ^ 63 ≤ m) := fun h => by
      rw [int64?_eq_none_iff.mpr h] at hread
      cases hread
    rw [hread] at hresult
    have hrange : -2 ^ 63 ≤ m ∧ m < 2 ^ 63 := by omega
    exact ⟨⟨fun _ => hrange, fun _ => ⟨n, toInt_of_int64? hread, hresult⟩⟩, fun h => absurd hrange h⟩
  | none =>
    have hout : ¬(-2 ^ 63 ≤ m ∧ m < 2 ^ 63) := by
      have := int64?_eq_none_iff.mp hread
      omega
    rw [hread] at hresult
    refine ⟨⟨fun ⟨n, _, hn⟩ => ?_, fun h => absurd h hout⟩, fun _ => hresult⟩
    rw [hresult] at hn
    cases hn

/-- Digits of any length in the place of a literal are the number that they denote if it is at most `2 ^ 63 - 1`, and
    after a minus sign, with any blanks between, if it is at most `2 ^ 63`. All other numerals are reported at the place
    of their digits. The rest of the query is read as it is with any other literal. -/
theorem integer_literal {known : Option (List String)} {before after : String}
    (h : LiteralPosition known before after) :
    ∃ c : Query.Context, parseWith known (before ++ "null" ++ after) = .ok (c.fill (.keyword .null)) ∧
      ∀ d : String, isDigits d.toList = true →
        let m := natOfDigits d.toList
        ((∃ n : Int64, n.toInt = m ∧ parseWith known (before ++ d ++ after) = .ok (c.fill (.number n))) ↔
            m ≤ 2 ^ 63 - 1) ∧
          (¬m ≤ 2 ^ 63 - 1 → parseWith known (before ++ d ++ after) =
            .error (.parse ⟨before.length, .numberInRange, .number, some d⟩)) ∧
          ∀ gap : String, Blanks gap.toList →
            ((∃ n : Int64, n.toInt = -(m : Int) ∧
                parseWith known (before ++ ("-" ++ gap ++ d) ++ after) = .ok (c.fill (.number n))) ↔ m ≤ 2 ^ 63) ∧
              (¬m ≤ 2 ^ 63 → parseWith known (before ++ ("-" ++ gap ++ d) ++ after) =
                .error (.parse ⟨before.length + 1 + gap.length, .numberInRange, .number, some ("-" ++ d)⟩)) := by
  obtain ⟨c, hc⟩ := parse_exchange h
  refine ⟨c, hc "null" _ _ (stands_null _) (readsAs_null _) (by simp), fun d hd => ?_⟩
  intro m
  have hpositive := hc d _ _ (stands_digits hd _) (readsAs_digits d _) (by simp)
  obtain ⟨hexact, herror⟩ := numeral_exact (readInt64?_digits hd) hpositive
  have hrange : -2 ^ 63 ≤ (m : Int) ∧ (m : Int) < 2 ^ 63 ↔ m ≤ 2 ^ 63 - 1 := by omega
  refine ⟨hexact.trans hrange, fun hm => herror (mt hrange.mp hm), fun gap hg => ?_⟩
  have hnegative := hc ("-" ++ gap ++ d) _ _ (stands_negative hd hg _) (readsAs_negative d _ _) (by simp)
  have hread : readInt64? ("-" ++ d).toList = int64? (-(m : Int)) := by
    rw [String.toList_append]
    exact readInt64?_minus hd
  obtain ⟨hexact, herror⟩ := numeral_exact hread hnegative
  have hrange : -2 ^ 63 ≤ -(m : Int) ∧ -(m : Int) < 2 ^ 63 ↔ m ≤ 2 ^ 63 := by omega
  exact ⟨hexact.trans hrange, fun hm => herror (mt hrange.mp hm)⟩

/-- The smallest integer can be written, with a zero in front and a blank after its sign, but not its digits alone. -/
theorem integer_literal_bounds :
    let before := "this.Where(x => x.a == "
    let digits := "09223372036854775808"
    LiteralPosition none before ")" ∧
      ∃ c : Query.Context, parse (before ++ "null" ++ ")") = .ok (c.fill (.keyword .null)) ∧
        parse (before ++ ("-" ++ " " ++ digits) ++ ")") = .ok (c.fill (.number Int64.minValue)) ∧
        parse (before ++ digits ++ ")") = .error (.parse ⟨23, .numberInRange, .number, some digits⟩) := by
  intro before digits
  have hplace : before.length = 23 := by decide +kernel
  have hposition : LiteralPosition none before ")" := by
    have hlen : (parse (before ++ "null" ++ ")")).map List.length = .ok 1 := by decide +kernel
    obtain ⟨q, hq, -⟩ := map_eq_ok hlen
    have hscan : (scan (before ++ "null" ++ ")")).map (·.contains (nullAt before.length)) = .ok true := by decide +kernel
    obtain ⟨ts, hts, hmem⟩ := map_eq_ok hscan
    exact ⟨⟨q, hq⟩, ts, hts, List.contains_iff_mem.mp hmem⟩
  obtain ⟨c, hnull, hdigits⟩ := integer_literal hposition
  obtain ⟨-, herror, hnegative⟩ := hdigits digits (by decide +kernel)
  obtain ⟨hexact, -⟩ := hnegative " " (by decide +kernel)
  obtain ⟨n, hn, hparse⟩ := hexact.mpr (by decide +kernel)
  have hmin : n = Int64.minValue := Int64.toInt_inj.mp (hn.trans (by decide +kernel))
  exact ⟨hposition, c, hnull, hmin ▸ hparse, hplace ▸ herror (by decide +kernel)⟩

end RecordQuery
