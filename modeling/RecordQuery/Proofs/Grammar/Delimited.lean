import Mathlib.Data.List.Forall2
import RecordQuery.Proofs.Grammar.Located

/-! The first end among the tokens delimits a query. No rule takes it or looks behind it, and it looks like the end of
    the list, so whether it is there makes a difference to the place of an error only. A parser that has taken a query
    with its end stands at the tokens of the next one. -/

namespace RecordQuery

/-- The error, placed at `p` if it reports the end of a query. -/
def ParseError.endingAt (p : Nat) (e : ParseError) : ParseError :=
  if e.found = .ending then { e with position := p } else e

namespace Stop

variable {stop : Stop}

/-- With an end after the tokens that are left, a stop reports the same token, or the end in place of the end of the
    list. -/
theorem error_moved_atEnd (h : ∀ t ∈ stop.found, t.kind ≠ .ending) (p last last' : Nat) (junk : List Token) :
    (stop.moved (stop.found ++ .atEnd p :: junk)).error last' = (stop.error last).endingAt p := by
  match stop with
  | .unexpected expected [] => rfl
  | .unexpected expected (t :: ts) => exact (if_neg (h t List.mem_cons_self)).symm
  | .outOfRange digits numeral ts => exact (if_neg (h digits List.mem_cons_self)).symm

theorem position_of_ending (h : ∀ t ∈ stop.found, t.kind ≠ .ending) {last : Nat}
    (he : (stop.error last).found = .ending) : (stop.error last).position = last := by
  match stop with
  | .unexpected expected [] => rfl
  | .unexpected expected (t :: ts) => exact absurd he (h t List.mem_cons_self)
  | .outOfRange digits numeral ts => exact absurd he (h digits List.mem_cons_self)

end Stop

namespace Parsing

variable {known : Option (List String)} {ts : List Token}

/-! ### One query -/

theorem ahead_append_atEnd (ts : List Token) (p : Nat) (junk : List Token) :
    ahead (ts ++ .atEnd p :: junk) = ahead ts := by
  cases ts <;> rfl

theorem chain_append_atEnd (known : Option (List String)) (ts : List Token) (p : Nat) (junk : List Token) :
    chain known (ts ++ .atEnd p :: junk) =
      moved (left (chain known ts) ++ .atEnd p :: junk) (chain known ts) := by
  obtain ⟨v, hv, hmoved⟩ := chain_moved known ts
  have hchain := hmoved _ (ahead_append_atEnd (left (chain known ts)) p junk)
  rwa [← List.append_assoc, ← hv] at hchain

theorem query_of_chain_ok {rest : List Token} {q : Query} (h : chain known ts = .ok (q, rest)) :
    query known ts = (ending rest).map (q, ·) := by
  rw [query, h]

/-- Tokens without an end are read alike with an end after them, and nothing behind that end is taken. -/
theorem query_append_atEnd (known : Option (List String)) (h : ∀ t ∈ ts, t.kind ≠ .ending) (p : Nat)
    (junk : List Token) :
    query known (ts ++ .atEnd p :: junk) =
      match query known ts with
      | .error stop => .error (stop.moved (stop.found ++ .atEnd p :: junk))
      | .ok (q, _) => .ok (q, junk) := by
  have hchain := chain_append_atEnd known ts p junk
  cases hc : chain known ts with
  | error stop =>
    rw [hc] at hchain
    rw [query_of_chain_error hc]
    exact query_of_chain_error hchain
  | ok r =>
    obtain ⟨q, rest⟩ := r
    rw [hc] at hchain
    rw [query_of_chain_ok hc, query_of_chain_ok hchain]
    cases rest with
    | nil => rfl
    | cons t rest =>
      have ht : t.kind ≠ .ending := by
        obtain ⟨v, hv, -⟩ := chain_moved known ts
        rw [hc] at hv
        exact h t (hv ▸ List.mem_append_right v List.mem_cons_self)
      simp [left, ending, ht, Except.map, Stop.moved, Stop.found]

theorem found_ne_ending (h : ∀ t ∈ ts, t.kind ≠ .ending) {stop : Stop} (hq : query known ts = .error stop) :
    ∀ t ∈ stop.found, t.kind ≠ .ending := by
  obtain ⟨v, hv, -⟩ := query_moved hq
  exact fun t ht => h t (hv ▸ List.mem_append_right v ht)

end Parsing

namespace Grammar
open Parsing

variable {known : Option (List String)} {ts : List Token}

theorem exists_query_of_parseTokens {q : Query} (h : parseTokens known ts = .ok q) :
    ∃ rest, query known ts = .ok (q, rest) := by
  rw [parseTokens, Parser.ofTokens, Parser.next] at h
  cases hq : query known ts with
  | error stop => simp [hq] at h
  | ok r =>
    obtain ⟨q', rest⟩ := r
    simp only [hq, Except.ok.injEq] at h
    exact ⟨rest, by rw [h]⟩

theorem parseTokens_append_atEnd (h : ∀ t ∈ ts, t.kind ≠ .ending) (p : Nat) (junk : List Token) :
    parseTokens known (ts ++ .atEnd p :: junk) = (parseTokens known ts).mapError (ParseError.endingAt p) := by
  have hquery := query_append_atEnd known h p junk
  simp only [parseTokens, Parser.ofTokens, Parser.next]
  cases hq : query known ts with
  | error stop =>
    rw [hq] at hquery
    rw [hquery]
    exact congrArg Except.error (Stop.error_moved_atEnd (found_ne_ending h hq) p _ _ junk)
  | ok r =>
    rw [hq] at hquery
    rw [hquery]
    rfl

/-! ### One query after another -/

/-- A parser at a query with its end gives the query and goes on behind the end. -/
theorem next_accepted {q : Query} (h : ∀ t ∈ ts, t.kind ≠ .ending) (hq : parseTokens known ts = .ok q)
    (p last : Nat) (rest : List Token) :
    (Parser.mk (ts ++ .atEnd p :: rest) last known).next = (.ok q, ⟨rest, last, known⟩) := by
  obtain ⟨us, hus⟩ := exists_query_of_parseTokens hq
  have hquery := query_append_atEnd known h p rest
  rw [hus] at hquery
  rw [Parser.next, hquery]

/-- A parser without tokens misses `this` again and again. -/
theorem nextQueries_nil (last k : Nat) :
    (Parser.mk [] last known).nextQueries k = List.replicate k (.error ⟨last, .this, .ending, none⟩) := by
  induction k with
  | zero => rfl
  | succ k ih => exact congrArg (_ :: ·) ih

/-- The tokens of queries one after another, each with its end after it at its place. -/
def delimited (queries : List (List Token × Nat)) : List Token := queries.flatMap fun s => s.1 ++ [.atEnd s.2]

/-- The tokens have no end and are accepted as the query. -/
def AcceptedAlone (known : Option (List String)) (s : List Token × Nat) (q : Query) : Prop :=
  (∀ t ∈ s.1, t.kind ≠ .ending) ∧ parseTokens known s.1 = .ok q

theorem nextQueries_delimited {queries : List (List Token × Nat)} {qs : List Query}
    (h : List.Forall₂ (AcceptedAlone known) queries qs) (last k : Nat) :
    (Parser.mk (delimited queries) last known).nextQueries (qs.length + k) =
      qs.map .ok ++ (Parser.mk [] last known).nextQueries k := by
  induction h with
  | nil => rw [List.length_nil, Nat.zero_add]; rfl
  | @cons s q queries qs hs _ ih =>
    obtain ⟨hts, hq⟩ := hs
    have hsplit : delimited (s :: queries) = s.1 ++ .atEnd s.2 :: delimited queries := by simp [delimited]
    rw [List.length_cons, Nat.succ_add, Parser.nextQueries, hsplit, next_accepted hts hq, ih]
    rfl

/-- Tokens without an end give the same tree or the same error if an end comes after them, whatever comes after that;
    only an error at the end has the place of the end then, and otherwise the place of the last token. And of queries
    with an end after each, a parser gives one after another, and when they are at an end it misses `this` at the last
    token again and again. -/
theorem parseTokens_delimited (known : Option (List String)) :
    (∀ ts p junk, (∀ t ∈ ts, t.kind ≠ .ending) →
      parseTokens known (ts ++ .atEnd p :: junk) = (parseTokens known ts).mapError (ParseError.endingAt p) ∧
        ∀ e, parseTokens known ts = .error e → e.found = .ending → e.position = lastPosition ts) ∧
      ∀ queries qs k, List.Forall₂ (AcceptedAlone known) queries qs →
        (Parser.ofTokens known (delimited queries)).nextQueries (qs.length + k) =
          qs.map .ok ++ List.replicate k (.error ⟨lastPosition (delimited queries), .this, .ending, none⟩) := by
  refine ⟨fun ts p junk hts => ⟨parseTokens_append_atEnd hts p junk, fun e he hfound => ?_⟩, fun queries qs k h => ?_⟩
  · obtain ⟨stop, hstop, rfl⟩ := parseTokens_eq_error.mp he
    exact Stop.position_of_ending (found_ne_ending hts hstop) hfound
  · rw [← nextQueries_nil]
    exact nextQueries_delimited h _ k

/-- Two queries, and a further call that misses the third one at the end of the second. -/
example :
    (Parser.ofTokens none (delimited
      [([⟨.this, some "this", 0⟩], 4), ([⟨.this, some "this", 5⟩], 9)])).nextQueries 3 =
        [.ok [], .ok [], .error ⟨9, .this, .ending, none⟩] :=
  rfl

end Grammar

end RecordQuery
