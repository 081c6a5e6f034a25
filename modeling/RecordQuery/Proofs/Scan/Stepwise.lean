import Mathlib.Data.List.TakeWhile
import RecordQuery.Proofs.Basic
import RecordQuery.Query.Scanner

/-! Tokens that are taken one at a time. A scanner gives the tokens of its text one after another, and from then on
    the end of the text, or the error at a character that starts no lexeme, on every further call. However many have
    been taken, taking all tokens that are left gives those that have not been taken yet, or that error. -/

namespace RecordQuery.Scanner
open Text

variable {s : Scanner}

/-! ### One call -/

theorem skipBlanks_skipBlanks (s : Scanner) : s.skipBlanks.skipBlanks = s.skipBlanks := by
  have hnone : (s.rest.dropWhile isBlank).takeWhile isBlank = [] :=
    List.takeWhile_eq_nil_iff.mpr (List.dropWhile_get_zero_not isBlank s.rest)
  have hrest : s.skipBlanks.rest = s.rest.dropWhile isBlank := drop_takeWhile_length isBlank s.rest
  rw [skipBlanks, hrest, hnone]
  rfl

/-- Blanks that are skipped before a call make no difference to it. -/
theorem next_skipBlanks (s : Scanner) : s.skipBlanks.next = s.next := by
  rw [next, next, skipBlanks_skipBlanks]

/-- What a call can do: behind the blanks it finds the end of the text, a character that starts no lexeme, or a
    lexeme, and it goes on behind that only. -/
theorem next_cases (s : Scanner) :
    (s.skipBlanks.rest = [] ∧ s.next = (.ok (.atEnd s.skipBlanks.position), s.skipBlanks)) ∨
      (∃ c, s.next = (.error ⟨s.skipBlanks.position, c⟩, s.skipBlanks)) ∨
      ∃ l, Lexeme.first? s.skipBlanks.rest = some l ∧
        s.next = (.ok (l.token s.skipBlanks.position), s.skipBlanks.advance l.written.length) := by
  rw [next]
  cases hr : s.skipBlanks.rest with
  | nil => exact .inl ⟨rfl, rfl⟩
  | cons c cs =>
    cases hl : Lexeme.first? (c :: cs) with
    | none => exact .inr (.inl ⟨c, rfl⟩)
    | some l => exact .inr (.inr ⟨l, rfl, rfl⟩)

/-- What a call gives is final: an error, or the end of the text. -/
def Final (result : Except LexError Token) : Prop := ∀ t, result = .ok t → t.kind = .ending

theorem next_of_final (h : Final s.next.1) : s.next.2 = s.skipBlanks := by
  rcases s.next_cases with ⟨-, hn⟩ | ⟨c, hn⟩ | ⟨l, hl, hn⟩
  · rw [hn]
  · rw [hn]
  · rw [hn] at h
    exact absurd (h _ rfl) (Lexeme.kind_ne_ending_of_first? hl)

theorem exists_token_of_not_final (h : ¬Final s.next.1) :
    ∃ t, s.next.1 = .ok t ∧ t.kind ≠ .ending ∧ s.next.2.rest.length < s.rest.length := by
  rcases s.next_cases with ⟨-, hn⟩ | ⟨c, hn⟩ | ⟨l, hl, hn⟩
  · rw [hn] at h
    exact absurd (fun t ht => by cases ht; rfl) h
  · rw [hn] at h
    exact absurd nofun h
  · obtain ⟨hne, hp⟩ := Lexeme.written_of_first? hl
    have hpos : 0 < l.written.length := List.length_pos_iff.mpr hne
    have hle := hp.length_le
    refine ⟨l.token s.skipBlanks.position, by rw [hn], Lexeme.kind_ne_ending_of_first? hl, ?_⟩
    rw [hn]
    simp only [advance, skipBlanks, List.length_drop] at hle ⊢
    omega

theorem nextTokens_succ (n : Nat) (s : Scanner) :
    nextTokens (n + 1) s = (s.next.1 :: (nextTokens n s.next.2).1, (nextTokens n s.next.2).2) := rfl

/-! ### Runs -/

/-- The scanner gives the tokens `read` one after another, and then `last`, which is final. -/
inductive Runs : Scanner → List Token → Except LexError Token → Prop
  | stop {s : Scanner} (h : Final s.next.1) : Runs s [] s.next.1
  | token {s : Scanner} {t : Token} {read : List Token} {last : Except LexError Token} (ht : s.next.1 = .ok t)
      (hk : t.kind ≠ .ending) (h : Runs s.next.2 read last) : Runs s (t :: read) last

/-- Each call that gives a token leaves less of the text, so every scanner comes to its last result. -/
theorem exists_runs (s : Scanner) : ∃ read last, Runs s read last := by
  induction hn : s.rest.length using Nat.strongRecOn generalizing s with
  | ind n ih =>
    by_cases h : Final s.next.1
    · exact ⟨[], _, .stop h⟩
    · obtain ⟨t, ht, hk, hlt⟩ := exists_token_of_not_final h
      obtain ⟨read, last, hrun⟩ := ih _ (hn ▸ hlt) s.next.2 rfl
      exact ⟨t :: read, last, .token ht hk hrun⟩

namespace Runs

variable {read : List Token} {last : Except LexError Token}

theorem ne_ending (h : Runs s read last) : ∀ t ∈ read, t.kind ≠ .ending := by
  induction h with
  | stop _ => nofun
  | token _ hk _ ih => exact List.forall_mem_cons.mpr ⟨hk, ih⟩

/-- One call takes one token, and the last result stays. -/
theorem next (h : Runs s read last) :
    s.next.1 = (read.head?.map .ok).getD last ∧ Runs s.next.2 read.tail last := by
  cases h with
  | stop h =>
    refine ⟨rfl, ?_⟩
    rw [next_of_final h, ← next_skipBlanks]
    exact .stop (by rwa [next_skipBlanks])
  | token ht _ h => exact ⟨ht, h⟩

theorem nextTokens (h : Runs s read last) (n : Nat) :
    (s.nextTokens n).1 = (read.take n).map .ok ++ List.replicate (n - read.length) last ∧
      Runs (s.nextTokens n).2 (read.drop n) last := by
  induction n generalizing s read with
  | zero => exact ⟨by simp [Scanner.nextTokens], by simpa [Scanner.nextTokens] using h⟩
  | succ n ih =>
    obtain ⟨hfirst, hrest⟩ := h.next
    obtain ⟨hresults, hrun⟩ := ih hrest
    rw [nextTokens_succ, hfirst, hresults]
    cases read with
    | nil => exact ⟨by simp [List.replicate_succ], by simpa using hrun⟩
    | cons t read => exact ⟨by simp, hrun⟩

/-- All tokens at once are those that the calls give one after another, with the end behind them, unless the calls
    come to an error. -/
theorem tokens (h : Runs s read last) : s.tokens = last.map (read ++ [·]) := by
  induction h with
  | @stop s h =>
    rw [tokens_eq_next]
    split
    · rename_i hn
      rw [hn]
      rfl
    · rename_i t _ hn
      rw [hn] at h ⊢
      rw [if_pos (h t rfl)]
      rfl
  | @token s t read last ht hk h ih =>
    have hn : s.next = (.ok t, s.next.2) := by rw [← ht]
    rw [tokens_eq_next, hn]
    simp only [hk, ↓reduceIte, ih]
    cases last <;> rfl

/-- A last token is given as one of the tokens and then again and again. -/
theorem nextTokens_ok {t : Token} (h : Runs s read (.ok t)) (n : Nat) :
    (s.nextTokens n).1 =
        ((read ++ [t]).take n).map .ok ++ List.replicate (n - (read ++ [t]).length) (.ok t) ∧
      (s.nextTokens n).2.tokens = .ok (if n < (read ++ [t]).length then (read ++ [t]).drop n else [t]) := by
  obtain ⟨hresults, hrun⟩ := h.nextTokens n
  have hlength : (read ++ [t]).length = read.length + 1 := List.length_append
  rw [hresults, hrun.tokens]
  rcases Nat.lt_or_ge read.length n with hn | hn
  · have hall : (read ++ [t]).length ≤ n := hlength ▸ hn
    have hmore : n - read.length = n - (read ++ [t]).length + 1 := by omega
    rw [List.take_of_length_le hn.le, List.take_of_length_le hall, List.drop_of_length_le hn.le,
      if_neg (Nat.not_lt_of_le hall), hmore, List.replicate_succ]
    exact ⟨by simp, rfl⟩
  · have hsome : n < (read ++ [t]).length := hlength ▸ Nat.lt_succ_of_le hn
    rw [List.take_append_of_le_length hn, List.drop_append_of_le_length hn, if_pos hsome,
      Nat.sub_eq_zero_of_le hn, Nat.sub_eq_zero_of_le hsome.le]
    exact ⟨rfl, rfl⟩

/-- The calls that give an error are those after the tokens. -/
theorem existsUnique_error {e : LexError} (h : Runs s read (.error e)) :
    ∃! m, ∀ n, ∃ given : List Token, given.length = min n m ∧ (∀ t ∈ given, t.kind ≠ .ending) ∧
      (s.nextTokens n).1 = given.map .ok ++ List.replicate (n - m) (.error e) ∧
      (s.nextTokens n).2.tokens = .error e := by
  refine ⟨read.length, fun n => ?_, fun m hm => ?_⟩
  · obtain ⟨hresults, hrun⟩ := h.nextTokens n
    have hread : ∀ t ∈ read.take n, t.kind ≠ .ending := fun t ht => h.ne_ending t (List.mem_of_mem_take ht)
    exact ⟨read.take n, List.length_take, hread, hresults, hrun.tokens⟩
  · -- after enough calls the tokens among the results are `read`, and they are as many as `m` says
    obtain ⟨given, hlen, -, hresults, -⟩ := hm (m + read.length)
    rw [(h.nextTokens _).1, List.take_of_length_le (Nat.le_add_left _ _)] at hresults
    have hgiven := congrArg (List.filterMap Except.toOption) hresults
    have hread : read = given := by
      simpa [Function.comp_def, Except.toOption, List.filterMap_replicate] using hgiven
    rw [hread, hlen, Nat.min_eq_right (Nat.le_add_right _ _)]

end Runs

/-! ### Places -/

/-- The scanner stands in the text: what is left comes after the characters that have been counted. -/
structure Over (text : String) (s : Scanner) : Prop where
  position_le : s.position ≤ text.length
  rest_eq : s.rest = text.toList.drop s.position

namespace Over

variable {text : String}

theorem advance (h : s.Over text) {n : Nat} (hn : n ≤ s.rest.length) : (s.advance n).Over text := by
  obtain ⟨hp, hr⟩ := h
  rw [hr, List.length_drop, String.length_toList] at hn
  refine ⟨?_, by rw [Scanner.advance, hr, List.drop_drop]⟩
  calc
    s.position + n ≤ s.position + (text.length - s.position) := Nat.add_le_add_left hn _
    _ = text.length := Nat.add_sub_cancel' hp

theorem skipBlanks (h : s.Over text) : s.skipBlanks.Over text :=
  h.advance (List.takeWhile_prefix _).length_le

theorem next (h : s.Over text) : s.next.2.Over text := by
  rcases s.next_cases with ⟨-, hn⟩ | ⟨c, hn⟩ | ⟨l, hl, hn⟩
  · rw [hn]
    exact h.skipBlanks
  · rw [hn]
    exact h.skipBlanks
  · rw [hn]
    exact h.skipBlanks.advance (Lexeme.written_of_first? hl).2.length_le

theorem nextTokens (h : s.Over text) (n : Nat) : (s.nextTokens n).2.Over text := by
  induction n generalizing s with
  | zero => exact h
  | succ n ih => exact ih h.next

/-- The end is found at the number of characters of the text. -/
theorem eq_atEnd (h : s.Over text) {t : Token} (ht : s.next.1 = .ok t) (hk : t.kind = .ending) :
    t = .atEnd text.length := by
  rcases s.next_cases with ⟨hr, hn⟩ | ⟨c, hn⟩ | ⟨l, hl, hn⟩
  · rw [hn] at ht
    cases ht
    obtain ⟨hp, hdrop⟩ := h.skipBlanks
    rw [hr, eq_comm, List.drop_eq_nil_iff, String.length_toList] at hdrop
    rw [Nat.le_antisymm hp hdrop]
  · rw [hn] at ht
    cases ht
  · rw [hn] at ht
    cases ht
    exact absurd hk (Lexeme.kind_ne_ending_of_first? hl)

theorem last_eq (h : s.Over text) {read : List Token} {last : Except LexError Token} (hrun : Runs s read last)
    {t : Token} (ht : last = .ok t) : t = .atEnd text.length := by
  induction hrun with
  | stop hf => exact h.eq_atEnd ht (hf t ht)
  | token _ _ _ ih => exact ih h.next ht

end Over

theorem over_ofText (text : String) : (ofText text).Over text := ⟨Nat.zero_le _, rfl⟩

/-- Tokens that are taken one at a time are the tokens of the scan. If it succeeds, each call gives the next token, a
    call behind the last one gives the end of the text again, and the tokens that are left after any number of calls
    are those that have not been given, or the end alone. If it fails, some first calls give tokens, all calls after
    them give the error, and taking the tokens that are left gives the error after any number of calls. The characters
    that are left are in either case those behind the place of the scanner. -/
theorem nextTokens_of_scan (text : String) :
    (∀ ts, scan text = .ok ts → ts.getLast? = some (.atEnd text.length) ∧ ∀ n,
        ((ofText text).nextTokens n).1 =
          (ts.take n).map .ok ++ List.replicate (n - ts.length) (.ok (.atEnd text.length)) ∧
        ((ofText text).nextTokens n).2.tokens =
          .ok (if n < ts.length then ts.drop n else [.atEnd text.length])) ∧
      (∀ e, scan text = .error e → ∃! m, ∀ n, ∃ read : List Token,
        read.length = min n m ∧ (∀ t ∈ read, t.kind ≠ .ending) ∧
        ((ofText text).nextTokens n).1 = read.map .ok ++ List.replicate (n - m) (.error e) ∧
        ((ofText text).nextTokens n).2.tokens = .error e) ∧
      ∀ n, ((ofText text).nextTokens n).2.Over text := by
  obtain ⟨read, last, hrun⟩ := exists_runs (ofText text)
  have htokens : scan text = last.map (read ++ [·]) := hrun.tokens
  refine ⟨fun ts hts => ?_, fun e he => ?_, (over_ofText text).nextTokens⟩
  · rw [htokens] at hts
    obtain ⟨t, rfl, rfl⟩ := map_eq_ok hts
    obtain rfl := (over_ofText text).last_eq hrun rfl
    exact ⟨List.getLast?_concat, hrun.nextTokens_ok⟩
  · rw [htokens] at he
    obtain rfl := map_eq_error he
    exact hrun.existsUnique_error

/-- The blank before a character that starts no lexeme is passed over once, and the character is met at every call. -/
example :
    (ofText "1 é").nextTokens 3 =
      ([.ok ⟨.number, some "1", 0⟩, .error ⟨2, 'é'⟩, .error ⟨2, 'é'⟩], ⟨2, ['é']⟩) := by
  cbv

end RecordQuery.Scanner
