import RecordQuery.Query.Lexeme

/-! # Scanning a query

A query is cut into lexemes with blanks between them. The tokens can be taken one at a time or all at once; either way
positions count characters, a query ends in one token for its end, and a character that starts no lexeme stops the scan. -/

namespace RecordQuery

open Text

/-- A character that starts no lexeme, and the number of characters before it. -/
structure LexError where
  position : Nat
  character : Char
  deriving DecidableEq, Repr

def LexError.message (e : LexError) : String := s!"unexpected character '{e.character}' at position {e.position}"

/-- The tokens of a text that stands at `position`, after the `skip` characters that are left of the lexeme before. -/
def Token.listFrom (position skip : Nat) : List Char → Except LexError (List Token)
  | [] => .ok [.atEnd position]
  | c :: cs =>
    match skip with
    | skip + 1 => listFrom (position + 1) skip cs
    | 0 =>
      if isBlank c then listFrom (position + 1) 0 cs
      else
        match Lexeme.first? (c :: cs) with
        | none => .error ⟨position, c⟩
        | some l => (listFrom (position + 1) (l.written.length - 1) cs).map (l.token position :: ·)

/-- A query under scan: the text that is left and the number of characters before it. -/
structure Scanner where
  position : Nat
  rest : List Char
  deriving DecidableEq, Repr

namespace Scanner

def ofText (text : String) : Scanner := ⟨0, text.toList⟩

/-- The scanner after `n` more characters. -/
def advance (s : Scanner) (n : Nat) : Scanner := ⟨s.position + n, s.rest.drop n⟩

/-- The scanner at the next character that is not blank. -/
def skipBlanks (s : Scanner) : Scanner := s.advance (s.rest.takeWhile isBlank).length

/-- The next token, and the scanner after it. The end is met again and again, and so is a character that starts no
lexeme. -/
def next (s : Scanner) : Except LexError Token × Scanner :=
  let s := s.skipBlanks
  match s.rest with
  | [] => (.ok (.atEnd s.position), s)
  | c :: _ =>
    match Lexeme.first? s.rest with
    | none => (.error ⟨s.position, c⟩, s)
    | some l => (.ok (l.token s.position), s.advance l.written.length)

/-- The next `n` tokens, and the scanner after them. -/
def nextTokens : Nat → Scanner → List (Except LexError Token) × Scanner
  | 0, s => ([], s)
  | n + 1, s =>
    let (ts, t) := nextTokens n s.next.2
    (s.next.1 :: ts, t)

/-- All tokens that are left, the end included. -/
def tokens (s : Scanner) : Except LexError (List Token) := Token.listFrom s.position 0 s.rest

end Scanner

/-- The characters that are left of a lexeme are passed over. -/
theorem Token.listFrom_skip (position skip : Nat) (cs : List Char) (h : skip ≤ cs.length) :
    listFrom position skip cs = listFrom (position + skip) 0 (cs.drop skip) := by
  induction cs generalizing position skip with
  | nil => simp_all
  | cons c cs ih =>
    cases skip with
    | zero => rfl
    | succ skip =>
      rw [listFrom, ih _ _ (by simpa using h)]
      simp [Nat.add_assoc, Nat.add_comm 1]

/-- Blanks are passed over. -/
theorem Token.listFrom_blanks (position : Nat) (cs : List Char) :
    listFrom position 0 cs =
      listFrom (position + (cs.takeWhile isBlank).length) 0 (cs.dropWhile isBlank) := by
  induction cs generalizing position with
  | nil => rfl
  | cons c cs ih =>
    by_cases hc : isBlank c = true
    · rw [listFrom, if_pos hc, ih]
      simp [hc, Nat.add_assoc, Nat.add_comm 1]
    · simp [hc]

theorem Scanner.drop_takeWhile_length (p : Char → Bool) (cs : List Char) :
    cs.drop (cs.takeWhile p).length = cs.dropWhile p := by
  induction cs with
  | nil => rfl
  | cons c cs ih => by_cases h : p c = true <;> simp [h, ih]

/-- All tokens are the next one and all tokens after it. -/
theorem Scanner.tokens_eq_next (s : Scanner) :
    s.tokens = match s.next with
      | (.error e, _) => .error e
      | (.ok t, u) => if t.kind = .ending then .ok [t] else u.tokens.map (t :: ·) := by
  have hs : s.skipBlanks = ⟨s.position + (s.rest.takeWhile isBlank).length, s.rest.dropWhile isBlank⟩ := by
    simp [skipBlanks, advance, drop_takeWhile_length]
  rw [tokens, Token.listFrom_blanks, next, hs]
  cases hr : s.rest.dropWhile isBlank with
  | nil => simp [Token.listFrom, Token.atEnd]
  | cons c cs =>
    have hc : isBlank c = false := by
      have := List.head_dropWhile_not isBlank (l := s.rest) (by simp [hr])
      simpa [hr] using this
    cases hl : Lexeme.first? (c :: cs) with
    | none => simp [Token.listFrom, hc, hl]
    | some l =>
      obtain ⟨hn, hp⟩ := Lexeme.written_of_first? hl
      have hlen := hp.length_le
      have hpos : 0 < l.written.length := List.length_pos_iff.mpr hn
      have hk : l.kind ≠ .ending := Lexeme.kind_ne_ending_of_first? hl
      simp only [Token.listFrom, hc, hl, Lexeme.token, hk, tokens, advance]
      obtain ⟨n, hn⟩ : ∃ n, l.written.length = n + 1 := ⟨l.written.length - 1, by omega⟩
      rw [hn, Nat.add_sub_cancel, Token.listFrom_skip _ n cs (by simp [hn] at hlen; omega)]
      simp [Nat.add_assoc, Nat.add_comm 1]

/-- The tokens of a query. -/
def scan (text : String) : Except LexError (List Token) := (Scanner.ofText text).tokens

end RecordQuery
