import RecordQuery.Proofs.Basic
import RecordQuery.Query.Scanner

/-! What may be written as a token of each kind, and which characters may not follow it. A lexeme in the
    language of its kind is the first one of every text that it starts, unless the text goes on with a
    character that it would have taken too. Blanks go on with no lexeme. -/

namespace RecordQuery
open Text

/-! ### Characters -/

theorem isBlank_iff {c : Char} : isBlank c = true ↔
    (9 ≤ c.toNat ∧ c.toNat ≤ 13) ∨ c.toNat = 32 ∨ c.toNat = 133 ∨ c.toNat = 160 ∨ c.toNat = 5760 ∨
      (8192 ≤ c.toNat ∧ c.toNat ≤ 8202) ∨ c.toNat = 8232 ∨ c.toNat = 8233 ∨ c.toNat = 8239 ∨ c.toNat = 8287 ∨
      c.toNat = 12288 := by
  simp only [isBlank, Ranges.has, blanks, List.any_cons, List.any_nil, Bool.or_eq_true, Bool.and_eq_true,
    decide_eq_true_eq, Bool.false_eq_true, or_false]
  omega

theorem isDigit_iff {c : Char} : c.isDigit = true ↔ 48 ≤ c.toNat ∧ c.toNat ≤ 57 := by
  simp only [Char.isDigit, Bool.and_eq_true, decide_eq_true_eq, UInt32.le_iff_toNat_le]
  exact Iff.rfl

theorem isAlpha_iff {c : Char} : c.isAlpha = true ↔
    (65 ≤ c.toNat ∧ c.toNat ≤ 90) ∨ (97 ≤ c.toNat ∧ c.toNat ≤ 122) := by
  have halpha : c.isAlpha = (decide (65 ≤ c.val ∧ c.val ≤ 90) || decide (97 ≤ c.val) && decide (c.val ≤ 122)) := rfl
  rw [halpha, Bool.or_eq_true, Bool.and_eq_true]
  simp only [decide_eq_true_eq, UInt32.le_iff_toNat_le]
  exact Iff.rfl

theorem isNameStart_iff {c : Char} : isNameStart c = true ↔ c.isAlpha = true ∨ c = '_' := by
  simp [isNameStart]

theorem isNameChar_iff {c : Char} : isNameChar c = true ↔ isNameStart c = true ∨ c.isDigit = true := by
  simp only [isNameChar, isNameStart, Char.isAlphanum, Bool.or_eq_true]
  exact or_right_comm

theorem isNameChar_eq_false_iff {c : Char} : isNameChar c = false ↔ isNameStart c = false ∧ c.isDigit = false := by
  rw [Bool.eq_false_iff, ne_eq, isNameChar_iff, not_or, Bool.not_eq_true, Bool.not_eq_true]

theorem isNameChar_of_isBlank {c : Char} (h : isBlank c = true) : isNameChar c = false := by
  rw [Bool.eq_false_iff]
  intro hn
  rw [isBlank_iff] at h
  rw [isNameChar_iff, isNameStart_iff, isAlpha_iff, isDigit_iff] at hn
  rcases hn with (hn | rfl) | hn
  · omega
  · exact absurd h (by decide)
  · omega

/-- Two tables without a common code point have no common character. -/
theorem Text.Ranges.has_eq_false {table other : Ranges}
    (hd : ∀ r ∈ table, ∀ s ∈ other, r.2 < s.1 ∨ s.2 < r.1) {c : Char} (h : table.has c = true) :
    other.has c = false := by
  rw [Bool.eq_false_iff]
  intro ho
  obtain ⟨r, hr, hr1, hr2⟩ := Ranges.has_iff.mp h
  obtain ⟨s, hs, hs1, hs2⟩ := Ranges.has_iff.mp ho
  have := hd r hr s hs
  omega

theorem isWord_of_isBlank {c : Char} (h : isBlank c = true) : isWord c = false := by
  have hw : wordRanges.has c = false := Ranges.has_eq_false (by decide +kernel) h
  simp [isWord, hw, isNameChar_of_isBlank h]

/-! ### Languages -/

/-- The reserved words that stand for values. -/
def valueWords : List (List Char) := [['t', 'r', 'u', 'e'], ['f', 'a', 'l', 's', 'e'], ['n', 'u', 'l', 'l']]

/-- The reserved words. -/
def reservedWords : List (List Char) := ['t', 'h', 'i', 's'] :: valueWords

/-- Whether `cs` is an identifier: a letter or an underscore, then letters, digits and underscores, and no
    reserved word. -/
def IsName : List Char → Prop
  | [] => False
  | c :: cs => isNameStart c = true ∧ (∀ d ∈ cs, isNameChar d = true) ∧ c :: cs ∉ reservedWords

instance : DecidablePred IsName
  | [] => inferInstanceAs (Decidable False)
  | c :: cs =>
    decidable_of_iff (isNameStart c = true ∧ cs.all isNameChar = true ∧ c :: cs ∉ reservedWords)
      (and_congr_right' (and_congr_left' List.all_eq_true))

/-- The operators, those of one character last. -/
def operatorTexts : List (List Char) :=
  [['=', '>'], ['=', '='], ['!', '='], ['<', '='], ['>', '='], ['&', '&'], ['|', '|'], ['<'], ['>'], ['!'], ['=']]

namespace Lexeme

/-- The text of the lexeme is in the language of its kind. -/
def Valid (l : Lexeme) : Prop :=
  match l.kind with
  | .number => l.text ≠ [] ∧ ∀ c ∈ l.text, c.isDigit = true
  | .string => '"' ∉ l.text
  | .this => l.text = ['t', 'h', 'i', 's']
  | .keyword => l.text ∈ valueWords
  | .identifier => IsName l.text
  | .operator => l.text ∈ operatorTexts
  | .punctuation => l.text ∈ [['{'], ['}'], [','], [':'], ['['], [']']]
  | .dot => l.text = ['.']
  | .openParen => l.text = ['(']
  | .closeParen => l.text = [')']
  | .mulDiv => l.text ∈ [['*'], ['/']]
  | .addSub => l.text ∈ [['+'], ['-']]
  | .ending => False

/-- A text that starts with `rest` does not make the lexeme longer or one of another kind. -/
def Ends (l : Lexeme) (rest : List Char) : Prop :=
  ∀ c ∈ rest.head?,
    match l.kind with
    | .number => c.isDigit = false
    | .identifier => isNameChar c = false
    | .this | .keyword => isWord c = false
    | .operator => (l.text = ['='] → c ≠ '>') ∧ (l.text.length = 1 → c ≠ '=')
    | _ => True

theorem ends_nil (l : Lexeme) : l.Ends [] := nofun

/-- A character of no name, which is not at the end of a longer operator, goes on with a reserved word at most. -/
theorem ends_cons {l : Lexeme} {c : Char} {rest : List Char} (hn : isNameChar c = false)
    (hw : l.kind = .this ∨ l.kind = .keyword → isWord c = false) (hgt : c ≠ '>') (heq : c ≠ '=') :
    l.Ends (c :: rest) := by
  intro d hd
  obtain rfl := Option.some.inj hd
  split
  · exact (isNameChar_eq_false_iff.mp hn).2
  · exact hn
  · rename_i hk
    exact hw (.inl hk)
  · rename_i hk
    exact hw (.inr hk)
  · exact ⟨fun _ => hgt, fun _ => heq⟩
  · trivial

theorem isNameChar_of_not_isWord {c : Char} (h : isWord c = false) : isNameChar c = false := by
  rw [Bool.eq_false_iff]
  intro hn
  rw [isWord_of_isNameChar hn] at h
  cases h

theorem ends_of_isBlank {l : Lexeme} {rest : List Char} (h : ∀ c ∈ rest.head?, isBlank c = true) : l.Ends rest := by
  cases rest with
  | nil => exact l.ends_nil
  | cons c rest =>
    have hb := h c rfl
    refine ends_cons (isNameChar_of_isBlank hb) (fun _ => isWord_of_isBlank hb) ?_ ?_ <;> rintro rfl <;>
      exact absurd hb (by decide)

theorem ends_blank {l : Lexeme} {c : Char} {rest : List Char} (hc : isBlank c = true) : l.Ends (c :: rest) :=
  ends_of_isBlank fun d hd => by
    obtain rfl := Option.some.inj hd
    exact hc

/-! ### The first lexeme -/

theorem first?_digits {c : Char} {cs rest : List Char} (hc : c.isDigit = true) (hs : ∀ d ∈ cs, d.isDigit = true)
    (hr : ∀ d ∈ rest.head?, d.isDigit = false) : first? (c :: cs ++ rest) = some ⟨.number, c :: cs⟩ := by
  simp [first?, hc, takeWhile_append hs hr]

theorem first?_string {cs rest : List Char} (h : '"' ∉ cs) :
    first? ('"' :: (cs ++ ['"']) ++ rest) = some ⟨.string, cs⟩ := by
  have hs : ∀ c ∈ cs, decide (c ≠ '"') = true := fun c hc => by
    simp only [ne_eq, decide_eq_true_eq]
    rintro rfl
    exact h hc
  have ht : (cs ++ '"' :: rest).takeWhile (· ≠ '"') = cs := takeWhile_append hs (by simp)
  simp only [first?, List.cons_append, List.append_assoc, List.nil_append, ht]
  simp [show '"'.isDigit = false by decide]

/-- A word is the first lexeme as far as name characters go, and its kind depends on what follows. -/
theorem first?_word {c : Char} {cs rest : List Char} (hc : isNameStart c = true) (hs : ∀ d ∈ cs, isNameChar d = true)
    (hr : ∀ d ∈ rest.head?, isNameChar d = false) :
    first? (c :: cs ++ rest) = some ⟨wordKind (c :: cs) rest, c :: cs⟩ := by
  have hd : c.isDigit = false := by
    rw [isNameStart_iff, isAlpha_iff] at hc
    rw [Bool.eq_false_iff, ne_eq, isDigit_iff]
    rcases hc with hc | rfl
    · omega
    · decide
  have hq : c ≠ '"' := by
    rintro rfl
    exact absurd hc (by decide)
  simp [first?, hd, hq, hc, takeWhile_append hs hr, dropWhile_append hs hr]

theorem wordKind_of_not_reserved {w rest : List Char} (h : w ∉ reservedWords) : wordKind w rest = .identifier := by
  simp only [reservedWords, valueWords, List.mem_cons, List.not_mem_nil, or_false, not_or] at h
  unfold wordKind
  split
  · rfl
  · rw [if_neg (by simpa using h.1), if_neg (by simpa using h.2)]

theorem isNameChar_of_head {rest : List Char} (h : ∀ c ∈ rest.head?, isWord c = false) :
    ∀ c ∈ rest.head?, isNameChar c = false :=
  fun c hc => isNameChar_of_not_isWord (h c hc)

theorem wordKind_of_reserved {w rest : List Char} (h : ∀ c ∈ rest.head?, isWord c = false) :
    (w = ['t', 'h', 'i', 's'] → wordKind w rest = .this) ∧ (w ∈ valueWords → wordKind w rest = .keyword) := by
  have hr : ¬rest.head?.any isWord = true := by
    cases rest with
    | nil => simp
    | cons c cs => simp [h c rfl]
  constructor
  · rintro rfl
    rw [wordKind, if_neg hr, if_pos (by decide)]
  · intro hw
    simp only [valueWords, List.mem_cons, List.not_mem_nil, or_false] at hw
    rw [wordKind, if_neg hr, if_neg (by rcases hw with rfl | rfl | rfl <;> decide), if_pos (by simpa using hw)]

theorem exists_cons_of_reserved {text : List Char} (h : text ∈ reservedWords) :
    ∃ c cs, text = c :: cs ∧ isNameStart c = true ∧ ∀ d ∈ cs, isNameChar d = true := by
  simp only [reservedWords, valueWords, List.mem_cons, List.not_mem_nil, or_false] at h
  rcases h with rfl | rfl | rfl | rfl
  · exact ⟨'t', ['h', 'i', 's'], rfl, by decide, List.all_eq_true.mp (by decide)⟩
  · exact ⟨'t', ['r', 'u', 'e'], rfl, by decide, List.all_eq_true.mp (by decide)⟩
  · exact ⟨'f', ['a', 'l', 's', 'e'], rfl, by decide, List.all_eq_true.mp (by decide)⟩
  · exact ⟨'n', ['u', 'l', 'l'], rfl, by decide, List.all_eq_true.mp (by decide)⟩

theorem first?_reserved {text rest : List Char} (h : text ∈ reservedWords)
    (hr : ∀ c ∈ rest.head?, isNameChar c = false) :
    first? (text ++ rest) = some ⟨wordKind text rest, text⟩ := by
  obtain ⟨c, cs, rfl, hc, hs⟩ := exists_cons_of_reserved h
  exact first?_word hc hs hr

theorem first?_symbol {c : Char} {cs : List Char} (hd : c.isDigit = false) (hq : c ≠ '"')
    (hn : isNameStart c = false) : first? (c :: cs) = symbol? (c :: cs) := by
  simp [first?, hd, hq, hn]

theorem symbol?_single {c : Char} {rest : List Char} (hc : c ∈ ['<', '>', '!', '='])
    (hr : ∀ d ∈ rest.head?, (c = '=' → d ≠ '>') ∧ d ≠ '=') : symbol? (c :: rest) = some ⟨.operator, [c]⟩ := by
  cases rest with
  | nil =>
    simp only [List.mem_cons, List.not_mem_nil, or_false] at hc
    rcases hc with rfl | rfl | rfl | rfl <;> rfl
  | cons d rest =>
    obtain ⟨hgt, heq⟩ := hr d rfl
    simp only [List.mem_cons, List.not_mem_nil, or_false] at hc
    rcases hc with rfl | rfl | rfl | rfl <;> simp_all [symbol?]

theorem first?_operator {text rest : List Char} (h : text ∈ operatorTexts)
    (hr : ∀ c ∈ rest.head?, (text = ['='] → c ≠ '>') ∧ (text.length = 1 → c ≠ '=')) :
    first? (text ++ rest) = some ⟨.operator, text⟩ := by
  simp only [operatorTexts, List.mem_cons, List.not_mem_nil, or_false] at h
  rcases h with rfl | rfl | rfl | rfl | rfl | rfl | rfl | h
  · rfl
  · rfl
  · rfl
  · rfl
  · rfl
  · rfl
  · rfl
  · have hc : ∃ c, text = [c] ∧ c ∈ ['<', '>', '!', '='] := by
      rcases h with rfl | rfl | rfl | rfl <;> exact ⟨_, rfl, by decide⟩
    obtain ⟨c, rfl, hc⟩ := hc
    have hs : c.isDigit = false ∧ c ≠ '"' ∧ isNameStart c = false := by
      simp only [List.mem_cons, List.not_mem_nil, or_false] at hc
      rcases hc with rfl | rfl | rfl | rfl <;> decide
    refine (first?_symbol hs.1 hs.2.1 hs.2.2).trans (symbol?_single hc fun d hd => ?_)
    obtain ⟨h1, h2⟩ := hr d hd
    exact ⟨fun he => h1 (by rw [he]), h2 rfl⟩

/-- A lexeme in its language is the first one of any text that it starts and that does not go on with it. -/
theorem first?_written {l : Lexeme} {rest : List Char} (h : l.Valid) (hr : l.Ends rest) :
    first? (l.written ++ rest) = some l := by
  obtain ⟨kind, text⟩ := l
  cases kind with
  | number =>
    obtain ⟨hne, hd⟩ := h
    cases text with
    | nil => exact absurd rfl hne
    | cons c cs => exact first?_digits (hd c (by simp)) (fun d hm => hd d (by simp [hm])) hr
  | string => exact first?_string h
  | identifier =>
    cases text with
    | nil => exact h.elim
    | cons c cs =>
      obtain ⟨hc, hs, hw⟩ := h
      have := first?_word hc hs hr
      rwa [wordKind_of_not_reserved hw] at this
  | this =>
    obtain rfl : text = _ := h
    have := @first?_reserved ['t', 'h', 'i', 's'] rest List.mem_cons_self (isNameChar_of_head hr)
    rwa [(wordKind_of_reserved hr).1 rfl] at this
  | keyword =>
    have := first?_reserved (List.mem_cons_of_mem _ h) (isNameChar_of_head hr)
    rwa [(wordKind_of_reserved hr).2 h] at this
  | operator => exact first?_operator h hr
  | punctuation =>
    simp only [Valid, List.mem_cons, List.not_mem_nil, or_false] at h
    rcases h with rfl | rfl | rfl | rfl | rfl | rfl <;> rfl
  | dot | openParen | closeParen =>
    obtain rfl : text = _ := h
    rfl
  | mulDiv | addSub =>
    simp only [Valid, List.mem_cons, List.not_mem_nil, or_false] at h
    rcases h with rfl | rfl <;> rfl
  | ending => exact h.elim

end Lexeme

end RecordQuery
