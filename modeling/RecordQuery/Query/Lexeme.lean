import RecordQuery.Query.Token
import RecordQuery.Text.Classes

/-! # Lexemes

What may stand in a query as one token, and where it ends. A lexeme is as long as it can be, and a word is reserved only
if no word character follows it. -/

namespace RecordQuery

open Text

/-- The kind of a token and its text. -/
structure Lexeme where
  kind : Token.Kind
  text : List Char
  deriving DecidableEq, Repr

namespace Lexeme

/-- The characters that the lexeme takes in a query: a string has quotation marks around it. -/
def written (l : Lexeme) : List Char := if l.kind = .string then '"' :: (l.text ++ ['"']) else l.text

/-- The token that the lexeme makes at a position. -/
def token (l : Lexeme) (position : Nat) : Token := ⟨l.kind, some (String.ofList l.text), position⟩

/-- The kind of a word that stands before `rest`. -/
def wordKind (word rest : List Char) : Token.Kind :=
  if rest.head?.any isWord then .identifier
  else if word = ['t', 'h', 'i', 's'] then .this
  else if word = ['t', 'r', 'u', 'e'] ∨ word = ['f', 'a', 'l', 's', 'e'] ∨ word = ['n', 'u', 'l', 'l'] then .keyword
  else .identifier

/-- The symbol at the front of a text, of two characters rather than of one. -/
def symbol? : List Char → Option Lexeme
  | '=' :: '>' :: _ => some ⟨.operator, ['=', '>']⟩
  | '=' :: '=' :: _ => some ⟨.operator, ['=', '=']⟩
  | '!' :: '=' :: _ => some ⟨.operator, ['!', '=']⟩
  | '<' :: '=' :: _ => some ⟨.operator, ['<', '=']⟩
  | '>' :: '=' :: _ => some ⟨.operator, ['>', '=']⟩
  | '&' :: '&' :: _ => some ⟨.operator, ['&', '&']⟩
  | '|' :: '|' :: _ => some ⟨.operator, ['|', '|']⟩
  | c :: _ =>
    if c ∈ ['<', '>', '!', '='] then some ⟨.operator, [c]⟩
    else if c ∈ ['{', '}', ',', ':', '[', ']'] then some ⟨.punctuation, [c]⟩
    else if c = '.' then some ⟨.dot, [c]⟩
    else if c = '(' then some ⟨.openParen, [c]⟩
    else if c = ')' then some ⟨.closeParen, [c]⟩
    else if c ∈ ['*', '/'] then some ⟨.mulDiv, [c]⟩
    else if c ∈ ['+', '-'] then some ⟨.addSub, [c]⟩
    else none
  | [] => none

/-- The lexeme at the front of a text, if one starts there: a run of digits, a string that is closed, a word or a symbol. -/
def first? : List Char → Option Lexeme
  | [] => none
  | c :: cs =>
    if c.isDigit then some ⟨.number, c :: cs.takeWhile Char.isDigit⟩
    else if c = '"' then (if '"' ∈ cs then some ⟨.string, cs.takeWhile (· ≠ '"')⟩ else none)
    else if isNameStart c then
      let word := c :: cs.takeWhile isNameChar
      some ⟨wordKind word (cs.dropWhile isNameChar), word⟩
    else symbol? (c :: cs)

theorem symbol?_eq_some {cs : List Char} {l : Lexeme} (h : symbol? cs = some l) :
    l.kind ≠ .string ∧ l.kind ≠ .ending ∧ l.text ≠ [] ∧ l.text <+: cs := by
  unfold symbol? at h
  repeat' split at h
  all_goals simp only [Option.some.injEq, reduceCtorEq] at h
  all_goals subst h; simp

theorem wordKind_ne (word rest : List Char) : wordKind word rest ≠ .string ∧ wordKind word rest ≠ .ending := by
  unfold wordKind
  repeat' split
  all_goals simp

theorem takeWhile_append_quote {cs : List Char} (h : '"' ∈ cs) : cs.takeWhile (· ≠ '"') ++ ['"'] <+: cs := by
  induction cs with
  | nil => simp at h
  | cons c cs ih =>
    by_cases hc : c = '"'
    · simp [hc]
    · have hm := (List.mem_cons.mp h).resolve_left (Ne.symm hc)
      simpa [hc] using ih hm

/-- A lexeme takes at least one character, and those that it takes are the first ones of the text. -/
theorem written_of_first? {cs : List Char} {l : Lexeme} (h : first? cs = some l) :
    l.written ≠ [] ∧ l.written <+: cs := by
  match cs, h with
  | c :: cs, h =>
    simp only [first?] at h
    split at h
    · cases h
      simp [written, List.takeWhile_prefix]
    · split at h
      · rename_i hc
        subst hc
        split at h
        · rename_i hm
          cases h
          simpa [written] using takeWhile_append_quote hm
        · cases h
      · split at h
        · cases h
          simp [written, (wordKind_ne _ _).1, List.takeWhile_prefix]
        · obtain ⟨hk, -, ht, hp⟩ := symbol?_eq_some h
          rw [written, if_neg hk]
          exact ⟨ht, hp⟩

/-- The end of a query is no lexeme. -/
theorem kind_ne_ending_of_first? {cs : List Char} {l : Lexeme} (h : first? cs = some l) : l.kind ≠ .ending := by
  match cs, h with
  | c :: cs, h =>
    simp only [first?] at h
    split at h
    · cases h
      exact Token.Kind.noConfusion
    · split at h
      · split at h
        · cases h
          exact Token.Kind.noConfusion
        · cases h
      · split at h
        · cases h
          exact (wordKind_ne _ _).2
        · exact (symbol?_eq_some h).2.1

end Lexeme

end RecordQuery
