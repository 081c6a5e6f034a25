import RecordQuery.Proofs.Scan.Segmentation

/-! Scanning undoes writing: lexemes written one after another with blanks between them come back as tokens
    of the same kinds and texts, each at the place where it was written. -/

namespace RecordQuery
open Text

/-- The text consists of the lexemes, each with blanks after it: at least one blank between two lexemes. -/
inductive Spaced : List Lexeme → List Char → Prop
  | nil : Spaced [] []
  | last {l : Lexeme} {gap : List Char} (hg : Blanks gap) : Spaced [l] (l.written ++ gap)
  | cons {l m : Lexeme} {ls : List Lexeme} {gap cs : List Char} (hg : Blanks gap) (hne : gap ≠ [])
      (h : Spaced (m :: ls) cs) : Spaced (l :: m :: ls) (l.written ++ (gap ++ cs))

/-- The text consists of the lexemes with blanks around each and at least one blank between two. -/
def Writes (ls : List Lexeme) (text : List Char) : Prop := ∃ lead cs, Blanks lead ∧ Spaced ls cs ∧ text = lead ++ cs

/-- Any lexemes can be written with the same blanks after each of them. -/
theorem Writes.of_gap {gap : List Char} (hg : Blanks gap) (hne : gap ≠ []) (ls : List Lexeme) :
    Writes ls (ls.flatMap fun l => l.written ++ gap) := by
  refine ⟨[], _, nofun, ?_, rfl⟩
  induction ls with
  | nil => exact .nil
  | cons l ls ih =>
    cases ls with
    | nil => simpa using Spaced.last (l := l) hg
    | cons m ls => simpa using Spaced.cons (l := l) hg hne ih

/-! ### Texts that spell lexemes -/

/-- Wherever the text stands, it is cut into tokens of the lexemes. -/
def Spells (ls : List Lexeme) (cs : List Char) : Prop := ∀ p, ∃ ts, Cut p cs ts ∧ ts.map Token.toLexeme = ls

theorem Spells.nil : Spells [] [] := fun _ => ⟨[], .nil nofun, rfl⟩

theorem Spells.blanks {ls : List Lexeme} {lead cs : List Char} (hl : Blanks lead) (h : Spells ls cs) :
    Spells ls (lead ++ cs) := fun p => by
  obtain ⟨ts, hcut, hts⟩ := h (p + lead.length)
  exact ⟨ts, hcut.blanks hl, hts⟩

theorem Spells.lexeme {l : Lexeme} {ls : List Lexeme} {rest : List Char} (hv : l.Valid) (he : l.Ends rest)
    (h : Spells ls rest) : Spells (l :: ls) (l.written ++ rest) := fun p => by
  obtain ⟨ts, hcut, hts⟩ := h (p + l.written.length)
  exact ⟨l.token p :: ts, hcut.lexeme hv he, by rw [List.map_cons, l.toLexeme_token, hts]⟩

/-- Scanning a text that spells lexemes gives tokens for them, and then the end. -/
theorem scan_of_spells {ls : List Lexeme} {text : String} (h : Spells ls text.toList) :
    ∃ ts n, scan text = .ok (ts ++ [.atEnd n]) ∧ ts.map Token.toLexeme = ls := by
  obtain ⟨ts, hcut, hts⟩ := h 0
  exact ⟨ts, _, Token.listFrom_of_cut hcut, hts⟩

/-- The blanks between two lexemes keep them apart. -/
theorem Spaced.spells {ls : List Lexeme} {cs : List Char} (h : Spaced ls cs) (hv : ∀ l ∈ ls, l.Valid) :
    Spells ls cs := by
  induction h with
  | nil => exact .nil
  | @last l gap hg =>
    have hgap : Spells [] gap := by simpa using Spells.nil.blanks hg
    exact hgap.lexeme (hv l (by simp)) (Lexeme.ends_of_isBlank fun c hc => hg c (List.mem_of_mem_head? hc))
  | @cons l m ls gap cs hg hne _ ih =>
    obtain ⟨c, gap, rfl⟩ := List.exists_cons_of_ne_nil hne
    have hr : l.Ends (c :: gap ++ cs) := Lexeme.ends_blank (hg c List.mem_cons_self)
    exact ((ih fun k hk => hv k (List.mem_cons_of_mem l hk)).blanks hg).lexeme (hv l (by simp)) hr

/-- Scanning a text that writes lexemes gives tokens for them, and then the end. -/
theorem scan_of_writes {ls : List Lexeme} {text : String} (h : Writes ls text.toList) (hv : ∀ l ∈ ls, l.Valid) :
    ∃ ts n, scan text = .ok (ts ++ [.atEnd n]) ∧ ts.map Token.toLexeme = ls := by
  obtain ⟨lead, cs, hl, hs, ht⟩ := h
  refine scan_of_spells ?_
  rw [ht]
  exact (hs.spells hv).blanks hl

end RecordQuery
