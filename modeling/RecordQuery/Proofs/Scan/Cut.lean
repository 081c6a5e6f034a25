import RecordQuery.Proofs.Basic
import RecordQuery.Proofs.Scan.Language

/-! A text cut into tokens: lexemes of the text, each as long as it can be, with blanks around and between them. A
    text that is cut is scanned to the tokens of its lexemes. -/

namespace RecordQuery
open Text

/-- The lexeme of a token. -/
def Token.toLexeme (t : Token) : Lexeme := ⟨t.kind, t.lexeme.toList⟩

theorem Lexeme.toLexeme_token (l : Lexeme) (position : Nat) : (l.token position).toLexeme = l := by
  simp [Token.toLexeme, token, Token.lexeme]

/-- White space, or nothing. -/
def Blanks (cs : List Char) : Prop := ∀ c ∈ cs, isBlank c = true

instance : DecidablePred Blanks := fun cs => decidable_of_iff (cs.all isBlank = true) List.all_eq_true

/-! ### The first lexeme of a text -/

namespace Lexeme

/-- The characters that start a symbol. -/
def symbolStarts : List Char :=
  ['=', '!', '<', '>', '&', '|', '{', '}', ',', ':', '[', ']', '.', '(', ')', '*', '/', '+', '-']

theorem symbol?_eq_none {c : Char} {cs : List Char} (h : c ∉ symbolStarts) : symbol? (c :: cs) = none := by
  simp only [symbolStarts, List.mem_cons, List.not_mem_nil, or_false, not_or] at h
  unfold symbol?
  split <;> simp_all

/-- A character of no name starts a lexeme only if it is a quotation mark or starts a symbol. -/
theorem first?_eq_none {c : Char} {cs : List Char} (hn : isNameChar c = false) (hq : c ∉ '"' :: symbolStarts) :
    first? (c :: cs) = none := by
  obtain ⟨hstart, hdigit⟩ := isNameChar_eq_false_iff.mp hn
  rw [List.mem_cons, not_or] at hq
  rw [first?_symbol hdigit hq.1 hstart, symbol?_eq_none hq.2]

theorem first?_of_isBlank {c : Char} {cs : List Char} (h : isBlank c = true) : first? (c :: cs) = none := by
  refine first?_eq_none (isNameChar_of_isBlank h) fun hc => ?_
  have hall : ∀ d ∈ '"' :: symbolStarts, isBlank d = false := by
    simpa using (by decide : ('"' :: symbolStarts).all (fun d => !isBlank d) = true)
  rw [hall c hc] at h
  cases h

theorem toNat_of_wordRanges {c : Char} (h : wordRanges.has c = true) : 128 ≤ c.toNat := by
  have htable : ∀ r ∈ wordRanges, 128 ≤ r.1 := by decide +kernel
  obtain ⟨r, hr, hle, -⟩ := Ranges.has_iff.mp h
  exact Nat.le_trans (htable r hr) hle

theorem isWord_of_lt {c : Char} (h : c.toNat < 128) : isWord c = isNameChar c := by
  have hc : wordRanges.has c = false :=
    Bool.eq_false_iff.mpr fun hc => absurd h (Nat.not_lt_of_le (toNat_of_wordRanges hc))
  rw [isWord, hc, Bool.or_false]

/-- No lexeme starts with a word character that no name has. -/
theorem first?_of_isWord {c : Char} {cs : List Char} (hw : isWord c = true) (hn : isNameChar c = false) :
    first? (c :: cs) = none := by
  rw [isWord, hn, Bool.false_or] at hw
  have hascii : ∀ d ∈ '"' :: symbolStarts, d.toNat < 128 := by
    simpa using (by decide : ('"' :: symbolStarts).all (fun d => d.toNat < 128) = true)
  exact first?_eq_none hn fun hm => absurd (hascii c hm) (Nat.not_lt_of_le (toNat_of_wordRanges hw))

/-- An operator of one character is not the start of a longer operator. -/
theorem ends_single {c : Char} {rest : List Char} (hc : c ∈ ['<', '>', '!', '='])
    (h : symbol? (c :: rest) = some ⟨.operator, [c]⟩) : Ends ⟨.operator, [c]⟩ rest := by
  intro d hd
  cases rest with
  | nil => cases hd
  | cons e rest =>
    obtain rfl := Option.some.inj hd
    simp only [List.mem_cons, List.not_mem_nil, or_false] at hc
    refine ⟨?_, ?_⟩
    · rintro heq rfl
      cases heq
      simp [symbol?] at h
    · rintro - rfl
      rcases hc with rfl | rfl | rfl | rfl <;> simp [symbol?] at h

theorem of_symbol? {cs : List Char} {l : Lexeme} (h : symbol? cs = some l) :
    l.Valid ∧ ∀ rest, cs = l.text ++ rest → l.Ends rest := by
  have h' := h
  unfold symbol? at h
  split at h
  iterate 7
    · cases h
      exact ⟨by simp [Valid, operatorTexts], fun _ _ _ _ => ⟨by simp, by simp⟩⟩
  · rename_i c cs _ _ _ _ _ _ _
    split at h
    · rename_i hc
      cases h
      refine ⟨?_, fun rest hrest => ?_⟩
      · simp only [List.mem_cons, List.not_mem_nil, or_false] at hc
        rcases hc with rfl | rfl | rfl | rfl <;> simp [Valid, operatorTexts]
      · cases hrest
        exact ends_single hc h'
    · repeat' split at h
      all_goals cases h
      all_goals exact ⟨by simp_all [Valid], fun _ _ _ _ => trivial⟩
  · cases h

theorem eq_dropWhile {p : Char → Bool} {cs rest : List Char} (h : cs = cs.takeWhile p ++ rest) :
    rest = cs.dropWhile p :=
  (List.append_cancel_left (List.takeWhile_append_dropWhile.trans h)).symm

theorem head_dropWhile {p : Char → Bool} {cs : List Char} : ∀ c ∈ (cs.dropWhile p).head?, p c = false := by
  intro c hc
  have h := List.head?_dropWhile_not p cs
  rw [Option.mem_def.mp hc] at h
  simpa using h

theorem of_word {c : Char} {cs rest : List Char} (hc : isNameStart c = true) (hs : ∀ d ∈ cs, isNameChar d = true)
    (hr : ∀ d ∈ rest.head?, isNameChar d = false) :
    (Valid ⟨wordKind (c :: cs) rest, c :: cs⟩ ∧ Ends ⟨wordKind (c :: cs) rest, c :: cs⟩ rest) ∨
      ∃ d ∈ rest.head?, isWord d = true ∧ isNameChar d = false := by
  by_cases hw : ∃ d ∈ rest.head?, isWord d = true
  · obtain ⟨d, hd, hdw⟩ := hw
    exact .inr ⟨d, hd, hdw, hr d hd⟩
  · have hend : ∀ d ∈ rest.head?, isWord d = false := by simpa using hw
    left
    by_cases hm : c :: cs ∈ reservedWords
    · rcases List.mem_cons.mp hm with hm | hm
      · rw [(wordKind_of_reserved hend).1 hm]
        exact ⟨hm, hend⟩
      · rw [(wordKind_of_reserved hend).2 hm]
        exact ⟨hm, hend⟩
    · rw [wordKind_of_not_reserved hm]
      exact ⟨⟨hc, hs, hm⟩, hr⟩

/-- A word is a lexeme of some kind if nothing follows it. -/
theorem exists_valid_word {c : Char} {cs : List Char} (hc : isNameStart c = true) (hs : ∀ d ∈ cs, isNameChar d = true) :
    ∃ m : Lexeme, m.Valid ∧ m.written = c :: cs := by
  have hnil : ∀ d ∈ ([] : List Char).head?, isNameChar d = false := nofun
  rcases of_word hc hs hnil with ⟨hv, -⟩ | ⟨d, hd, -⟩
  · exact ⟨_, hv, by rw [written, if_neg (wordKind_ne _ _).1]⟩
  · cases hd

/-- The first lexeme of a text is in the language of its kind and as long as it can be, unless a word character
    comes after it that no name has. Even then what it takes is a lexeme, if maybe one of another kind. -/
theorem of_first? {cs rest : List Char} {l : Lexeme} (h : first? cs = some l) (hcs : cs = l.written ++ rest) :
    (l.Valid ∧ l.Ends rest) ∨
      (∃ m : Lexeme, m.Valid ∧ m.written = l.written) ∧ ∃ c ∈ rest.head?, isWord c = true ∧ isNameChar c = false := by
  match cs, h with
  | c :: cs, h =>
    simp only [first?] at h
    split at h
    · rename_i hc
      cases h
      obtain rfl := eq_dropWhile (List.cons.inj hcs).2
      refine .inl ⟨⟨List.cons_ne_nil _ _, ?_⟩, head_dropWhile⟩
      exact List.forall_mem_cons.mpr ⟨hc, List.all_eq_true.mp List.all_takeWhile⟩
    · split at h
      · split at h
        · cases h
          refine .inl ⟨fun hm => ?_, fun _ _ => trivial⟩
          have hq := List.all_eq_true.mp List.all_takeWhile _ hm
          exact absurd rfl (of_decide_eq_true hq)
        · cases h
      · split at h
        · rename_i hc
          cases h
          rw [written, if_neg (wordKind_ne _ _).1] at hcs ⊢
          obtain rfl := eq_dropWhile (List.cons.inj hcs).2
          have hname := List.all_eq_true.mp (List.all_takeWhile (p := isNameChar) (l := cs))
          exact (of_word hc hname head_dropWhile).imp_right fun hd => ⟨exists_valid_word hc hname, hd⟩
        · obtain ⟨hv, he⟩ := of_symbol? h
          rw [written, if_neg (symbol?_eq_some h).1] at hcs
          exact .inl ⟨hv, he rest hcs⟩

theorem Ends.left {l : Lexeme} {cs ds : List Char} (h : l.Ends (cs ++ ds)) : l.Ends cs := by
  cases cs with
  | nil => exact l.ends_nil
  | cons c cs => exact h

theorem Ends.append {l : Lexeme} {cs ds : List Char} (h : l.Ends cs) (hne : cs ≠ []) : l.Ends (cs ++ ds) := by
  cases cs with
  | nil => exact absurd rfl hne
  | cons c cs => exact h

end Lexeme

/-! ### Tokens one after another -/

theorem Token.listFrom_append_blanks (position : Nat) {lead : List Char} (h : Blanks lead) (cs : List Char) :
    listFrom position 0 (lead ++ cs) = listFrom (position + lead.length) 0 cs := by
  induction lead generalizing position with
  | nil => rfl
  | cons c lead ih =>
    rw [List.cons_append, listFrom, if_pos (h c (by simp)), ih _ fun d hd => h d (by simp [hd])]
    simp [Nat.add_assoc, Nat.add_comm 1]

/-- The first lexeme of a text becomes a token, and the scan goes on after it. -/
theorem Token.listFrom_first? (position : Nat) {l : Lexeme} {rest : List Char}
    (h : Lexeme.first? (l.written ++ rest) = some l) :
    listFrom position 0 (l.written ++ rest) =
      (listFrom (position + l.written.length) 0 rest).map (l.token position :: ·) := by
  obtain ⟨hne, -⟩ := Lexeme.written_of_first? h
  obtain ⟨c, cs, hw⟩ := List.exists_cons_of_ne_nil hne
  rw [hw, List.cons_append] at h ⊢
  have hb : ¬isBlank c = true := fun hb => by
    rw [Lexeme.first?_of_isBlank hb] at h
    cases h
  rw [listFrom, if_neg hb, h]
  simp only [hw, List.length_cons, Nat.add_sub_cancel]
  rw [listFrom_skip _ _ _ (by simp), List.drop_left' rfl, Nat.add_assoc, Nat.add_comm 1]

/-- A text that stands after `p` characters is cut into tokens: each is a lexeme that ends where it can go on no
    longer, with blanks before it, and blanks are left after the last one. -/
inductive Cut : Nat → List Char → List Token → Prop
  | nil {p : Nat} {gap : List Char} (hg : Blanks gap) : Cut p gap []
  | cons {p : Nat} {gap rest : List Char} {l : Lexeme} {ts : List Token} (hg : Blanks gap) (hv : l.Valid)
      (he : l.Ends rest) (h : Cut (p + gap.length + l.written.length) rest ts) :
      Cut p (gap ++ (l.written ++ rest)) (l.token (p + gap.length) :: ts)

/-- Blanks in front of a text belong to the gap before its first lexeme. -/
theorem Cut.blanks {p : Nat} {lead cs : List Char} {ts : List Token} (hl : Blanks lead)
    (h : Cut (p + lead.length) cs ts) : Cut p (lead ++ cs) ts := by
  have hgap {gap : List Char} (hg : Blanks gap) : Blanks (lead ++ gap) := fun c hc =>
    (List.mem_append.mp hc).elim (hl c) (hg c)
  cases h with
  | nil hg => exact .nil (hgap hg)
  | @cons _ gap rest l ts hg hv he h =>
    have hlen : p + lead.length + gap.length = p + (lead ++ gap).length := by
      rw [List.length_append, Nat.add_assoc]
    rw [hlen] at h ⊢
    rw [← List.append_assoc]
    exact .cons (hgap hg) hv he h

theorem Cut.lexeme {p : Nat} {l : Lexeme} {rest : List Char} {ts : List Token} (hv : l.Valid) (he : l.Ends rest)
    (h : Cut (p + l.written.length) rest ts) : Cut p (l.written ++ rest) (l.token p :: ts) :=
  @Cut.cons p [] rest l ts nofun hv he h

theorem Cut.single {p : Nat} {l : Lexeme} (h : l.Valid) : Cut p l.written [l.token p] := by
  have hcut := Cut.lexeme (p := p) h l.ends_nil (.nil nofun)
  rwa [List.append_nil] at hcut

theorem Token.listFrom_of_cut {p : Nat} {cs : List Char} {ts : List Token} (h : Cut p cs ts) :
    listFrom p 0 cs = .ok (ts ++ [.atEnd (p + cs.length)]) := by
  induction h with
  | @nil p gap hg =>
    have hgap := listFrom_append_blanks p hg []
    rw [List.append_nil] at hgap
    rw [hgap]
    rfl
  | @cons p gap rest l ts hg hv he h ih =>
    rw [listFrom_append_blanks _ hg, listFrom_first? _ (Lexeme.first?_written hv he), ih]
    simp [Except.map, Nat.add_assoc]

end RecordQuery
