import RecordQuery.Proofs.Scan.Cut

/-! The characters that end a scan. A text is cut into tokens, or it is cut up to a character that starts no lexeme in
    front of the rest: a scan gives the tokens in the first case, and in the second one the error at that character. -/

namespace RecordQuery
open Text

/-- The character starts no lexeme in front of the rest of a text: it is a quotation mark that is not closed, half of
    an operator without the other half, or no blank and in no name, string or symbol. -/
inductive Stray (c : Char) (rest : List Char) : Prop
  | quote (hc : c = '"') (h : '"' ∉ rest)
  | half (hc : c = '&' ∨ c = '|') (h : rest.head? ≠ some c)
  | other (hb : isBlank c = false) (hn : isNameChar c = false) (hs : c ∉ '"' :: Lexeme.symbolStarts)

/-! ### One character -/

namespace Lexeme

theorem symbol?_half {c : Char} {rest : List Char} (hc : c = '&' ∨ c = '|') (h : rest.head? ≠ some c) :
    symbol? (c :: rest) = none := by
  cases rest with
  | nil => rcases hc with rfl | rfl <;> rfl
  | cons d rest => rcases hc with rfl | rfl <;> simp_all [symbol?]

theorem of_symbol?_eq_none {c : Char} {rest : List Char} (h : symbol? (c :: rest) = none) (hs : c ∈ symbolStarts) :
    (c = '&' ∨ c = '|') ∧ rest.head? ≠ some c := by
  unfold symbol? at h
  split at h
  iterate 7 cases h
  · rename_i hand hbar heq
    obtain ⟨rfl, rfl⟩ := List.cons.inj heq
    repeat' split at h
    iterate 7 cases h
    have hc : c = '&' ∨ c = '|' := by simp_all [symbolStarts]
    refine ⟨hc, fun hhead => ?_⟩
    obtain ⟨more, rfl⟩ := List.head?_eq_some_iff.mp hhead
    rcases hc with rfl | rfl
    · exact hand more rfl rfl
    · exact hbar more rfl rfl
  · rename_i heq
    cases heq

end Lexeme

theorem stray_iff {c : Char} {rest : List Char} :
    Stray c rest ↔ isBlank c = false ∧ Lexeme.first? (c :: rest) = none := by
  constructor
  · rintro (⟨rfl, h⟩ | ⟨hc, h⟩ | ⟨hb, hn, hs⟩)
    · exact ⟨by decide, by simp [Lexeme.first?, h, show '"'.isDigit = false by decide]⟩
    · have hmark : isBlank c = false ∧ c.isDigit = false ∧ c ≠ '"' ∧ isNameStart c = false := by
        rcases hc with rfl | rfl <;> decide
      obtain ⟨hb, hd, hq, hn⟩ := hmark
      exact ⟨hb, (Lexeme.first?_symbol hd hq hn).trans (Lexeme.symbol?_half hc h)⟩
    · exact ⟨hb, Lexeme.first?_eq_none hn hs⟩
  · rintro ⟨hb, hf⟩
    simp only [Lexeme.first?] at hf
    split at hf
    · cases hf
    · rename_i hd
      split at hf
      · rename_i hc
        split at hf
        · cases hf
        · rename_i h
          exact .quote hc h
      · rename_i hq
        split at hf
        · cases hf
        · rename_i hn
          by_cases hs : c ∈ Lexeme.symbolStarts
          · obtain ⟨hc, h⟩ := Lexeme.of_symbol?_eq_none hf hs
            exact .half hc h
          · have hname : isNameChar c = false := by
              rw [isNameChar_eq_false_iff]
              exact ⟨Bool.eq_false_iff.mpr hn, Bool.eq_false_iff.mpr hd⟩
            exact .other hb hname fun hm => (List.mem_cons.mp hm).elim hq hs

/-- A word character that no name has. -/
theorem Stray.of_isWord {c : Char} (hw : isWord c = true) (hn : isNameChar c = false) (rest : List Char) :
    Stray c rest := by
  refine stray_iff.mpr ⟨?_, Lexeme.first?_of_isWord hw hn⟩
  rw [Bool.eq_false_iff]
  intro hb
  rw [isWord_of_isBlank hb] at hw
  cases hw

theorem Stray.mark {c : Char} {rest : List Char} (h : Stray c rest) : isNameChar c = false ∧ c ≠ '>' ∧ c ≠ '=' := by
  rcases h with ⟨rfl, -⟩ | ⟨rfl | rfl, -⟩ | ⟨-, hn, hs⟩
  · decide
  · decide
  · decide
  · refine ⟨hn, ?_, ?_⟩ <;> rintro rfl <;> exact hs (by decide)

/-- A lexeme in front of a stray character ends there, although a reserved word may be a name then. -/
theorem Lexeme.exists_first?_of_stray {l : Lexeme} {c : Char} {rest : List Char} (hl : l.Valid) (h : Stray c rest) :
    ∃ m : Lexeme, m.written = l.written ∧ first? (m.written ++ c :: rest) = some m := by
  obtain ⟨hn, hgt, heq⟩ := h.mark
  by_cases hk : l.kind = .this ∨ l.kind = .keyword
  · obtain ⟨kind, text⟩ := l
    have ht : text ∈ reservedWords ∧ kind ≠ .string := by
      rcases hk with rfl | rfl
      · exact ⟨List.mem_cons.mpr (.inl hl), nofun⟩
      · exact ⟨List.mem_cons_of_mem _ hl, nofun⟩
    have hm : written ⟨wordKind text (c :: rest), text⟩ = text := if_neg (wordKind_ne _ _).1
    refine ⟨⟨wordKind text (c :: rest), text⟩, hm.trans (if_neg ht.2).symm, ?_⟩
    rw [hm]
    exact first?_reserved ht.1 fun d hd => Option.some.inj hd ▸ hn
  · exact ⟨l, rfl, first?_written hl (ends_cons hn (absurd · hk) hgt heq)⟩

/-! ### Texts -/

/-- The scan of a text that is cut up to a stray character ends there. -/
theorem Token.listFrom_of_stray {p : Nat} {front rest : List Char} {c : Char} {ts : List Token} (h : Cut p front ts)
    (hc : Stray c rest) : listFrom p 0 (front ++ c :: rest) = .error ⟨p + front.length, c⟩ := by
  induction h with
  | @nil p gap hg =>
    obtain ⟨hb, hf⟩ := stray_iff.mp hc
    rw [listFrom_append_blanks p hg, listFrom, if_neg (Bool.eq_false_iff.mp hb), hf]
  | @cons p gap front l ts hg hv he _ ih =>
    obtain ⟨m, hm, hfirst⟩ : ∃ m : Lexeme, m.written = l.written ∧
        Lexeme.first? (m.written ++ (front ++ c :: rest)) = some m := by
      -- only the last lexeme borders on the stray character, and it may be a reserved word
      by_cases hne : front = []
      · subst hne
        exact Lexeme.exists_first?_of_stray hv hc
      · exact ⟨l, rfl, Lexeme.first?_written hv (he.append hne)⟩
    rw [List.append_assoc, List.append_assoc, listFrom_append_blanks p hg, ← hm, listFrom_first? _ hfirst, hm, ih]
    simp [Except.map, Nat.add_assoc]

/-- A text that stands after `p` characters is cut into tokens, or up to a stray character. -/
def CutOrStray (p : Nat) (cs : List Char) : Prop :=
  (∃ ts, Cut p cs ts) ∨ ∃ front c rest ts, cs = front ++ c :: rest ∧ Cut p front ts ∧ Stray c rest

theorem CutOrStray.blanks {p : Nat} {lead cs : List Char} (hl : Blanks lead) (h : CutOrStray (p + lead.length) cs) :
    CutOrStray p (lead ++ cs) := by
  rcases h with ⟨ts, hts⟩ | ⟨front, c, rest, ts, rfl, hts, hc⟩
  · exact .inl ⟨ts, hts.blanks hl⟩
  · exact .inr ⟨lead ++ front, c, rest, ts, (List.append_assoc _ _ _).symm, hts.blanks hl, hc⟩

theorem CutOrStray.lexeme {p : Nat} {l : Lexeme} {rest : List Char} (hv : l.Valid) (he : l.Ends rest)
    (h : CutOrStray (p + l.written.length) rest) : CutOrStray p (l.written ++ rest) := by
  rcases h with ⟨ts, hts⟩ | ⟨front, c, more, ts, rfl, hts, hc⟩
  · exact .inl ⟨_, hts.lexeme hv he⟩
  · exact .inr ⟨l.written ++ front, c, more, _, (List.append_assoc _ _ _).symm, hts.lexeme hv he.left, hc⟩

theorem cutOrStray (p : Nat) (cs : List Char) : CutOrStray p cs := by
  induction hn : cs.length using Nat.strongRecOn generalizing p cs with
  | _ n ih =>
    subst hn
    cases cs with
    | nil => exact .inl ⟨[], .nil nofun⟩
    | cons c cs =>
      by_cases hb : isBlank c = true
      · exact .blanks (List.forall_mem_singleton.mpr hb) (ih cs.length (Nat.lt_succ_self _) _ cs rfl)
      · cases hl : Lexeme.first? (c :: cs) with
        | none => exact .inr ⟨[], c, cs, [], rfl, .nil nofun, stray_iff.mpr ⟨Bool.eq_false_iff.mpr hb, hl⟩⟩
        | some l =>
          obtain ⟨hne, rest, hrest⟩ := Lexeme.written_of_first? hl
          have hlt : rest.length < (c :: cs).length := by
            have := List.length_pos_iff.mpr hne
            rw [← hrest, List.length_append]
            omega
          rw [← hrest]
          rcases Lexeme.of_first? hl hrest.symm with ⟨hv, he⟩ | ⟨⟨m, hm, hw⟩, d, hd, hword, hname⟩
          · exact .lexeme hv he (ih rest.length hlt _ rest rfl)
          · -- a word character that no name has comes after the word, and it is stray
            obtain ⟨more, rfl⟩ := List.head?_eq_some_iff.mp hd
            rw [← hw]
            exact .inr ⟨m.written, d, more, _, rfl, Cut.single hm, .of_isWord hword hname more⟩

/-- A scan that succeeds has cut the text. -/
theorem Token.cut_of_listFrom {p : Nat} {cs : List Char} {ts : List Token} (h : listFrom p 0 cs = .ok ts) :
    ∃ body, ts = body ++ [.atEnd (p + cs.length)] ∧ Cut p cs body := by
  rcases cutOrStray p cs with ⟨body, hbody⟩ | ⟨front, c, rest, body, rfl, hbody, hc⟩
  · rw [listFrom_of_cut hbody] at h
    exact ⟨body, (Except.ok.inj h).symm, hbody⟩
  · rw [listFrom_of_stray hbody hc] at h
    cases h

/-- A scan that fails has cut the text up to a stray character. -/
theorem Token.stray_of_listFrom {p : Nat} {cs : List Char} {e : LexError} (h : listFrom p 0 cs = .error e) :
    ∃ front rest ts, cs = front ++ e.character :: rest ∧ e.position = p + front.length ∧ Cut p front ts ∧
      Stray e.character rest := by
  rcases cutOrStray p cs with ⟨body, hbody⟩ | ⟨front, c, rest, body, rfl, hbody, hc⟩
  · rw [listFrom_of_cut hbody] at h
    cases h
  · rw [listFrom_of_stray hbody hc] at h
    cases h
    exact ⟨front, rest, body, rfl, rfl, hbody, hc⟩

theorem scan_ofList (cs : List Char) : scan (String.ofList cs) = Token.listFrom 0 0 cs := by
  rw [scan, Scanner.tokens, Scanner.ofText, String.toList_ofList]

/-- A scan fails at a character if and only if the text before it can be scanned and the character starts no lexeme
    there. Places count characters, however many bytes each of them takes. -/
theorem scan_eq_error_iff (text : String) (p : Nat) (c : Char) :
    scan text = .error ⟨p, c⟩ ↔
      p < text.length ∧ text.toList[p]? = some c ∧ (∃ ts, scan (String.ofList (text.toList.take p)) = .ok ts) ∧
        Stray c (text.toList.drop (p + 1)) := by
  constructor
  · intro h
    have hscan : Token.listFrom 0 0 text.toList = .error ⟨p, c⟩ := h
    obtain ⟨front, rest, ts, hsplit, hp, hfront, hc⟩ := Token.stray_of_listFrom hscan
    obtain rfl : p = front.length := hp.trans (Nat.zero_add _)
    have hlen : front.length < text.length := by
      rw [← String.length_toList, hsplit]
      simp
    refine ⟨hlen, by simp [hsplit], ⟨ts ++ [.atEnd (0 + front.length)], ?_⟩, by simpa [hsplit] using hc⟩
    rw [hsplit, List.take_left' rfl, scan_ofList]
    exact Token.listFrom_of_cut hfront
  · rintro ⟨-, hc, ⟨ts, hts⟩, hstray⟩
    obtain ⟨hp, rfl⟩ := List.getElem?_eq_some_iff.mp hc
    have hsplit : text.toList.take p ++ text.toList[p] :: text.toList.drop (p + 1) = text.toList := by
      rw [List.getElem_cons_drop, List.take_append_drop]
    rw [scan_ofList] at hts
    obtain ⟨body, -, hbody⟩ := Token.cut_of_listFrom hts
    have hscan := Token.listFrom_of_stray hbody hstray
    rwa [hsplit, List.length_take_of_le (Nat.le_of_lt hp), Nat.zero_add] at hscan

/-- An open string stands behind half an operator, and the first of the two ends the scan. -/
example : scan "\"é\" & \"" = .error ⟨4, '&'⟩ := by cbv

end RecordQuery
