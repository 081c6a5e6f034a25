import RecordQuery.Proofs.Scan.Layout

/-! Texts put together. A text is cut in front of another one as it is cut alone, unless the other one goes on with
    its last lexeme, and the other one is scanned after it as it is scanned alone. Where a text stands makes a
    difference to the places of its tokens only. -/

namespace RecordQuery
open Text

/-- How the tokens of a kind are written, if there is one way only. -/
def Token.Kind.sign? : Token.Kind → Option (List Char)
  | .this => some ['t', 'h', 'i', 's']
  | .dot => some ['.']
  | .openParen => some ['(']
  | .closeParen => some [')']
  | _ => none

namespace Lexeme

theorem Valid.written_eq {l : Lexeme} {cs : List Char} (h : l.Valid) (hk : l.kind.sign? = some cs) :
    l.written = cs := by
  obtain ⟨kind, text⟩ := l
  cases kind with
  | this | dot | openParen | closeParen =>
    cases hk
    exact h
  | _ => cases hk

end Lexeme

/-- The scan of a longer text goes on after the tokens of its front, to its own tokens or to its own error. Only a
    token that reaches up to the end of the front could have gone on. -/
theorem Token.listFrom_append {p : Nat} {cs ds : List Char} {ts : List Token} (h : Cut p cs ts)
    (he : ∀ t ∈ ts, t.stop = p + cs.length → t.toLexeme.Ends ds) :
    listFrom p 0 (cs ++ ds) = (listFrom (p + cs.length) 0 ds).map (ts ++ ·) := by
  induction h with
  | @nil p gap hg =>
    rw [listFrom_append_blanks p hg]
    cases listFrom (p + gap.length) 0 ds <;> rfl
  | @cons p gap rest l ts hg hv hl _ ih =>
    have hlen : p + (gap ++ (l.written ++ rest)).length = p + gap.length + l.written.length + rest.length := by
      simp only [List.length_append, Nat.add_assoc]
    rw [hlen] at he ⊢
    have hrest : l.Ends (rest ++ ds) := by
      by_cases hne : rest = []
      · subst hne
        simpa [l.toLexeme_token] using he _ List.mem_cons_self (l.stop_token _)
      · exact hl.append hne
    rw [List.append_assoc, List.append_assoc, listFrom_append_blanks _ hg,
      listFrom_first? _ (Lexeme.first?_written hv hrest), ih fun t ht => he t (List.mem_cons_of_mem _ ht)]
    cases listFrom (p + gap.length + l.written.length + rest.length) 0 ds <;> rfl

/-! ### Cuts -/

theorem cut_iff_listFrom {p : Nat} {cs : List Char} {ts : List Token} :
    Cut p cs ts ↔ Token.listFrom p 0 cs = .ok (ts ++ [.atEnd (p + cs.length)]) := by
  refine ⟨Token.listFrom_of_cut, fun h => ?_⟩
  obtain ⟨body, heq, hbody⟩ := Token.cut_of_listFrom h
  rwa [List.append_cancel_right heq]

theorem Cut.append_iff {p : Nat} {cs ds : List Char} {ts vs : List Token} (h : Cut p cs ts)
    (he : ∀ t ∈ ts, t.stop = p + cs.length → t.toLexeme.Ends ds) :
    Cut p (cs ++ ds) vs ↔ ∃ us, vs = ts ++ us ∧ Cut (p + cs.length) ds us := by
  rw [cut_iff_listFrom, Token.listFrom_append h he, List.length_append, ← Nat.add_assoc]
  constructor
  · intro hvs
    obtain ⟨all, hall, heq⟩ := map_eq_ok hvs
    obtain ⟨us, rfl, hus⟩ := Token.cut_of_listFrom hall
    rw [← List.append_assoc] at heq
    exact ⟨us, (List.append_cancel_right heq).symm, hus⟩
  · rintro ⟨us, rfl, hus⟩
    rw [Token.listFrom_of_cut hus, List.append_assoc]
    rfl

/-- A text that goes on with no lexeme can come after any other one. -/
theorem Cut.append {p : Nat} {cs ds : List Char} {ts us : List Token} (h : Cut p cs ts)
    (hd : Cut (p + cs.length) ds us) (he : ∀ l : Lexeme, l.Ends ds) : Cut p (cs ++ ds) (ts ++ us) :=
  (h.append_iff fun t _ _ => he t.toLexeme).mpr ⟨us, rfl, hd⟩

theorem Cut.of_cons {p : Nat} {cs : List Char} {t : Token} {ts : List Token} (h : Cut p cs (t :: ts)) :
    ∃ gap rest, cs = gap ++ (t.toLexeme.written ++ rest) ∧ Blanks gap ∧ t.toLexeme.Valid ∧ t.toLexeme.Ends rest ∧
      Cut (p + gap.length + t.toLexeme.written.length) rest ts := by
  cases h with
  | @cons _ gap rest l _ hg hv he h =>
    rw [l.toLexeme_token]
    exact ⟨gap, rest, rfl, hg, hv, he, h⟩

theorem Cut.of_nil {p : Nat} {cs : List Char} (h : Cut p cs []) : Blanks cs := by
  cases h with
  | nil hg => exact hg

/-- The last token of a text is cut off from what stands before it. -/
theorem Cut.of_concat {p : Nat} {cs : List Char} {ts : List Token} {t : Token} (h : Cut p cs (ts ++ [t])) :
    ∃ ds gap, cs = ds ++ (t.toLexeme.written ++ gap) ∧ Cut p ds ts ∧ t.toLexeme.Valid ∧ Blanks gap := by
  induction ts generalizing p cs with
  | nil =>
    obtain ⟨gap, rest, rfl, hg, hv, -, hrest⟩ := h.of_cons
    exact ⟨gap, rest, rfl, .nil hg, hv, hrest.of_nil⟩
  | cons u ts ih =>
    cases h with
    | @cons _ gap rest l _ hg hv he hrest =>
      obtain ⟨ds, after, rfl, hds, ht, hafter⟩ := ih hrest
      exact ⟨gap ++ (l.written ++ ds), after, by simp, .cons hg hv he.left hds, ht, hafter⟩

/-- The place of a token says where it divides the text. -/
theorem Cut.of_middle {p : Nat} {cs : List Char} {v w : List Token} {t : Token} (h : Cut p cs (v ++ t :: w)) :
    ∃ ds rest, cs = ds ++ (t.toLexeme.written ++ rest) ∧ t.position = p + ds.length ∧ Cut p ds v ∧
      t.toLexeme.Ends rest ∧ Cut t.stop rest w := by
  induction v generalizing p cs with
  | nil =>
    cases h with
    | @cons _ gap rest l _ hg _ he hrest =>
      rw [l.toLexeme_token, l.stop_token]
      exact ⟨gap, rest, rfl, rfl, .nil hg, he, hrest⟩
  | cons u v ih =>
    cases h with
    | @cons _ gap rest l _ hg hv he hrest =>
      obtain ⟨ds, more, rfl, hposition, hds, ht, hmore⟩ := ih hrest
      refine ⟨gap ++ (l.written ++ ds), more, by simp, ?_, .cons hg hv he.left hds, ht, hmore⟩
      simp only [hposition, List.length_append, Nat.add_assoc]

/-- Wherever a text stands it spells the same lexemes. -/
theorem Cut.spells {p : Nat} {cs : List Char} {ts : List Token} (h : Cut p cs ts) :
    Spells (ts.map Token.toLexeme) cs := by
  induction h with
  | @nil _ gap hg => simpa using Spells.nil.blanks hg
  | @cons _ _ _ l _ hg hv he _ ih =>
    rw [List.map_cons, l.toLexeme_token]
    exact (ih.lexeme hv he).blanks hg

end RecordQuery
