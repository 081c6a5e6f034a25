import RecordQuery.Proofs.Scan.Stray

/-! What a successful scan says of a text: its tokens are lexemes of the text, each at its place and as long as
    it can be, and all that stands between them is blank. No other tokens do this. -/

namespace RecordQuery
open Text

theorem Cut.valid {p : Nat} {cs : List Char} {ts : List Token} (h : Cut p cs ts) : ∀ t ∈ ts, t.toLexeme.Valid := by
  induction h with
  | nil => nofun
  | @cons _ _ _ l _ _ hv _ _ ih => exact List.forall_mem_cons.mpr ⟨(l.toLexeme_token _).symm ▸ hv, ih⟩

/-- Every token of a scan before the end is in the language of its kind. -/
theorem valid_of_scan {text : String} {ts : List Token} (h : scan text = .ok ts) :
    ∀ t ∈ ts, t.kind ≠ .ending → t.toLexeme.Valid := by
  obtain ⟨body, rfl, hbody⟩ := Token.cut_of_listFrom h
  intro t ht hk
  rcases List.mem_append.mp ht with ht | ht
  · exact hbody.valid t ht
  · obtain rfl := List.mem_singleton.mp ht
    exact absurd rfl hk

/-- The place after the characters that a token takes. -/
def Token.stop (t : Token) : Nat := t.position + t.toLexeme.written.length

/-- The tokens divide what a text has from position `p` on. At the place of each token stand the characters of a
    lexeme of its kind, which ends there; no token takes a character of another one; and a character that no token
    takes is blank. -/
structure Divides (cs : List Char) (p : Nat) (ts : List Token) : Prop where
  lexeme : ∀ t ∈ ts, ∃ (l : Lexeme) (rest : List Char),
    t = l.token t.position ∧ l.Valid ∧ cs.drop t.position = l.written ++ rest ∧ l.Ends rest
  start : ∀ t ∈ ts, p ≤ t.position
  apart : ts.Pairwise fun t u => t.position < u.position ∧ t.stop ≤ u.position
  blank : ∀ i c, p ≤ i → cs[i]? = some c → (∀ t ∈ ts, i < t.position ∨ t.stop ≤ i) → isBlank c = true

theorem Lexeme.stop_token (l : Lexeme) (position : Nat) : (l.token position).stop = position + l.written.length := by
  rw [Token.stop, toLexeme_token, token]

theorem Lexeme.Valid.length_pos {l : Lexeme} (h : l.Valid) : 0 < l.written.length :=
  List.length_pos_iff.mpr (written_of_first? (@first?_written l [] h nofun)).1

theorem Cut.divides {cs ds : List Char} {p : Nat} {ts : List Token} (h : Cut p ds ts) (hds : cs.drop p = ds) :
    Divides cs p ts := by
  induction h with
  | @nil p gap hg =>
    refine ⟨nofun, nofun, .nil, fun i c hi hc _ => hg c ?_⟩
    rw [← hds]
    refine List.mem_of_getElem? (i := i - p) ?_
    rw [List.getElem?_drop, Nat.add_sub_cancel' hi, hc]
  | @cons p gap rest l ts hg hv he _ ih =>
    have hgap : cs.drop (p + gap.length) = l.written ++ rest := by rw [← List.drop_drop, hds, List.drop_left' rfl]
    have hrest : cs.drop (p + gap.length + l.written.length) = rest := by
      rw [← List.drop_drop, hgap, List.drop_left' rfl]
    obtain ⟨hlexeme, hstart, hapart, hblank⟩ := ih hrest
    have hpos := hv.length_pos
    refine ⟨?_, ?_, ?_, ?_⟩
    · exact List.forall_mem_cons.mpr ⟨⟨l, rest, rfl, hv, hgap, he⟩, hlexeme⟩
    · refine List.forall_mem_cons.mpr ⟨Nat.le_add_right _ _, fun t ht => ?_⟩
      have := hstart t ht
      omega
    · refine List.pairwise_cons.mpr ⟨fun u hu => ?_, hapart⟩
      have := hstart u hu
      rw [l.stop_token]
      exact ⟨Nat.lt_of_lt_of_le (Nat.lt_add_of_pos_right hpos) this, this⟩
    · intro i c hi hc hout
      obtain ⟨hl, hts⟩ := List.forall_mem_cons.mp hout
      rw [l.stop_token] at hl
      rcases hl with hl | hl
      · -- before the first token
        have hi' : i - p < gap.length := by
          have : i < p + gap.length := hl
          omega
        refine hg c (List.mem_of_getElem? (i := i - p) ?_)
        have hat : (gap ++ (l.written ++ rest))[i - p]? = some c := by
          rw [← hds, List.getElem?_drop, Nat.add_sub_cancel' hi, hc]
        rwa [List.getElem?_append_left hi'] at hat
      · exact hblank i c hl hc hts

/-- A token that reaches up to another one is the last one before it. -/
theorem Divides.exists_concat {cs : List Char} {p : Nat} {v w : List Token} {t u : Token}
    (h : Divides cs p (v ++ t :: w)) (hu : u ∈ v) (hstop : u.stop = t.position) : ∃ v', v = v' ++ [u] := by
  obtain ⟨x, y, rfl⟩ := List.append_of_mem hu
  cases y with
  | nil => exact ⟨x, rfl⟩
  | cons s y =>
    have hapart := h.apart
    rw [List.append_assoc, List.pairwise_append] at hapart
    obtain ⟨-, hapart, -⟩ := hapart
    obtain ⟨hu, hapart⟩ := List.pairwise_cons.mp hapart
    obtain ⟨hs, -⟩ := List.pairwise_cons.mp hapart
    have hus : u.stop ≤ s.position := (hu s List.mem_cons_self).2
    have hst : s.position < t.position := (hs t (by simp)).1
    rw [hstop] at hus
    exact absurd hst (Nat.not_lt_of_le hus)

/-- The text does not go on with a token that reaches up to it. -/
theorem Divides.ends {cs ds rest : List Char} {p : Nat} {ts : List Token} {t : Token} (h : Divides cs p ts)
    (ht : t ∈ ts) (hsplit : cs = ds ++ rest) (hstop : t.stop = ds.length) : t.toLexeme.Ends rest := by
  obtain ⟨l, more, hl, -, hdrop, hends⟩ := h.lexeme t ht
  have hlen : t.position + l.written.length = ds.length := by rw [← hstop, hl, l.stop_token, Lexeme.token]
  have hmore : rest = more := by
    have hdrop := congrArg (List.drop l.written.length) hdrop
    rwa [List.drop_drop, hlen, hsplit, List.drop_left' rfl, List.drop_left' rfl] at hdrop
  rw [hl, l.toLexeme_token, hmore]
  exact hends

theorem exists_blanks {cs : List Char} {p q : Nat} (hp : p ≤ q) (hq : q ≤ cs.length)
    (h : ∀ i c, p ≤ i → i < q → cs[i]? = some c → isBlank c = true) :
    ∃ gap, Blanks gap ∧ cs.drop p = gap ++ cs.drop q ∧ p + gap.length = q := by
  refine ⟨(cs.drop p).take (q - p), fun c hc => ?_, ?_, ?_⟩
  · obtain ⟨i, hi⟩ := List.mem_iff_getElem?.mp hc
    rw [List.getElem?_take, List.getElem?_drop] at hi
    split at hi
    · rename_i hlt
      exact h (p + i) c (Nat.le_add_right _ _) (by omega) hi
    · cases hi
  · rw [← Nat.add_sub_cancel' hp, ← List.drop_drop, Nat.add_sub_cancel_left, List.take_append_drop]
  · rw [List.length_take, List.length_drop]
    omega

theorem Divides.cut {cs : List Char} {p : Nat} {ts : List Token} (h : Divides cs p ts) : Cut p (cs.drop p) ts := by
  induction ts generalizing p with
  | nil =>
    refine .nil fun c hc => ?_
    obtain ⟨i, hi⟩ := List.mem_iff_getElem?.mp hc
    rw [List.getElem?_drop] at hi
    exact h.blank _ c (Nat.le_add_right _ _) hi nofun
  | cons t ts ih =>
    obtain ⟨hlexeme, hstart, hapart, hblank⟩ := h
    obtain ⟨⟨l, rest, ht, hv, hdrop, he⟩, hlexeme⟩ := List.forall_mem_cons.mp hlexeme
    obtain ⟨hle, -⟩ := List.forall_mem_cons.mp hstart
    obtain ⟨hafter, hapart⟩ := List.pairwise_cons.mp hapart
    have hstop : t.stop = t.position + l.written.length := by rw [ht, l.stop_token]; rfl
    have hrest : cs.drop t.stop = rest := by rw [hstop, ← List.drop_drop, hdrop, List.drop_left' rfl]
    have hnext : Divides cs t.stop ts := by
      refine ⟨hlexeme, fun u hu => (hafter u hu).2, hapart, fun i c hi hc hout => ?_⟩
      exact hblank i c (by omega) hc (List.forall_mem_cons.mpr ⟨.inr hi, hout⟩)
    obtain ⟨gap, hgap, hsplit, hlen⟩ : ∃ gap, Blanks gap ∧ cs.drop p = gap ++ cs.drop t.position ∧
        p + gap.length = t.position := by
      refine exists_blanks hle ?_ fun i c hi hlt hc => ?_
      · have hdroplen := congrArg List.length hdrop
        have hpos := hv.length_pos
        simp only [List.length_drop, List.length_append] at hdroplen
        omega
      · refine hblank i c hi hc (List.forall_mem_cons.mpr ⟨.inl hlt, fun u hu => .inl ?_⟩)
        exact Nat.lt_trans hlt (hafter u hu).1
    have hcut := ih hnext
    rw [hrest, hstop, ← hlen] at hcut
    rw [hsplit, hdrop, ht, ← hlen]
    exact .cons hgap hv he hcut

/-- A scan gives the tokens that divide the text, and after them the end at the number of its characters. -/
theorem scan_eq_ok_iff (text : String) (ts : List Token) :
    scan text = .ok ts ↔ ∃ body, ts = body ++ [.atEnd text.length] ∧ Divides text.toList 0 body := by
  have hcut : scan text = .ok ts ↔ ∃ body, ts = body ++ [.atEnd text.length] ∧ Cut 0 text.toList body := by
    have hend : Token.atEnd text.length = .atEnd (0 + text.toList.length) := by
      rw [Nat.zero_add, String.length_toList]
    rw [hend]
    exact ⟨Token.cut_of_listFrom, fun ⟨body, h, hbody⟩ => h ▸ Token.listFrom_of_cut hbody⟩
  rw [hcut]
  exact exists_congr fun body => and_congr_right' ⟨fun h => h.divides rfl, fun h => h.cut⟩

end RecordQuery
