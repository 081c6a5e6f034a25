import Mathlib.Data.List.Chain
import RecordQuery.Proofs.Derived

/-! Lexemes and the blanks around them. Lexemes that are written with blanks between them are scanned to the tokens
    that they are, each where it was written, and every text that can be scanned is written so but for lexemes that
    need no blanks between them. So other blanks change the places of the tokens, and nothing else. -/

namespace RecordQuery
open Grammar Text

/-- A lexeme and what stands before it. -/
structure Piece where
  gap : List Char
  lexeme : Lexeme

namespace Piece

/-- The text of the pieces, and what stands after the last one. -/
def text : List Piece → List Char → List Char
  | [], last => last
  | x :: pieces, last => x.gap ++ (x.lexeme.written ++ text pieces last)

/-- The tokens of pieces that stand after `p` characters: each stands where its lexeme starts. -/
def tokens (p : Nat) : List Piece → List Token
  | [] => []
  | x :: pieces =>
    x.lexeme.token (p + x.gap.length) :: tokens (p + x.gap.length + x.lexeme.written.length) pieces

/-- The lexeme is in the language of its kind, and blanks stand before it or nothing. -/
structure Valid (x : Piece) : Prop where
  gap : Blanks x.gap
  lexeme : x.lexeme.Valid

/-- Without blanks before the second lexeme the first one ends where it starts. -/
def Apart (x y : Piece) : Prop := y.gap = [] → x.lexeme.Ends y.lexeme.written

theorem map_toLexeme_tokens (p : Nat) (pieces : List Piece) :
    (tokens p pieces).map Token.toLexeme = pieces.map (·.lexeme) := by
  induction pieces generalizing p with
  | nil => rfl
  | cons x pieces ih => rw [tokens, List.map_cons, List.map_cons, ih, Lexeme.toLexeme_token]

theorem map_kind_text_tokens (p : Nat) (pieces : List Piece) :
    (tokens p pieces).map (fun t => (t.kind, t.text)) =
      (pieces.map (·.lexeme)).map fun l => (l.kind, some (String.ofList l.text)) := by
  induction pieces generalizing p with
  | nil => rfl
  | cons x pieces ih => rw [tokens, List.map_cons, List.map_cons, List.map_cons, ih, Lexeme.token]

theorem apart_iff {x y : Piece} (hy : y.Valid) (rest : List Char) :
    x.Apart y ↔ x.lexeme.Ends (y.gap ++ (y.lexeme.written ++ rest)) := by
  obtain ⟨gap, m⟩ := y
  obtain ⟨hg, hm⟩ := hy
  rw [Apart]
  cases gap with
  | nil => exact ⟨fun h => (h rfl).append (List.length_pos_iff.mp hm.length_pos), fun h _ => Lexeme.Ends.left h⟩
  | cons c gap => exact ⟨fun _ => Lexeme.ends_blank (hg c List.mem_cons_self), nofun⟩

end Piece

/-! ### Cuts -/

theorem Cut.of_token {p q : Nat} {cs : List Char} {l : Lexeme} {ts : List Token} (h : Cut p cs (l.token q :: ts)) :
    ∃ gap rest, cs = gap ++ (l.written ++ rest) ∧ q = p + gap.length ∧ l.Ends rest ∧
      Cut (q + l.written.length) rest ts := by
  generalize ht : l.token q = t at h
  cases h with
  | @cons _ gap rest m _ hg hv he h =>
    obtain rfl : l = m := by rw [← l.toLexeme_token q, ht, m.toLexeme_token]
    obtain rfl : q = p + gap.length := congrArg Token.position ht
    exact ⟨gap, rest, rfl, rfl, he, h⟩

theorem Piece.cut_iff {pieces : List Piece} {last : List Char} (hv : ∀ x ∈ pieces, x.Valid) (hl : Blanks last)
    (p : Nat) : Cut p (text pieces last) (tokens p pieces) ↔ pieces.IsChain Apart := by
  induction pieces generalizing p with
  | nil => exact ⟨fun _ => .nil, fun _ => .nil hl⟩
  | cons x pieces ih =>
    obtain ⟨hx, hv⟩ := List.forall_mem_cons.mp hv
    have hrest : pieces.IsChain Apart ∧ x.lexeme.Ends (text pieces last) ↔ (x :: pieces).IsChain Apart := by
      cases pieces with
      | nil =>
        have hend : x.lexeme.Ends last := Lexeme.ends_of_isBlank fun c hc => hl c (List.mem_of_mem_head? hc)
        exact ⟨fun _ => .singleton x, fun _ => ⟨.nil, hend⟩⟩
      | cons y pieces => rw [List.isChain_cons_cons, apart_iff (hv y List.mem_cons_self), and_comm, text]
    rw [← hrest, ← ih hv]
    constructor
    · intro h
      -- the place of the first token says how long the gap before it is
      obtain ⟨gap, rest, hsplit, hlen, he, hcut⟩ := h.of_token
      obtain ⟨-, hsplit⟩ := List.append_inj hsplit (Nat.add_left_cancel hlen)
      obtain rfl := List.append_cancel_left hsplit
      exact ⟨hcut, he⟩
    · rintro ⟨hcut, he⟩
      exact .cons hx.gap hx.lexeme he hcut

theorem Cut.exists_pieces {p : Nat} {cs : List Char} {ts : List Token} (h : Cut p cs ts) :
    ∃ pieces last, (∀ x ∈ pieces, Piece.Valid x) ∧ Blanks last ∧ cs = Piece.text pieces last ∧
      ts = Piece.tokens p pieces := by
  induction h with
  | @nil p gap hg => exact ⟨[], gap, nofun, hg, rfl, rfl⟩
  | @cons p gap rest l ts hg hv _ _ ih =>
    obtain ⟨pieces, last, hpieces, hlast, rfl, rfl⟩ := ih
    exact ⟨⟨gap, l⟩ :: pieces, last, List.forall_mem_cons.mpr ⟨⟨hg, hv⟩, hpieces⟩, hlast, rfl, rfl⟩

theorem Cut.unique {p : Nat} {cs : List Char} {ts us : List Token} (h : Cut p cs ts) (h' : Cut p cs us) : us = ts := by
  have heq := (Token.listFrom_of_cut h').symm.trans (Token.listFrom_of_cut h)
  exact List.append_cancel_right (Except.ok.inj heq)

/-! ### Spacings -/

/-- Lexemes with blanks before each and after the last one, or with nothing there. -/
structure Spacing where
  pieces : List Piece
  last : List Char
  valid : ∀ x ∈ pieces, x.Valid
  blanks : Blanks last

namespace Spacing

/-- The text that the lexemes and the blanks make. -/
def text (s : Spacing) : String := String.ofList (Piece.text s.pieces s.last)

/-- The tokens that the lexemes make in the text, and the end of it. -/
def tokens (s : Spacing) : List Token := Piece.tokens 0 s.pieces ++ [.atEnd s.text.length]

/-- The lexemes of `s` with other blanks. Between two lexemes there have to be some if there are some in `s`. -/
structure Respaces (s' s : Spacing) : Prop where
  lexemes : s'.pieces.map (·.lexeme) = s.pieces.map (·.lexeme)
  gaps : List.Forall₂ (fun x' x => x'.gap = [] → x.gap = []) s'.pieces.tail s.pieces.tail

variable {s s' : Spacing}

theorem scan_text_iff_cut (s : Spacing) :
    scan s.text = .ok s.tokens ↔ Cut 0 s.text.toList (Piece.tokens 0 s.pieces) := by
  rw [cut_iff_listFrom, ← scan_ofList, String.ofList_toList, tokens, Nat.zero_add, String.length_toList]

/-- The text is scanned to the lexemes if and only if each of them ends where the next one starts without blanks
    between them. -/
theorem scan_text_iff (s : Spacing) : scan s.text = .ok s.tokens ↔ s.pieces.IsChain Piece.Apart := by
  rw [scan_text_iff_cut, text, String.toList_ofList, Piece.cut_iff s.valid s.blanks]

theorem apart_of_gaps {pieces : List Piece} (h : ∀ x ∈ pieces.tail, x.gap ≠ []) : pieces.IsChain Piece.Apart := by
  induction pieces with
  | nil => exact .nil
  | cons x pieces ih =>
    cases pieces with
    | nil => exact .singleton x
    | cons y pieces =>
      obtain ⟨hy, hrest⟩ := List.forall_mem_cons.mp h
      exact .cons_cons (absurd · hy) (ih hrest)

theorem exists_of_scan {text : String} {ts : List Token} (h : scan text = .ok ts) :
    ∃ s : Spacing, s.text = text ∧ s.tokens = ts := by
  rw [← text.ofList_toList, scan_ofList] at h
  obtain ⟨body, rfl, hbody⟩ := Token.cut_of_listFrom h
  obtain ⟨pieces, last, hpieces, hlast, hsplit, rfl⟩ := hbody.exists_pieces
  have htext : String.ofList (Piece.text pieces last) = text := by rw [← hsplit, String.ofList_toList]
  refine ⟨⟨pieces, last, hpieces, hlast⟩, htext, ?_⟩
  rw [tokens, Spacing.text, htext, Nat.zero_add, String.length_toList]

theorem apart_respaced {xs xs' : List Piece} (hl : xs'.map (·.lexeme) = xs.map (·.lexeme))
    (hg : List.Forall₂ (fun x' x => x'.gap = [] → x.gap = []) xs'.tail xs.tail) (hs : xs.IsChain Piece.Apart) :
    xs'.IsChain Piece.Apart := by
  induction hs generalizing xs' with
  | nil =>
    obtain rfl := List.map_eq_nil_iff.mp hl
    exact .nil
  | singleton x =>
    obtain ⟨x', rfl, -⟩ := List.map_eq_singleton_iff.mp hl
    exact .singleton x'
  | @cons_cons x y ys hxy _ ih =>
    obtain ⟨x', ys', rfl, hx, hl⟩ := List.map_eq_cons_iff.mp hl
    obtain ⟨y', ys', rfl, hy, -⟩ := List.map_eq_cons_iff.mp hl
    obtain ⟨hgap, hg⟩ := List.forall₂_cons.mp hg
    refine .cons_cons (fun h => ?_) (ih hl hg)
    rw [hx, hy]
    exact hxy (hgap h)

theorem Respaces.alike (h : s'.Respaces s) : Alike (Piece.tokens 0 s'.pieces) (Piece.tokens 0 s.pieces) := by
  rw [Alike, Piece.map_toLexeme_tokens, Piece.map_toLexeme_tokens, h.lexemes]

theorem Respaces.map_kind_text (h : s'.Respaces s) :
    s'.tokens.map (fun t => (t.kind, t.text)) = s.tokens.map fun t => (t.kind, t.text) := by
  rw [tokens, tokens, List.map_append, List.map_append, Piece.map_kind_text_tokens, Piece.map_kind_text_tokens,
    h.lexemes]
  rfl

theorem Respaces.scan (h : s'.Respaces s) (hs : RecordQuery.scan s.text = .ok s.tokens) :
    RecordQuery.scan s'.text = .ok s'.tokens :=
  s'.scan_text_iff.mpr (apart_respaced h.lexemes h.gaps (s.scan_text_iff.mp hs))

end Spacing

/-- Tokens that look alike are parsed alike, wherever they stand. -/
theorem parse_of_alike {text text' : String} {w w' : List Token} (h : Cut 0 text.toList w) (h' : Cut 0 text'.toList w')
    (hw : Alike w' w) {q : Query} (hq : parse text = .ok q) : parse text' = .ok q := by
  obtain ⟨v, hv, hlinq⟩ := parse_eq_ok_iff.mp hq
  obtain rfl := h.unique hv
  exact parse_eq_ok_iff.mpr ⟨w', h', respells_linqExpr hlinq hw⟩

theorem parseWith_congr {text text' : String} (h : ∀ q, parse text' = .ok q ↔ parse text = .ok q)
    (known : Option (List String)) (q : Query) : parseWith known text' = .ok q ↔ parseWith known text = .ok q := by
  cases known with
  | none => exact h q
  | some names => rw [parseWith_known_iff, parseWith_known_iff, h]

/-- Lexemes with blanks between them are scanned to their tokens, each where it was written, and to the end behind
    them. The tokens of every text that can be scanned are such tokens. With other blanks around them, and between
    them wherever there are blanks, the tokens have the same kinds and texts, and they are parsed as the same query. -/
theorem scan_respaced :
    (∀ s : Spacing, (∀ x ∈ s.pieces.tail, x.gap ≠ []) → scan s.text = .ok s.tokens) ∧
      (∀ text ts, scan text = .ok ts → ∃ s : Spacing, s.text = text ∧ s.tokens = ts) ∧
      ∀ s s' : Spacing, scan s.text = .ok s.tokens → s'.Respaces s →
        scan s'.text = .ok s'.tokens ∧
          s'.tokens.map (fun t => (t.kind, t.text)) = s.tokens.map (fun t => (t.kind, t.text)) ∧
          ∀ known q, parseWith known s'.text = .ok q ↔ parseWith known s.text = .ok q := by
  refine ⟨fun s h => s.scan_text_iff.mpr (Spacing.apart_of_gaps h), fun _ _ => Spacing.exists_of_scan,
    fun s s' hs h => ⟨h.scan hs, h.map_kind_text, parseWith_congr fun q => ?_⟩⟩
  have hcut := s.scan_text_iff_cut.mp hs
  have hcut' := s'.scan_text_iff_cut.mp (h.scan hs)
  exact ⟨parse_of_alike hcut' hcut h.alike.symm, parse_of_alike hcut hcut' h.alike⟩

end RecordQuery
