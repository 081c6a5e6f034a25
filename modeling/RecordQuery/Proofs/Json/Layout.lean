import RecordQuery.Proofs.Json.Cursor
import RecordQuery.Proofs.Json.ReadBack
import RecordQuery.Proofs.Scan.Language

/-! The two layouts of a value. They differ by newlines and spaces outside of the string literals alone; the one has none
    of those, and the other indents each line by the brackets that are open. -/

namespace RecordQuery.Json
open Text

/-! ### Numerals -/

theorem isInk_of_isAlphanum {c : Char} (h : c.isAlphanum = true) : IsInk c := by
  have hne {d : Char} (hd : d.isAlphanum = false) : c ≠ d := by
    rintro rfl
    rw [h] at hd
    cases hd
  have hrange : 0x30 ≤ c.toNat ∧ c.toNat ≤ 0x7A := by
    rw [Char.isAlphanum, Bool.or_eq_true, isAlpha_iff, isDigit_iff] at h
    omega
  refine ⟨⟨by omega, ?_, hne rfl, hne rfl⟩, if_neg (not_or.mpr ⟨hne rfl, hne rfl⟩), if_neg (not_or.mpr ⟨hne rfl, hne rfl⟩)⟩
  rw [Bool.eq_false_iff]
  intro hblank
  rw [isBlank_iff] at hblank
  omega

theorem isInk_of_isDigit {c : Char} (h : c.isDigit = true) : IsInk c :=
  isInk_of_isAlphanum (by rw [Char.isAlphanum, h, Bool.or_true])

theorem Numeral.Readable.isInk {m : Numeral} (hm : m.Readable) {c : Char} (hc : c ∈ m.text) : IsInk c := by
  have hdigits {ds : List Char} (h : isDigits ds = true) {c : Char} (hc : c ∈ ds) : IsInk c :=
    isInk_of_isDigit ((isDigits_iff.mp h).2 c hc)
  have hfraction {c : Char} (hc : c ∈ fractionText m.fraction) : IsInk c := by
    unfold fractionText at hc
    split at hc
    · cases hc
    · rcases List.mem_cons.mp hc with rfl | hc
      · decide
      · exact isInk_of_isDigit (hm.fraction c hc)
  have hexponent {c : Char} (hc : c ∈ exponentText m.exponent) : IsInk c := by
    cases he : m.exponent with
    | none =>
      rw [he] at hc
      cases hc
    | some e =>
      obtain ⟨negative, ds⟩ := e
      rw [he] at hc
      rcases List.mem_cons.mp hc with rfl | hc
      · decide
      · rcases List.mem_cons.mp hc with rfl | hc
        · cases negative <;> decide
        · exact hdigits (hm.exponent _ he) hc
  have hunsigned {c : Char} (hc : c ∈ m.unsigned) : IsInk c := by
    rcases List.mem_append.mp hc with hc | hc
    · exact hdigits hm.whole hc
    · exact (List.mem_append.mp hc).elim hfraction hexponent
  unfold text at hc
  split at hc
  · rcases List.mem_cons.mp hc with rfl | hc
    · decide
    · exact hunsigned hc
  · exact hunsigned hc

theorem Numeral.Readable.text_ne_nil {m : Numeral} (hm : m.Readable) : m.text ≠ [] := by
  obtain ⟨c, cs, htext, -⟩ := Numeral.exists_text_eq_cons hm
  rw [htext]
  exact List.cons_ne_nil c cs

/-! ### Values -/

/-- A text for each layout that may stand `n` brackets deep, and differs from the compact one by layout only. -/
def Fits (n : Nat) (text : Layout → List Char) : Prop :=
  ∀ layout s, Ready n n s → Moves layout s (text layout) (solid n) (text .compact)

section Fits
variable {n : Nat}

theorem fits_numeral {m : Numeral} (hm : m.Readable) : Fits n fun _ => m.text :=
  fun _ _ hs => hs.inks hm.text_ne_nil fun _ => hm.isInk

theorem fits_word {cs : List Char} (hne : cs ≠ []) (hcs : cs.all Char.isAlphanum = true) : Fits n fun _ => cs :=
  fun _ _ hs => hs.inks hne fun c hc => isInk_of_isAlphanum (List.all_eq_true.mp hcs c hc)

theorem fits_literal (text : String) : Fits n fun _ => stringText text := fun _ _ hs => hs.literal text

theorem fits_field (key : String) {text : Layout → List Char} (h : Fits n text) :
    Fits n fun layout => stringText key ++ ':' :: layout.gap ++ text layout := by
  intro layout s hs
  obtain ⟨t, ht, hcolon⟩ := exists_moves_colon layout n
  have hkey : Moves layout s (stringText key) (solid n) (stringText key) := hs.literal key
  have hmoves := (hkey.append hcolon).append (h layout t ht)
  simpa [Layout.gap] using hmoves

/-- What follows the first of several texts in brackets, each after a comma. -/
def followers (n : Nat) (rest : List (Layout → List Char)) (layout : Layout) : List Char :=
  rest.flatMap fun text => ',' :: (layout.newline n ++ text layout)

theorem moves_followers {rest : List (Layout → List Char)} (h : ∀ text ∈ rest, Fits n text) (layout : Layout) :
    Moves layout (solid n) (followers n rest layout) (solid n) (followers n rest .compact) := by
  induction rest with
  | nil => exact .nil
  | cons text rest ih =>
    obtain ⟨htext, hrest⟩ := List.forall_mem_cons.mp h
    have hcomma : Moves layout (solid n) [','] (solid n) [','] := (ready_solid n n).ink (by decide)
    have hnewline := moves_newline layout n n
    have hitem := htext layout _ (ready_fresh layout n n)
    have hmoves := ((hcomma.append hnewline).append hitem).append (ih hrest)
    simpa [followers, Layout.newline] using hmoves

theorem fits_brackets {opening closing : Char} (hb : (opening = '[' ∨ opening = '{') ∧ (closing = ']' ∨ closing = '}'))
    {first : Layout → List Char} {rest : List (Layout → List Char)} (h : ∀ text ∈ first :: rest, Fits (n + 1) text) :
    Fits n fun layout => opening :: (layout.newline (n + 1) ++ first layout ++ followers (n + 1) rest layout ++
      layout.newline n ++ [closing]) := by
  intro layout s hs
  obtain ⟨hfirst, hrest⟩ := List.forall_mem_cons.mp h
  have hopen : Moves layout s [opening] (solid (n + 1)) [opening] := hs.opening hb.1
  have hbody := ((moves_newline layout (n + 1) (n + 1)).append (hfirst layout _ (ready_fresh layout _ _))).append
    (moves_followers hrest layout)
  have hclose := (moves_newline layout (n + 1) n).append ((ready_fresh layout (n + 1) n).closing hb.2)
  have hmoves := (hopen.append hbody).append hclose
  simpa [Layout.newline] using hmoves

theorem fits_empty {opening closing : Char} (hb : (opening = '[' ∨ opening = '{') ∧ (closing = ']' ∨ closing = '}')) :
    Fits n fun _ => [opening, closing] := by
  intro layout s hs
  have hopen : Moves layout s [opening] (solid (n + 1)) [opening] := hs.opening hb.1
  exact hopen.append ((ready_solid (n + 1) n).closing hb.2)

end Fits

theorem renderItems_eq (layout : Layout) (n : Nat) (items : List Value) :
    renderItems layout n items = followers n (items.map fun v layout => render layout n v) layout := by
  induction items with
  | nil => rfl
  | cons v items ih =>
    rw [renderItems, ih]
    rfl

/-- A field as it is written. -/
def fieldText (n : Nat) (f : String × Value) (layout : Layout) : List Char :=
  stringText f.1 ++ ':' :: layout.gap ++ render layout n f.2

theorem renderFields_eq (layout : Layout) (n : Nat) (fields : List (String × Value)) :
    renderFields layout n fields = followers n (fields.map (fieldText n)) layout := by
  induction fields with
  | nil => rfl
  | cons f fields ih =>
    obtain ⟨key, v⟩ := f
    simp [renderFields, ih, followers, fieldText]

theorem fits_render (v : Value) (n : Nat) : Fits n fun layout => render layout n v := by
  induction v using Value.induction generalizing n with
  | null => exact fits_word nofun rfl
  | bool b =>
    cases b with
    | false => exact fits_word nofun rfl
    | true => exact fits_word nofun rfl
  | integer i =>
    simp only [render, ← Numeral.text_ofInt]
    exact fits_numeral (Numeral.readable_ofInt _)
  | float x =>
    simp only [render]
    split
    · rename_i hx
      obtain ⟨m, htext, hm, -⟩ := Binary64.exists_numeral hx
      exact htext ▸ fits_numeral hm
    · exact fits_word nofun rfl
  | string s =>
    simp only [render]
    exact fits_literal s
  | array items ih =>
    cases items with
    | nil =>
      simp only [render]
      exact fits_empty (by decide)
    | cons v items =>
      simp only [render, renderItems_eq]
      refine fits_brackets (by decide) ?_
      rw [← List.map_cons (f := fun v layout => render layout (n + 1) v), List.forall_mem_map]
      exact fun v hv => ih v hv (n + 1)
  | object fields ih =>
    cases fields with
    | nil =>
      simp only [render]
      exact fits_empty (by decide)
    | cons f fields =>
      obtain ⟨key, v⟩ := f
      have hmembers : ∀ text ∈ fieldText (n + 1) (key, v) :: fields.map (fieldText (n + 1)), Fits (n + 1) text := by
        rw [← List.map_cons, List.forall_mem_map]
        exact fun f hf => fits_field f.1 (ih f hf (n + 1))
      have hfits : Fits n fun layout => '{' :: (layout.newline (n + 1) ++ fieldText (n + 1) (key, v) layout ++
          followers (n + 1) (fields.map (fieldText (n + 1))) layout ++ layout.newline n ++ ['}']) :=
        fits_brackets (by decide) hmembers
      simpa [render, renderFields_eq, fieldText] using hfits

/-! ### Lines -/

/-- A text on one line: it has no control character, and no blank outside of its string literals. -/
def OneLine (text : List Char) : Prop :=
  ∀ before c after, text = before ++ c :: after →
    0x20 ≤ c.toNat ∧ ((Cursor.start.after before).mode = .outside → isBlank c = false)

/-- A stretch of a text from its start or a newline up to the next newline or the end, with what comes before it. -/
structure IsLine (text before line : List Char) : Prop where
  starts : before = [] ∨ before.getLast? = some '\n'
  whole : '\n' ∉ line
  ends : ∃ after, text = before ++ line ++ after ∧ (after = [] ∨ after.head? = some '\n')

/-- Each line of the text is indented by two spaces for each bracket that is open at the first character that is no space,
    but for one that this character closes, and no line ends with a space. -/
def Indented (text : List Char) : Prop :=
  ∀ before line, IsLine text before line →
    ∃ c rest, line = List.replicate (2 * ((Cursor.start.after before).depth - closes c)) ' ' ++ c :: rest ∧
      c ≠ ' ' ∧ line.getLast? ≠ some ' '

theorem Cursor.after_spaces (s : Cursor) {j : Nat} (hs : s.column = .indent j) (k : Nat) :
    (s.after (List.replicate k ' ')).column = .indent (j + k) ∧ (s.after (List.replicate k ' ')).depth = s.depth := by
  induction k generalizing s j with
  | zero => exact ⟨hs, rfl⟩
  | succ k ih =>
    have hcolumn : (s.next ' ').column = .indent (j + 1) := by
      rw [Cursor.next, hs]
      rfl
    have hdepth : (s.next ' ').depth = s.depth := by
      simp [Cursor.next, opens, closes]
    obtain ⟨hc, hd⟩ := ih (s.next ' ') hcolumn
    rw [List.replicate_succ]
    exact ⟨hc.trans (by rw [Nat.add_assoc, Nat.add_comm 1]), hd.trans hdepth⟩

theorem Column.next_space_ne_solid (column : Column) : column.next ' ' ≠ .solid := by
  cases column <;> nofun

theorem exists_spaces (line : List Char) : ∃ k rest, line = List.replicate k ' ' ++ rest ∧ rest.head? ≠ some ' ' := by
  induction line with
  | nil => exact ⟨0, [], rfl, nofun⟩
  | cons c line ih =>
    by_cases hc : c = ' '
    · obtain ⟨k, rest, rfl, hrest⟩ := ih
      exact ⟨k + 1, rest, by rw [hc, List.replicate_succ, List.cons_append], hrest⟩
    · exact ⟨0, c :: line, rfl, fun h => hc (Option.some.inj h)⟩

theorem Cursor.column_of_starts {before : List Char} (h : before = [] ∨ before.getLast? = some '\n') :
    (start.after before).column = .indent 0 := by
  rcases h with rfl | h
  · rfl
  · obtain ⟨front, rfl⟩ := List.getLast?_eq_some_iff.mp h
    rw [after_append]
    rfl

section Lines
variable {text before line after : List Char}

/-- What is allowed of many lines is that they are indented, if the last one ends like the others. -/
theorem indented_of_allows (h : Cursor.start.Allows (Allowed .pretty) text)
    (hend : (Cursor.start.after text).column = .solid) : Indented text := by
  rintro before line ⟨hstarts, hwhole, after, rfl, hends⟩
  obtain ⟨hbefore, hafter⟩ := Cursor.allows_append.mp h
  -- the line ends with a character that is no space, since a newline or the end of the text comes next
  have hsolid : (Cursor.start.after (before ++ line)).column = .solid := by
    rcases hends with rfl | hhead
    · rwa [List.append_nil] at hend
    · obtain ⟨more, rfl⟩ := List.head?_eq_some_iff.mp hhead
      exact hafter.1.1 rfl
  have hlast : line.getLast? ≠ some ' ' := by
    intro hspace
    obtain ⟨front, rfl⟩ := List.getLast?_eq_some_iff.mp hspace
    rw [← List.append_assoc, Cursor.after_append] at hsolid
    exact Column.next_space_ne_solid _ hsolid
  obtain ⟨k, rest, rfl, hrest⟩ := exists_spaces line
  obtain ⟨hcolumn, hdepth⟩ := Cursor.after_spaces _ (Cursor.column_of_starts hstarts) k
  rw [← Cursor.after_append, Nat.zero_add] at hcolumn
  rw [← Cursor.after_append] at hdepth
  cases rest with
  | nil =>
    rw [List.append_nil, hcolumn] at hsolid
    cases hsolid
  | cons c rest =>
    have hc : c ≠ ' ' := fun h => hrest (h ▸ rfl)
    rw [← List.append_assoc] at hbefore
    have hallowed := hbefore.of_split
    have hk := hallowed.2 k hcolumn hc
    rw [hdepth] at hk
    exact ⟨c, rest, by rw [← hk], hc, hlast⟩

end Lines

/-- The two layouts of a value differ by layout only, that is by newlines with the spaces after them and by a space after
    each colon, outside of the string literals. One has no control character and no blank there, and in the other each
    line is indented by the brackets that are open. -/
theorem layouts_of_value (v : Value) :
    (solid 0).unlaid v.toJsonPretty.toList = v.toJson.toList ∧ OneLine v.toJson.toList ∧ Indented v.toJsonPretty.toList := by
  have hfits := fits_render v 0
  have htext (layout : Layout) : (v.toText layout).toList = render layout 0 v := String.toList_ofList
  rw [Value.toJson, Value.toJsonPretty, htext, htext]
  refine ⟨(hfits .pretty _ (ready_solid 0 0)).unlaid, ?_, ?_⟩
  · intro before c after hsplit
    have hallows : Cursor.start.Allows (Allowed .compact) (render .compact 0 v) := (hfits .compact _ ready_start).allows
    rw [hsplit] at hallows
    exact hallows.of_split
  · have hmoves := hfits .pretty _ ready_start
    exact indented_of_allows hmoves.allows (by rw [hmoves.after]; rfl)

end RecordQuery.Json
