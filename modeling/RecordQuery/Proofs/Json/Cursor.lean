import RecordQuery.Json.Printer
import RecordQuery.Text.Classes

/-! A walk over a text of JSON. Where it stands is told by the text alone: by its quotes and backslashes whether it is
    inside of a string literal, and outside of those by the brackets how many are open. -/

namespace RecordQuery.Json
open Text

/-- Whether a place is outside of the string literals, inside of one, or after a backslash in one. -/
inductive Mode where
  | outside
  | inside
  | escape
  deriving DecidableEq, Repr

def Mode.next : Mode → Char → Mode
  | .outside, c => if c = '"' then .inside else .outside
  | .inside, c => if c = '"' then .outside else if c = '\\' then .escape else .inside
  | .escape, _ => .inside

/-- What stands in a line before a place: spaces alone, or something that ends with a colon, a space or another
    character. -/
inductive Column where
  | indent (spaces : Nat)
  | colon
  | space
  | solid
  deriving DecidableEq, Repr

def Column.next (column : Column) (c : Char) : Column :=
  if c = '\n' then .indent 0
  else if c = ' ' then
    match column with
    | .indent k => .indent (k + 1)
    | _ => .space
  else if c = ':' then .colon
  else .solid

/-- How many brackets a character closes. -/
def closes (c : Char) : Nat := if c = ']' ∨ c = '}' then 1 else 0

/-- How many brackets a character opens. -/
def opens (c : Char) : Nat := if c = '[' ∨ c = '{' then 1 else 0

/-- A place in a text: whether it is in a literal, how many brackets are open, and what stands before it in its line. -/
structure Cursor where
  mode : Mode
  depth : Nat
  column : Column
  deriving DecidableEq, Repr

namespace Cursor

/-- The start of a text. -/
def start : Cursor := ⟨.outside, 0, .indent 0⟩

/-- The place after one more character. -/
def next (s : Cursor) (c : Char) : Cursor where
  mode := s.mode.next c
  depth := if s.mode = .outside then s.depth + opens c - closes c else s.depth
  column := s.column.next c

/-- The place after a text. -/
def after (s : Cursor) (cs : List Char) : Cursor := cs.foldl next s

/-- Whether the character here is layout: outside of the literals, a newline, a space before anything else in its line, or
    the space after a colon. -/
def lays (s : Cursor) (c : Char) : Bool :=
  s.mode = .outside &&
    (c = '\n' || c = ' ' &&
      match s.column with
      | .indent _ | .colon => true
      | _ => false)

/-- The text without its layout. -/
def unlaid : Cursor → List Char → List Char
  | _, [] => []
  | s, c :: cs => if s.lays c then unlaid (s.next c) cs else c :: unlaid (s.next c) cs

/-- Whether every character of a text may stand where it does. -/
def Allows (allowed : Cursor → Char → Prop) : Cursor → List Char → Prop
  | _, [] => True
  | s, c :: cs => allowed s c ∧ Allows allowed (s.next c) cs

theorem after_append (s : Cursor) (cs ds : List Char) : s.after (cs ++ ds) = (s.after cs).after ds :=
  List.foldl_append

theorem unlaid_append (s : Cursor) (cs ds : List Char) :
    unlaid s (cs ++ ds) = unlaid s cs ++ unlaid (s.after cs) ds := by
  induction cs generalizing s with
  | nil => rfl
  | cons c cs ih =>
    rw [List.cons_append, unlaid, unlaid, ih]
    split
    · rfl
    · rfl

section Allows
variable {allowed : Cursor → Char → Prop}

theorem allows_append {s : Cursor} {cs ds : List Char} :
    Allows allowed s (cs ++ ds) ↔ Allows allowed s cs ∧ Allows allowed (s.after cs) ds := by
  induction cs generalizing s with
  | nil => exact (true_and _).symm ▸ Iff.rfl
  | cons c cs ih => exact (and_congr_right fun _ => ih).trans and_assoc.symm

/-- What is allowed of a text is allowed of each of its characters. -/
theorem Allows.of_split {s : Cursor} {before after : List Char} {c : Char}
    (h : Allows allowed s (before ++ c :: after)) : allowed (s.after before) c :=
  (allows_append.mp h).2.1

end Allows

end Cursor

/-! ### What may be written where -/

/-- What each layout keeps to. On one line there is no control character and, outside of the literals, no blank. On many
    lines each line ends with a character other than a space, and the first such character comes after two spaces for each
    bracket that is open there and is not closed by it. -/
def Allowed : Layout → Cursor → Char → Prop
  | .compact, s, c => 0x20 ≤ c.toNat ∧ (s.mode = .outside → isBlank c = false)
  | .pretty, s, c =>
    (c = '\n' → s.column = .solid) ∧
      ∀ k, s.column = .indent k → c ≠ ' ' → k = 2 * (s.depth - closes c)

/-- A layout allows a text to stand between two places, and without its layout the text is `out`. -/
structure Moves (layout : Layout) (s : Cursor) (cs : List Char) (t : Cursor) (out : List Char) : Prop where
  allows : s.Allows (Allowed layout) cs
  after : s.after cs = t
  unlaid : s.unlaid cs = out

namespace Moves
variable {layout : Layout} {s t u : Cursor} {cs ds out out' : List Char} {c : Char}

theorem nil : Moves layout s [] s [] := ⟨trivial, rfl, rfl⟩

theorem append (h : Moves layout s cs t out) (h' : Moves layout t ds u out') :
    Moves layout s (cs ++ ds) u (out ++ out') where
  allows := Cursor.allows_append.mpr ⟨h.allows, h.after ▸ h'.allows⟩
  after := by rw [Cursor.after_append, h.after, h'.after]
  unlaid := by rw [Cursor.unlaid_append, h.unlaid, h.after, h'.unlaid]

theorem char (hallowed : Allowed layout s c) (hlays : s.lays c = false) : Moves layout s [c] (s.next c) [c] where
  allows := ⟨hallowed, trivial⟩
  after := rfl
  unlaid := by simp [Cursor.unlaid, hlays]

end Moves

/-! ### Outside of the literals -/

/-- Outside of the literals, after a character other than a space or a colon. -/
def solid (depth : Nat) : Cursor := ⟨.outside, depth, .solid⟩

/-- Where a character may stand outside of the literals: `depth` brackets are open, and the line is indented as for
    `level` ones if nothing is in it yet. -/
structure Ready (depth level : Nat) (s : Cursor) : Prop where
  mode : s.mode = .outside
  depth : s.depth = depth
  column : ∀ k, s.column = .indent k → k = 2 * level

theorem ready_solid (m n : Nat) : Ready m n (solid m) := ⟨rfl, rfl, nofun⟩

theorem ready_start : Ready 0 0 Cursor.start := ⟨rfl, rfl, fun _ h => (Column.indent.inj h).symm⟩

/-- A character that is written outside of the literals, save for the quotes and the colons. -/
structure IsMark (c : Char) : Prop where
  printed : 0x20 ≤ c.toNat
  blank : isBlank c = false
  quote : c ≠ '"'
  colon : c ≠ ':'

instance (c : Char) : Decidable (IsMark c) :=
  decidable_of_iff (0x20 ≤ c.toNat ∧ isBlank c = false ∧ c ≠ '"' ∧ c ≠ ':')
    ⟨fun ⟨h1, h2, h3, h4⟩ => ⟨h1, h2, h3, h4⟩, fun ⟨h1, h2, h3, h4⟩ => ⟨h1, h2, h3, h4⟩⟩

/-- Such a character that is no bracket. -/
def IsInk (c : Char) : Prop := IsMark c ∧ opens c = 0 ∧ closes c = 0

instance (c : Char) : Decidable (IsInk c) := inferInstanceAs (Decidable (_ ∧ _ ∧ _))

section Outside
variable {layout : Layout} {m n : Nat} {s : Cursor} {c : Char}

theorem Ready.mark (hs : Ready m (m - closes c) s) (hc : IsMark c) :
    Moves layout s [c] (solid (m + opens c - closes c)) [c] := by
  have hspace : c ≠ ' ' := by
    rintro rfl
    cases hc.blank
  have hline : c ≠ '\n' := by
    rintro rfl
    cases hc.blank
  have hnext : s.next c = solid (m + opens c - closes c) := by
    simp only [Cursor.next, Column.next, Mode.next, hs.mode, hs.depth, if_neg hc.quote, if_neg hline, if_neg hspace,
      if_neg hc.colon]
    rfl
  refine hnext ▸ .char ?_ (by simp [Cursor.lays, hline, hspace])
  cases layout with
  | compact => exact ⟨hc.printed, fun _ => hc.blank⟩
  | pretty => exact ⟨fun h => absurd h hline, fun k hk _ => hs.depth ▸ hs.column k hk⟩

theorem Ready.ink (hs : Ready n n s) (hc : IsInk c) : Moves layout s [c] (solid n) [c] := by
  obtain ⟨hc, hopens, hcloses⟩ := hc
  have hmoves := @Ready.mark layout n s c (by rwa [hcloses]) hc
  rwa [hopens, hcloses] at hmoves

theorem Ready.opening (hs : Ready n n s) (hc : c = '[' ∨ c = '{') : Moves layout s [c] (solid (n + 1)) [c] := by
  rcases hc with rfl | rfl
  · exact @Ready.mark layout n s '[' hs (by decide)
  · exact @Ready.mark layout n s '{' hs (by decide)

/-- A bracket is closed at the indentation of the bracket that it goes with. -/
theorem Ready.closing (hs : Ready (n + 1) n s) (hc : c = ']' ∨ c = '}') : Moves layout s [c] (solid n) [c] := by
  rcases hc with rfl | rfl
  · exact @Ready.mark layout (n + 1) s ']' hs (by decide)
  · exact @Ready.mark layout (n + 1) s '}' hs (by decide)

/-- A text of such characters is the same in both layouts. -/
theorem Ready.inks {cs : List Char} (hs : Ready n n s) (hne : cs ≠ []) (hcs : ∀ c ∈ cs, IsInk c) :
    Moves layout s cs (solid n) cs := by
  induction cs generalizing s with
  | nil => exact absurd rfl hne
  | cons c cs ih =>
    obtain ⟨hc, hcs⟩ := List.forall_mem_cons.mp hcs
    have hmoves : Moves layout s [c] (solid n) [c] := hs.ink hc
    by_cases hnil : cs = []
    · rw [hnil]
      exact hmoves
    · exact hmoves.append (ih (ready_solid n n) hnil hcs)

/-! ### Layout -/

/-- The place after a newline and the indentation for `n` brackets, of which `m` are open. -/
def Layout.fresh : Layout → Nat → Nat → Cursor
  | .compact, m, _ => solid m
  | .pretty, m, n => ⟨.outside, m, .indent (2 * n)⟩

theorem ready_fresh (layout : Layout) (m n : Nat) : Ready m n (layout.fresh m n) := by
  cases layout with
  | compact => exact ready_solid m n
  | pretty => exact ⟨rfl, rfl, fun _ h => (Column.indent.inj h).symm⟩

theorem moves_spaces (m j k : Nat) :
    Moves .pretty ⟨.outside, m, .indent j⟩ (List.replicate k ' ') ⟨.outside, m, .indent (j + k)⟩ [] := by
  induction k generalizing j with
  | zero => exact .nil
  | succ k ih =>
    have hspace : Moves .pretty ⟨.outside, m, .indent j⟩ [' '] ⟨.outside, m, .indent (j + 1)⟩ [] :=
      ⟨⟨⟨nofun, fun _ _ h => absurd rfl h⟩, trivial⟩, rfl, rfl⟩
    rw [List.replicate_succ, show j + (k + 1) = j + 1 + k by omega]
    exact hspace.append (ih (j + 1))

theorem moves_newline (layout : Layout) (m n : Nat) :
    Moves layout (solid m) (layout.newline n) (layout.fresh m n) [] := by
  cases layout with
  | compact => exact .nil
  | pretty =>
    have hline : Moves .pretty (solid m) ['\n'] ⟨.outside, m, .indent 0⟩ [] :=
      ⟨⟨⟨fun _ => rfl, nofun⟩, trivial⟩, rfl, rfl⟩
    have hspaces := moves_spaces m 0 (2 * n)
    rw [Nat.zero_add] at hspaces
    exact hline.append hspaces

/-- After a colon comes a gap, and then something may start. -/
theorem exists_moves_colon (layout : Layout) (n : Nat) :
    ∃ t, Ready n n t ∧ Moves layout (solid n) (':' :: layout.gap) t [':'] := by
  have hcolon : Moves layout (solid n) [':'] ⟨.outside, n, .colon⟩ [':'] := by
    cases layout with
    | compact => exact ⟨⟨⟨by decide, fun _ => rfl⟩, trivial⟩, rfl, rfl⟩
    | pretty => exact ⟨⟨⟨(absurd · (by decide)), nofun⟩, trivial⟩, rfl, rfl⟩
  cases layout with
  | compact => exact ⟨⟨.outside, n, .colon⟩, ⟨rfl, rfl, nofun⟩, hcolon⟩
  | pretty =>
    have hgap : Moves .pretty ⟨.outside, n, .colon⟩ [' '] ⟨.outside, n, .space⟩ [] :=
      ⟨⟨⟨(absurd · (by decide)), nofun⟩, trivial⟩, rfl, rfl⟩
    exact ⟨⟨.outside, n, .space⟩, ⟨rfl, rfl, nofun⟩, hcolon.append hgap⟩

end Outside

/-! ### String literals -/

/-- A place in a literal, which no line starts with. -/
structure Inside (mode : Mode) (n : Nat) (s : Cursor) : Prop where
  mode : s.mode = mode
  depth : s.depth = n
  column : ∀ k, s.column ≠ .indent k

section Literals
variable {layout : Layout} {n : Nat} {s : Cursor} {c : Char} {mode : Mode}

theorem Column.next_ne_indent {column : Column} (h : ∀ k, column ≠ .indent k) (hc : c ≠ '\n') (k : Nat) :
    column.next c ≠ .indent k := by
  intro heq
  unfold Column.next at heq
  rw [if_neg hc] at heq
  split at heq
  · cases column with
    | indent j => exact h j rfl
    | _ => cases heq
  · split at heq
    · cases heq
    · cases heq

theorem Inside.char (hs : Inside mode n s) (hmode : mode ≠ .outside) (hc : 0x20 ≤ c.toNat) :
    Inside (mode.next c) n (s.next c) ∧ Moves layout s [c] (s.next c) [c] := by
  have hline : c ≠ '\n' := by
    rintro rfl
    exact absurd hc (by decide)
  have hout : s.mode ≠ .outside := hs.mode ▸ hmode
  refine ⟨⟨by rw [Cursor.next, hs.mode], by rw [Cursor.next, if_neg hout, hs.depth],
    Column.next_ne_indent hs.column hline⟩, .char ?_ (by simp [Cursor.lays, hout])⟩
  cases layout with
  | compact => exact ⟨hc, fun h => absurd h hout⟩
  | pretty => exact ⟨fun h => absurd h hline, fun k hk => absurd hk (hs.column k)⟩

/-- A text inside of a literal that ends inside of it. -/
def Keeps (layout : Layout) (n : Nat) (cs : List Char) : Prop :=
  ∀ s, Inside .inside n s → ∃ t, Inside .inside n t ∧ Moves layout s cs t cs

theorem Keeps.append {cs ds : List Char} (h : Keeps layout n cs) (h' : Keeps layout n ds) : Keeps layout n (cs ++ ds) := by
  intro s hs
  obtain ⟨t, ht, hst⟩ := h s hs
  obtain ⟨u, hu, htu⟩ := h' t ht
  exact ⟨u, hu, hst.append htu⟩

theorem keeps_nil : Keeps layout n [] := fun s hs => ⟨s, hs, .nil⟩

theorem keeps_char (hc : 0x20 ≤ c.toNat) (hquote : c ≠ '"') (hback : c ≠ '\\') : Keeps layout n [c] := by
  intro s hs
  obtain ⟨ht, hmoves⟩ := @Inside.char layout n s c _ hs nofun hc
  rw [Mode.next, if_neg hquote, if_neg hback] at ht
  exact ⟨_, ht, hmoves⟩

theorem keeps_escape (hc : 0x20 ≤ c.toNat) : Keeps layout n ['\\', c] := by
  intro s hs
  obtain ⟨ht, hst⟩ := @Inside.char layout n s '\\' _ hs nofun (by decide)
  obtain ⟨hu, htu⟩ := @Inside.char layout n _ c _ ht nofun hc
  exact ⟨_, hu, hst.append htu⟩

theorem keeps_hex {d : Nat} (hd : d < 16) : Keeps layout n [d.digitChar] := by
  have hall : ∀ d < 16, 0x20 ≤ d.digitChar.toNat ∧ d.digitChar ≠ '"' ∧ d.digitChar ≠ '\\' := by decide
  obtain ⟨hc, hquote, hback⟩ := hall d hd
  exact keeps_char hc hquote hback

/-- A character is written in a literal so that it does not end it. -/
theorem keeps_escaped (c : Char) : Keeps layout n (escaped c) := by
  unfold escaped
  split
  · exact keeps_escape (by decide)
  · exact keeps_escape (by decide)
  · exact keeps_escape (by decide)
  · exact keeps_escape (by decide)
  · exact keeps_escape (by decide)
  · exact keeps_escape (by decide)
  · exact keeps_escape (by decide)
  · rename_i hquote hback _ _ _ _ _
    split
    · rename_i hcontrol
      have hzero : Keeps layout n ['0'] := keeps_char (by decide) (by decide) (by decide)
      exact (keeps_escape (by decide)).append <| hzero.append <| hzero.append <|
        (keeps_hex (Nat.div_lt_of_lt_mul (Nat.lt_trans hcontrol (by decide)))).append (keeps_hex (Nat.mod_lt _ (by decide)))
    · rename_i hprinted
      exact keeps_char (Nat.le_of_not_lt hprinted) hquote hback

theorem keeps_flatMap (cs : List Char) : Keeps layout n (cs.flatMap escaped) := by
  induction cs with
  | nil => exact keeps_nil
  | cons c cs ih =>
    rw [List.flatMap_cons]
    exact (keeps_escaped c).append ih

/-- A string literal is the same in both layouts, and its end is the first quote that no backslash is before. -/
theorem Ready.literal (hs : Ready n n s) (text : String) : Moves layout s (stringText text) (solid n) (stringText text) := by
  have hquote : Inside .inside n (s.next '"') ∧ Moves layout s ['"'] (s.next '"') ['"'] := by
    refine ⟨⟨by rw [Cursor.next, hs.mode]; rfl, ?_, nofun⟩, .char ?_ ?_⟩
    · rw [Cursor.next, if_pos hs.mode, hs.depth]
      rfl
    · cases layout with
      | compact => exact ⟨by decide, fun _ => rfl⟩
      | pretty => exact ⟨nofun, fun k hk _ => hs.depth ▸ hs.column k hk⟩
    · simp [Cursor.lays]
  obtain ⟨hinside, hopen⟩ := hquote
  obtain ⟨t, ht, htext⟩ := @keeps_flatMap layout n text.toList _ hinside
  have hend : t.next '"' = solid n := by
    simp only [Cursor.next, ht.mode, ht.depth]
    rfl
  exact hopen.append (htext.append (hend ▸ (@Inside.char layout n t '"' _ ht nofun (by decide)).2))

end Literals

end RecordQuery.Json
