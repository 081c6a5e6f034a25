import RecordQuery.Proofs.Scan.Spaced

/-! Lexemes written as people write them: with a space between two of them, but with none where the second one
    follows closely. Either way the first one ends where the second one starts. -/

namespace RecordQuery
open Text

namespace Lexeme

/-- Whether `m` follows `l` closely: no space stands before or after a dot, on the inner side of a parenthesis,
    after a sign, between a method and its argument, or after a negation. -/
def tight (l m : Lexeme) : Bool :=
  match l.kind, m.kind with
  | _, .dot | _, .closeParen | .dot, _ | .openParen, _ | .addSub, _ | .identifier, .openParen => true
  | .operator, .identifier => l.text = ['!']
  | _, _ => false

/-- A mark that is in no name, and not at the end of a longer operator, goes on with no lexeme. -/
theorem ends_of_mark {l : Lexeme} {c : Char} {rest : List Char} (hc : c.toNat < 128) (hn : isNameChar c = false)
    (ho : c ≠ '>' ∧ c ≠ '=') : l.Ends (c :: rest) :=
  ends_cons hn (fun _ => (isWord_of_lt hc).trans hn) ho.1 ho.2

/-- A name does not go on with an operator. -/
theorem ends_of_isName {text cs rest : List Char} (h : IsName cs) : Ends ⟨.operator, text⟩ (cs ++ rest) := by
  cases cs with
  | nil => exact h.elim
  | cons c cs =>
    intro d hd
    obtain rfl := Option.some.inj hd
    refine ⟨fun _ he => ?_, fun _ he => ?_⟩ <;> exact absurd (he ▸ h.1) (by decide)

theorem ends_of_tight {l m : Lexeme} {rest : List Char} (hm : m.Valid) (h : l.tight m = true) :
    l.Ends (m.written ++ rest) := by
  obtain ⟨kind, text⟩ := l
  obtain ⟨mkind, mtext⟩ := m
  dsimp only [tight] at h
  split at h
  · obtain rfl : mtext = _ := hm
    exact ends_of_mark (by decide) (by decide) (by decide)
  · obtain rfl : mtext = _ := hm
    exact ends_of_mark (by decide) (by decide) (by decide)
  · exact fun _ _ => trivial
  · exact fun _ _ => trivial
  · exact fun _ _ => trivial
  · obtain rfl : mtext = _ := hm
    exact ends_of_mark (by decide) (by decide) (by decide)
  · exact ends_of_isName hm
  · cases h

/-- What stands between two lexemes. -/
def gap (l m : Lexeme) : List Char := if l.tight m then [] else [' ']

theorem blanks_gap (l m : Lexeme) : Blanks (l.gap m) := by
  unfold gap
  split
  · exact nofun
  · exact List.forall_mem_singleton.mpr (by decide)

theorem ends_gap {l m : Lexeme} {rest : List Char} (hm : m.Valid) : l.Ends (l.gap m ++ (m.written ++ rest)) := by
  unfold gap
  split
  · rename_i h
    exact ends_of_tight hm h
  · exact ends_blank (by decide)

end Lexeme

/-- A text of the lexemes. -/
def layout : List Lexeme → List Char
  | [] => []
  | [l] => l.written
  | l :: m :: ls => l.written ++ (l.gap m ++ layout (m :: ls))

theorem layout_cons (l : Lexeme) (ls : List Lexeme) : ∃ rest, layout (l :: ls) = l.written ++ rest := by
  cases ls with
  | nil => exact ⟨[], (List.append_nil _).symm⟩
  | cons m ls => exact ⟨_, rfl⟩

theorem spells_layout {ls : List Lexeme} (hv : ∀ l ∈ ls, l.Valid) : Spells ls (layout ls) := by
  fun_induction layout ls with
  | case1 => exact .nil
  | case2 l => simpa using Spells.nil.lexeme (hv l (by simp)) l.ends_nil
  | case3 l m ls ih =>
    obtain ⟨hl, hls⟩ := List.forall_mem_cons.mp hv
    have hm : m.Valid := hls m List.mem_cons_self
    obtain ⟨rest, hrest⟩ := layout_cons m ls
    have hends : l.Ends (l.gap m ++ layout (m :: ls)) := hrest ▸ Lexeme.ends_gap hm
    exact ((ih hls).blanks (l.blanks_gap m)).lexeme hl hends

end RecordQuery
