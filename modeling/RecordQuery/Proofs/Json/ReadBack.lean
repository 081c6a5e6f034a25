import RecordQuery.Json.Reader
import RecordQuery.Pipeline
import RecordQuery.Proofs.Json.Double
import RecordQuery.Proofs.Json.Quoted
import RecordQuery.Proofs.Value.Reread

/-! Reading undoes writing, in both layouts. A value is read from the front of any text that starts with it, if
    what comes next does not go on with a numeral; an array and an object are read item by item and field by
    field, from the values inside them outwards. -/

namespace RecordQuery.Json
open Text

/-! ### Blanks -/

theorem isSpace_of_mem_newline {layout : Layout} {depth : Nat} {c : Char} (h : c ∈ layout.newline depth) :
    isSpace c = true := by
  cases layout with
  | compact => cases h
  | pretty =>
    rcases List.mem_cons.mp h with rfl | h
    · rfl
    · rw [List.eq_of_mem_replicate h]
      rfl

theorem skipSpace_cons {c : Char} {cs : List Char} (h : isSpace c = false) : skipSpace (c :: cs) = c :: cs := by
  rw [skipSpace, List.dropWhile_cons_of_neg (by simp [h])]

theorem skipSpace_newline (layout : Layout) (depth : Nat) {c : Char} {cs : List Char} (h : isSpace c = false) :
    skipSpace (layout.newline depth ++ c :: cs) = c :: cs := by
  rw [skipSpace, List.dropWhile_append_of_pos fun _ => isSpace_of_mem_newline]
  exact skipSpace_cons h

/-- No numeral goes on over the end of a line or an item. -/
theorem endsNumeral_newline (layout : Layout) (depth : Nat) {c : Char} {cs : List Char}
    (h : c.isDigit = false ∧ c ≠ '.' ∧ c ≠ 'e' ∧ c ≠ 'E') : EndsNumeral (layout.newline depth ++ c :: cs) := by
  intro d hd
  cases layout with
  | compact =>
    obtain rfl := Option.some.inj hd
    exact h
  | pretty =>
    obtain rfl := Option.some.inj hd
    decide

/-! ### Values without brackets -/

theorem Numeral.exists_text_eq_cons {n : Numeral} (h : n.Readable) :
    ∃ c cs, n.text = c :: cs ∧ (n.negative = true ∧ c = '-' ∧ cs = n.unsigned ∨
      n.negative = false ∧ c.isDigit = true ∧ c :: cs = n.unsigned) := by
  obtain ⟨hne, hd⟩ := isDigits_iff.mp h.whole
  obtain ⟨c, cs, hw⟩ := List.exists_cons_of_ne_nil hne
  unfold Numeral.text
  split
  · rename_i hneg
    exact ⟨'-', n.unsigned, rfl, .inl ⟨hneg, rfl, rfl⟩⟩
  · rename_i hneg
    refine ⟨c, cs ++ (fractionText n.fraction ++ exponentText n.exponent), ?_, .inr ⟨by simpa using hneg, ?_, ?_⟩⟩
    · rw [unsigned, hw, List.cons_append]
    · exact hd c (by rw [hw]; exact List.mem_cons_self)
    · rw [unsigned, hw, List.cons_append]

theorem isSpace_of_isDigit {c : Char} (h : c.isDigit = true) : isSpace c = false ∧ c ≠ ']' := by
  rw [Bool.eq_false_iff]
  refine ⟨fun hs => ?_, ?_⟩
  · simp only [isSpace, Bool.or_eq_true, beq_iff_eq] at hs
    rcases hs with ((rfl | rfl) | rfl) | rfl <;> cases h
  · rintro rfl
    cases h

section Atoms
variable {bound : Nat} {array object : List Char → Reading Value} {rest : List Char}

theorem readValueWith_digit {c : Char} {cs : List Char} (h : c.isDigit = true) :
    readValueWith bound array object (c :: cs) = readNumber false (c :: cs) := by
  unfold readValueWith
  simp only
  split
  case h_8 => rw [if_pos h]
  all_goals cases h

theorem readValueWith_text {n : Numeral} (h : n.Readable) (hr : EndsNumeral rest) :
    readValueWith bound array object (n.text ++ rest) = (n.value rest).map (·, rest) := by
  have hread := readNumber_unsigned h hr
  obtain ⟨c, cs, htext, ⟨hneg, rfl, rfl⟩ | ⟨hneg, hc, hcs⟩⟩ := Numeral.exists_text_eq_cons h
  · rw [hneg] at hread
    rw [htext, List.cons_append, readValueWith, hread]
  · rw [hneg, ← hcs] at hread
    rw [htext, List.cons_append, readValueWith_digit hc, ← List.cons_append, hread]

end Atoms

/-- The parts of the numeral of an integer. -/
def Numeral.ofInt (n : Int) : Numeral := ⟨n < 0, digitsOfNat n.natAbs, [], none⟩

theorem Numeral.text_ofInt (n : Int) : (Numeral.ofInt n).text = numeralOfInt n := by
  have hunsigned : (Numeral.ofInt n).unsigned = digitsOfNat n.natAbs := by
    simp [unsigned, ofInt, fractionText, exponentText]
  rw [numeralOfInt_eq, text, hunsigned]
  simp [ofInt]

theorem Numeral.readable_ofInt (n : Int) : (Numeral.ofInt n).Readable where
  whole := isDigits_digitsOfNat _
  zero h := by
    rcases Nat.eq_zero_or_pos n.natAbs with h0 | hpos
    · simp [ofInt, h0, digitsOfNat]
    · exact absurd h (head?_digitsOfNat (Nat.ne_of_gt hpos))
  fraction := nofun
  exponent := nofun

theorem Numeral.value_ofInt (n : Int64) (rest : List Char) : (Numeral.ofInt n.toInt).value rest = .ok (.integer n) := by
  have hint : (Numeral.ofInt n.toInt).integer? = some n := by
    rw [← readInt64?_text (readable_ofInt _), text_ofInt, readInt64?_numeralOfInt]
    intro h0
    rw [significand_of_fraction rfl, ofInt, natOfDigits_digitsOfNat] at h0
    exact decide_eq_false (by omega)
  rw [value, hint]

/-! ### Lists -/

section Steps
variable {bound k : Nat} {element : List Char → Reading Value} {seen : List Value} {fields : Fields}
  {cs more after rest next : List Char} {v : Value} {key : String} {c : Char}

theorem readItems_close (hv : element cs = .ok (v, more)) (hs : skipSpace more = ']' :: rest) :
    readItems element seen (k + 1) cs = .ok (.array (v :: seen).reverse, rest) := by
  rw [readItems, hv]
  simp only [hs]

theorem readItems_comma (hv : element cs = .ok (v, more)) (hs : skipSpace more = ',' :: rest)
    (hnext : skipSpace rest = c :: next) (hc : c ≠ ']') :
    readItems element seen (k + 1) cs = readItems element (v :: seen) k (c :: next) := by
  rw [readItems, hv]
  simp only [hs, hnext]
  split
  · rename_i heq
    cases heq
  · rename_i heq
    cases heq
    exact absurd rfl hc
  · rfl

theorem readArray_items (hs : skipSpace cs = c :: more) (hc : c ≠ ']') :
    readArray bound element cs = readItems element [] (bound + 1) (c :: more) := by
  rw [readArray, hs]
  split
  · rename_i heq
    cases heq
  · rename_i heq
    cases heq
    exact absurd rfl hc
  · rfl

theorem readFieldValue_colon (h : element more = .ok (v, rest)) :
    readFieldValue element (':' :: more) = .ok (v, rest) := h

theorem readFields_close (hkey : readString bound cs = .ok (key, ':' :: more)) (hv : element more = .ok (v, after))
    (hs : skipSpace after = '}' :: rest) :
    readFields bound element fields (k + 1) cs = .ok (.object (fields.put key v), rest) := by
  rw [readFields, hkey]
  simp only [readFieldValue_colon hv, hs]

theorem readFields_comma (hkey : readString bound cs = .ok (key, ':' :: more)) (hv : element more = .ok (v, after))
    (hs : skipSpace after = ',' :: rest) (hnext : skipSpace rest = '"' :: next) :
    readFields bound element fields (k + 1) cs = readFields bound element (fields.put key v) k next := by
  rw [readFields, hkey]
  simp only [readFieldValue_colon hv, hs, hnext]

end Steps

/-- The first character of a written value starts no other part of an array. -/
theorem exists_render_eq_cons (layout : Layout) (depth : Nat) (v : Value) :
    ∃ c cs, render layout depth v = c :: cs ∧ isSpace c = false ∧ c ≠ ']' := by
  have htext {n : Numeral} (h : n.Readable) : ∃ c cs, n.text = c :: cs ∧ isSpace c = false ∧ c ≠ ']' := by
    obtain ⟨c, cs, ht, ⟨-, rfl, -⟩ | ⟨-, hc, -⟩⟩ := Numeral.exists_text_eq_cons h
    · exact ⟨_, _, ht, rfl, by decide⟩
    · exact ⟨_, _, ht, isSpace_of_isDigit hc⟩
  cases v with
  | null | string s => exact ⟨_, _, rfl, rfl, by decide⟩
  | bool b => cases b <;> exact ⟨_, _, rfl, rfl, by decide⟩
  | integer n =>
    rw [render, ← Numeral.text_ofInt]
    exact htext (Numeral.readable_ofInt _)
  | float x =>
    rw [render]
    split
    · rename_i hx
      obtain ⟨n, hn, hread, -, -⟩ := Binary64.exists_numeral hx
      rw [← hn]
      exact htext hread
    · exact ⟨_, _, rfl, rfl, by decide⟩
  | array items => cases items <;> exact ⟨_, _, rfl, rfl, by decide⟩
  | object fields => cases fields <;> exact ⟨_, _, rfl, rfl, by decide⟩

/-- The element reader reads a value back from the front of every text that goes on after it. -/
def ReadsBack (element : List Char → Reading Value) (layout : Layout) (depth : Nat) (v : Value) : Prop :=
  ∀ rest, EndsNumeral rest → element (render layout depth v ++ rest) = .ok (v.reread, rest)

theorem readItems_render {element : List Char → Reading Value} {layout : Layout} {depth outer k : Nat}
    {v : Value} {vs seen : List Value} {rest : List Char} (hv : ReadsBack element layout depth v)
    (hvs : ∀ w ∈ vs, ReadsBack element layout depth w) (hk : vs.length ≤ k) :
    readItems element seen (k + 1)
        (render layout depth v ++ (renderItems layout depth vs ++ (layout.newline outer ++ ']' :: rest))) =
      .ok (.array (seen.reverse ++ v.reread :: vs.map Value.reread), rest) := by
  induction vs generalizing v seen k with
  | nil =>
    have hread := hv (layout.newline outer ++ ']' :: rest) (endsNumeral_newline layout outer (by decide))
    rw [renderItems, List.nil_append, readItems_close hread (skipSpace_newline layout outer rfl)]
    simp
  | cons w vs ih =>
    obtain ⟨k, rfl⟩ : ∃ j, k = j + 1 := ⟨k - 1, by simp at hk; omega⟩
    obtain ⟨hw, hvs⟩ := List.forall_mem_cons.mp hvs
    obtain ⟨c, cs, hcs, hspace, hc⟩ := exists_render_eq_cons layout depth w
    have hitems := @ih k w (v.reread :: seen) hw hvs (by simpa using hk)
    have hcomma (cs : List Char) : EndsNumeral (',' :: cs) := endsNumeral_newline .compact 0 (by decide)
    rw [hcs] at hitems
    rw [renderItems, hcs]
    simp only [List.cons_append, List.append_assoc] at hitems ⊢
    rw [readItems_comma (hv _ (hcomma _)) (skipSpace_cons rfl) (skipSpace_newline layout depth hspace) hc, hitems]
    simp

/-- What is written for the fields of an object from the first key on, without the quotation mark that opens it. -/
def keyText (layout : Layout) (depth : Nat) (key : String) (v : Value) (fs : Fields) (rest : List Char) : List Char :=
  key.toList.flatMap escaped ++
    '"' :: ':' :: (layout.gap ++ (render layout depth v ++ (renderFields layout depth fs ++ rest)))

theorem readFields_render {element : List Char → Reading Value} {layout : Layout} {bound depth outer k : Nat}
    {key : String} {v : Value} {fs done : Fields} {rest : List Char}
    (hgap : ∀ cs, element (layout.gap ++ cs) = element cs) (hkey : (stringText key).length ≤ bound)
    (hv : ReadsBack element layout depth v)
    (hfs : ∀ f ∈ fs, (stringText f.1).length ≤ bound ∧ ReadsBack element layout depth f.2) (hk : fs.length ≤ k) :
    readFields bound element (Fields.lastValues done) (k + 1)
        (keyText layout depth key v fs (layout.newline outer ++ '}' :: rest)) =
      .ok (.object (Fields.lastValues (done ++ (key, v.reread) :: Value.rereadFields fs)), rest) := by
  induction fs generalizing key v done k with
  | nil =>
    have hread := hv (layout.newline outer ++ '}' :: rest) (endsNumeral_newline layout outer (by decide))
    rw [← hgap] at hread
    rw [keyText, renderFields, List.nil_append,
      readFields_close (readString_stringText hkey _) hread (skipSpace_newline layout outer rfl),
      ← Fields.lastValues_concat]
    rfl
  | cons f fs ih =>
    obtain ⟨j, w⟩ := f
    obtain ⟨k, rfl⟩ : ∃ i, k = i + 1 := ⟨k - 1, by simp at hk; omega⟩
    obtain ⟨⟨hj, hw⟩, hfs⟩ := List.forall_mem_cons.mp hfs
    have hfields := @ih k j w (done ++ [(key, v.reread)]) hj hw hfs (by simpa using hk)
    have hcomma (cs : List Char) : EndsNumeral (',' :: cs) := endsNumeral_newline .compact 0 (by decide)
    have hread := hv _ (hcomma (layout.newline depth ++ (stringText j ++ ':' :: (layout.gap ++ (render layout depth w ++
      (renderFields layout depth fs ++ (layout.newline outer ++ '}' :: rest)))))))
    rw [← hgap] at hread
    rw [keyText, renderFields]
    simp only [List.cons_append, List.append_assoc] at hread ⊢
    rw [readFields_comma (readString_stringText hkey _) hread (skipSpace_cons rfl)
      (skipSpace_newline layout depth rfl), ← Fields.lastValues_concat]
    simpa [keyText, Value.rereadFields] using hfields

/-! ### Lengths -/

section Lengths
variable {layout : Layout} {depth : Nat}

theorem length_renderItems (vs : List Value) :
    vs.length ≤ (renderItems layout depth vs).length ∧
      ∀ v ∈ vs, (render layout depth v).length ≤ (renderItems layout depth vs).length := by
  induction vs with
  | nil => exact ⟨Nat.le_refl _, nofun⟩
  | cons v vs ih =>
    obtain ⟨hlen, hall⟩ := ih
    rw [renderItems]
    simp only [List.length_cons, List.length_append]
    refine ⟨by omega, List.forall_mem_cons.mpr ⟨by omega, fun w hw => ?_⟩⟩
    have := hall w hw
    omega

theorem length_renderFields (fs : Fields) :
    fs.length ≤ (renderFields layout depth fs).length ∧
      ∀ f ∈ fs, (stringText f.1).length ≤ (renderFields layout depth fs).length ∧
        (render layout depth f.2).length ≤ (renderFields layout depth fs).length := by
  induction fs with
  | nil => exact ⟨Nat.le_refl _, nofun⟩
  | cons f fs ih =>
    obtain ⟨hlen, hall⟩ := ih
    obtain ⟨key, v⟩ := f
    rw [renderFields]
    simp only [List.length_cons, List.length_append]
    refine ⟨by omega, fun g hg => ?_⟩
    rcases List.mem_cons.mp hg with rfl | hg
    · simp only
      omega
    · have := hall g hg
      omega

end Lengths

/-! ### Values -/

theorem readValue_eq (bound k : Nat) :
    ∃ array object, ∀ cs, readValue bound k cs = readValueWith bound array object (skipSpace cs) := by
  cases k with
  | zero => exact ⟨_, _, fun _ => rfl⟩
  | succ k => exact ⟨_, _, fun _ => rfl⟩

theorem readValue_gap (bound k : Nat) (layout : Layout) (cs : List Char) :
    readValue bound k (layout.gap ++ cs) = readValue bound k cs := by
  obtain ⟨array, object, hread⟩ := readValue_eq bound k
  rw [hread, hread]
  cases layout <;> rfl

theorem readValue_bracket (bound k : Nat) (cs : List Char) :
    readValue bound (k + 1) ('[' :: cs) = readArray bound (readValue bound k) cs := rfl

theorem readValue_brace (bound k : Nat) (cs : List Char) :
    readValue bound (k + 1) ('{' :: cs) = readObject bound (readValue bound k) cs := rfl

section Values
variable {layout : Layout} {bound k depth : Nat}

theorem readsBack_text {n : Numeral} {v : Value} (h : n.Readable) (htext : render layout depth v = n.text)
    (hval : ∀ rest, n.value rest = .ok v.reread) : ReadsBack (readValue bound k) layout depth v := by
  intro rest hr
  obtain ⟨array, object, hread⟩ := readValue_eq bound k
  obtain ⟨c, cs, hcs, hspace, -⟩ := exists_render_eq_cons layout depth v
  rw [hread, hcs, List.cons_append, skipSpace_cons hspace, ← List.cons_append, ← hcs, htext, readValueWith_text h hr,
    hval]
  rfl

theorem readsBack_float (x : Binary64) : ReadsBack (readValue bound k) layout depth (.float x) := by
  cases hx : x.isFinite with
  | false =>
    intro rest _
    obtain ⟨array, object, hread⟩ := readValue_eq bound k
    rw [hread, render, Value.reread, hx]
    rfl
  | true =>
    obtain ⟨m, hm, hreadable, hzero, hvalue⟩ := Binary64.exists_numeral hx
    refine readsBack_text hreadable (by rw [render, if_pos hx, hm]) fun rest => ?_
    rw [Value.reread, if_pos hx, ← hm, Numeral.readInt64?_text hreadable fun h0 => (hzero h0).1]
    cases hint : m.integer? with
    | some n => rw [Numeral.value, hint]
    | none => exact hvalue hint rest

theorem readsBack_array {v : Value} {vs : List Value} (hv : ReadsBack (readValue bound k) layout (depth + 1) v)
    (hvs : ∀ w ∈ vs, ReadsBack (readValue bound k) layout (depth + 1) w) (hlen : vs.length ≤ bound) :
    ReadsBack (readValue bound (k + 1)) layout depth (.array (v :: vs)) := by
  intro rest _
  obtain ⟨c, cs, hcs, hspace, hc⟩ := exists_render_eq_cons layout (depth + 1) v
  have hread := @readItems_render _ layout _ depth bound v vs [] rest hv hvs hlen
  rw [hcs] at hread
  rw [render, hcs]
  simp only [List.cons_append, List.nil_append, List.append_assoc] at hread ⊢
  rw [readValue_bracket, readArray_items (skipSpace_newline layout _ hspace) hc, hread, Value.reread,
    Value.rereadItems, Value.rereadItems_eq_map]
  rfl

theorem readsBack_object {key : String} {v : Value} {fs : Fields} (hkey : (stringText key).length ≤ bound)
    (hv : ReadsBack (readValue bound k) layout (depth + 1) v)
    (hfs : ∀ f ∈ fs, (stringText f.1).length ≤ bound ∧ ReadsBack (readValue bound k) layout (depth + 1) f.2)
    (hlen : fs.length ≤ bound) : ReadsBack (readValue bound (k + 1)) layout depth (.object ((key, v) :: fs)) := by
  intro rest _
  have hread := @readFields_render _ layout bound _ depth bound key v fs [] rest (readValue_gap bound k layout) hkey hv
    hfs hlen
  rw [render]
  simp only [keyText, stringText, List.cons_append, List.nil_append, List.append_assoc] at hread ⊢
  rw [readValue_brace, readObject, skipSpace_newline layout _ rfl]
  exact hread

end Values

/-- Every value is read back from its text, by readers that go as deep as the value and whose bound the text
    does not exceed. -/
theorem readsBack (layout : Layout) (v : Value) {bound k depth : Nat} (hk : v.depth ≤ k)
    (hb : (render layout depth v).length ≤ bound) : ReadsBack (readValue bound k) layout depth v := by
  induction v using Value.induction generalizing k depth with
  | null =>
    intro rest _
    obtain ⟨array, object, hread⟩ := readValue_eq bound k
    rw [hread]
    rfl
  | bool b =>
    intro rest _
    obtain ⟨array, object, hread⟩ := readValue_eq bound k
    rw [hread]
    cases b <;> rfl
  | integer n =>
    exact readsBack_text (Numeral.readable_ofInt _) (by rw [render, Numeral.text_ofInt]) (Numeral.value_ofInt n)
  | float x => exact readsBack_float x
  | string s =>
    intro rest _
    obtain ⟨array, object, hread⟩ := readValue_eq bound k
    rw [hread, render, stringText, List.cons_append, skipSpace_cons rfl, List.append_assoc, List.singleton_append]
    simp only [readValueWith, readString_stringText hb]
    rfl
  | array items ih =>
    obtain ⟨k, rfl⟩ : ∃ j, k = j + 1 := ⟨k - 1, by rw [Value.depth] at hk; omega⟩
    rw [Value.depth] at hk
    cases items with
    | nil => exact fun _ _ => rfl
    | cons v vs =>
      rw [render] at hb
      simp only [List.length_cons, List.length_append] at hb
      obtain ⟨hlen, hitems⟩ := @length_renderItems layout (depth + 1) vs
      have hdepth {w : Value} (hw : w ∈ v :: vs) : w.depth ≤ k :=
        Nat.le_trans (Value.depth_le_depthItems hw) (Nat.le_of_succ_le_succ hk)
      have hv : ReadsBack (readValue bound k) layout (depth + 1) v :=
        ih v List.mem_cons_self (hdepth List.mem_cons_self) (by omega)
      refine readsBack_array hv (fun w hw => ?_) (by omega)
      have := hitems w hw
      exact ih w (List.mem_cons_of_mem v hw) (hdepth (List.mem_cons_of_mem v hw)) (by omega)
  | object fields ih =>
    obtain ⟨k, rfl⟩ : ∃ j, k = j + 1 := ⟨k - 1, by rw [Value.depth] at hk; omega⟩
    rw [Value.depth] at hk
    cases fields with
    | nil => exact fun _ _ => rfl
    | cons f fs =>
      obtain ⟨key, v⟩ := f
      rw [render] at hb
      simp only [List.length_cons, List.length_append] at hb
      obtain ⟨hlen, hfields⟩ := @length_renderFields layout (depth + 1) fs
      have hdepth {g : String × Value} (hg : g ∈ (key, v) :: fs) : g.2.depth ≤ k :=
        Nat.le_trans (Value.depth_le_depthFields hg) (Nat.le_of_succ_le_succ hk)
      have hv : ReadsBack (readValue bound k) layout (depth + 1) v :=
        ih (key, v) List.mem_cons_self (hdepth List.mem_cons_self) (by simp only; omega)
      refine readsBack_object (by omega) hv (fun g hg => ?_) (by omega)
      obtain ⟨hkey, hv⟩ := hfields g hg
      exact ⟨by omega, ih g (List.mem_cons_of_mem _ hg) (hdepth (List.mem_cons_of_mem _ hg)) (by omega)⟩

/-! ### Texts -/

/-- A whole text is read as the value that was written, if brackets are not nested too deep in it. -/
theorem read_toText (layout : Layout) {v : Value} (h : v.depth ≤ depthLimit) :
    read (v.toText layout) = .ok v.reread := by
  have hread := readsBack layout v h (Nat.le_refl (render layout 0 v).length) [] nofun
  rw [List.append_nil] at hread
  rw [read, Value.toText, String.toList_ofList, readWhole?, hread]
  rfl

end RecordQuery.Json

namespace RecordQuery

theorem parseRecords_toText (layout : Json.Layout) {records : List Value} (h : (Value.array records).depth ≤ 127) :
    parseRecords ((Value.array records).toText layout) = .ok (records.map Value.reread) := by
  rw [parseRecords, Json.read_toText layout h, Value.reread, Value.rereadItems_eq_map]

/-- Records that are written as an array, on one line or on many, come back as they are read again. -/
theorem parseRecords_toJson (records : List Value) (h : (Value.array records).depth ≤ 127) :
    parseRecords (Value.array records).toJson = .ok (records.map Value.reread) ∧
      parseRecords (Value.array records).toJsonPretty = .ok (records.map Value.reread) :=
  ⟨parseRecords_toText .compact h, parseRecords_toText .pretty h⟩

/-- A negative zero, a double that is no number, a key that comes twice and a string that needs escapes. -/
theorem parseRecords_toJson_mixed :
    parseRecords (Value.array [.float ⟨0x8000000000000000⟩, .float ⟨0x7FF8000000000000⟩,
        .object [("a", .integer 1), ("b", .array []), ("a", .string "\"\n")]]).toJson =
      .ok [.integer 0, .null, .object [("a", .string "\"\n"), ("b", .array [])]] ∧
    parseRecords (Value.array [.float ⟨0x8000000000000000⟩, .float ⟨0x7FF8000000000000⟩,
        .object [("a", .integer 1), ("b", .array []), ("a", .string "\"\n")]]).toJsonPretty =
      .ok [.integer 0, .null, .object [("a", .string "\"\n"), ("b", .array [])]] :=
  parseRecords_toJson [.float ⟨0x8000000000000000⟩, .float ⟨0x7FF8000000000000⟩,
    .object [("a", .integer 1), ("b", .array []), ("a", .string "\"\n")]] (by decide)

end RecordQuery
