import PhpOutline.Proofs.SymbolEdits

/-!
# Columns past the end of a line

A column that is too large for its line is reduced to the length of the line. The break counts as part
of the line, so such a column does not mean the end of the content but the place after the break, which
is the start of the next line; between the two there is one more place if the break is a carriage return
with a line feed. A text that is inserted at such a column therefore never stands before the break.
-/

namespace PhpOutline

/-! ## Content and break -/

/-- The characters of a line before its break. -/
def lineContent (line : List Char) : List Char := line.takeWhile (!isLineBreak ·)

/-- The break at the end of a line. Only the last line of a text has none. -/
def lineBreak (line : List Char) : List Char := line.dropWhile (!isLineBreak ·)

section Break

variable {c : Char} {line text : List Char}

theorem lineContent_append_lineBreak (line : List Char) : lineContent line ++ lineBreak line = line :=
  List.takeWhile_append_dropWhile

theorem lineBreak_cons_of_not (hc : ¬isLineBreak c) (line : List Char) :
    lineBreak (c :: line) = lineBreak line := by
  rw [lineBreak, List.dropWhile_cons_of_pos (by simpa using hc)]
  rfl

theorem lineBreak_cases (hline : line ∈ splitLines text) :
    lineBreak line = [] ∨ (∃ c, isLineBreak c ∧ lineBreak line = [c]) ∨
      lineBreak line = ['\r', '\n'] := by
  fun_induction splitLines text generalizing line with
  | case1 =>
      obtain rfl := List.mem_singleton.mp hline
      exact Or.inl rfl
  | case2 rest ih =>
      obtain rfl | hrest := List.mem_cons.mp hline
      · exact Or.inr (Or.inr rfl)
      · exact ih hrest
  | case3 c rest hpair hbreak ih =>
      obtain rfl | hrest := List.mem_cons.mp hline
      · refine Or.inr (Or.inl ⟨c, hbreak, ?_⟩)
        rw [lineBreak, List.dropWhile_cons_of_neg (by simpa using hbreak)]
      · exact ih hrest
  | case4 c rest hpair hbreak ih =>
      obtain ⟨first, others, hlines⟩ := List.exists_cons_of_ne_nil (splitLines_ne_nil rest)
      rw [hlines] at ih hline
      obtain rfl | hrest := List.mem_cons.mp hline
      · rw [lineBreak_cons_of_not hbreak]
        exact ih List.mem_cons_self
      · exact ih (List.mem_cons_of_mem first hrest)

theorem width_of_isLineBreak (hbreak : isLineBreak c) : Utf16.width c = 1 := by
  have hsmall : c.toNat < 0x10000 := by
    simp only [isLineBreak, Bool.or_eq_true, Bool.and_eq_true, decide_eq_true_eq, beq_iff_eq] at hbreak
    obtain ((⟨-, hle⟩ | rfl) | rfl) | rfl := hbreak
    · exact Nat.lt_of_le_of_lt hle (by decide)
    · decide
    · decide
    · decide
  rw [Utf16.width, if_pos hsmall]

theorem width_of_mem_lineBreak (hline : line ∈ splitLines text) (hc : c ∈ lineBreak line) :
    Utf16.width c = 1 := by
  obtain hnone | ⟨d, hbreak, hone⟩ | hpair := lineBreak_cases hline
  · simp [hnone] at hc
  · obtain rfl : c = d := by simpa [hone] using hc
    exact width_of_isLineBreak hbreak
  · obtain rfl | rfl : c = '\r' ∨ c = '\n' := by simpa [hpair] using hc
    · decide
    · decide

theorem take_lineBreak_cases {units : Nat} (hline : line ∈ splitLines text)
    (hbreak : lineBreak line ≠ []) (hunits : 0 < units) :
    (∃ c, (lineBreak line).take units = [c]) ∨ (lineBreak line).take units = ['\r', '\n'] := by
  obtain ⟨more, rfl⟩ := Nat.exists_eq_add_of_lt hunits
  obtain hnone | ⟨c, -, hone⟩ | hpair := lineBreak_cases hline
  · exact absurd hnone hbreak
  · exact Or.inl ⟨c, by simp [hone]⟩
  · cases more with
    | zero => exact Or.inl ⟨'\r', by simp [hpair]⟩
    | succ more => exact Or.inr (by simp [hpair])

theorem drop_lineBreak_ne_nil_iff {units : Nat} (hline : line ∈ splitLines text) (hunits : 0 < units) :
    (lineBreak line).drop units ≠ [] ↔ lineBreak line = ['\r', '\n'] ∧ units = 1 := by
  rw [Ne, List.drop_eq_nil_iff]
  obtain hnone | ⟨c, -, hone⟩ | hpair := lineBreak_cases hline
  · simp [hnone]
  · have hunits : units ≠ 0 := Nat.pos_iff_ne_zero.mp hunits
    simp [hone, hunits]
  · simp only [hpair, List.length_cons, List.length_nil, true_and]
    omega

end Break

/-! ## Texts that a break can pass by -/

/-- Two texts can change places if one of them is made up of copies of the other. That is the only case
if the other one does not begin with its own end. -/
theorem append_comm_iff {part text : List Char} (hpart : part ≠ [])
    (hborder : ∀ border, border <+: part → border <:+ part → border = [] ∨ border = part) :
    part ++ text = text ++ part ↔ ∃ count, text = (List.replicate count part).flatten := by
  constructor
  · intro hcomm
    induction hlength : text.length using Nat.strong_induction_on generalizing text with
    | _ length ih =>
        subst hlength
        have hfirst : text <+: part ++ text := hcomm ▸ List.prefix_append text part
        have hlast : text <:+ part ++ text := List.suffix_append part text
        obtain hshort | hlong := Nat.lt_or_ge text.length part.length
        · have hprefix : text <+: part :=
            List.prefix_of_prefix_length_le hfirst (List.prefix_append part text) hshort.le
          have hsuffix : text <:+ part :=
            List.suffix_of_suffix_length_le hlast (hcomm ▸ List.suffix_append text part) hshort.le
          obtain rfl | rfl := hborder text hprefix hsuffix
          · exact ⟨0, rfl⟩
          · exact absurd hshort (Nat.lt_irrefl _)
        · obtain ⟨rest, rfl⟩ :=
            List.prefix_of_prefix_length_le (List.prefix_append part text) hfirst hlong
          rw [List.append_assoc, List.append_cancel_left_eq] at hcomm
          have hshorter : rest.length < (part ++ rest).length := by
            have := List.length_pos_of_ne_nil hpart
            rw [List.length_append]
            omega
          obtain ⟨count, hrest⟩ := ih rest.length hshorter hcomm rfl
          exact ⟨count + 1, by rw [hrest, List.replicate_succ, List.flatten_cons]⟩
  · rintro ⟨count, rfl⟩
    rw [← List.flatten_cons, ← List.replicate_succ, List.replicate_succ', List.flatten_append,
      List.flatten_singleton]

theorem append_take_lineBreak_comm_iff {line text inserted : List Char} {units : Nat}
    (hline : line ∈ splitLines text) (hbreak : lineBreak line ≠ []) (hunits : 0 < units) :
    (lineBreak line).take units ++ inserted = inserted ++ (lineBreak line).take units ↔
      ∃ count, inserted = (List.replicate count ((lineBreak line).take units)).flatten := by
  obtain ⟨c, hone⟩ | hpair := take_lineBreak_cases hline hbreak hunits
  · rw [hone]
    refine append_comm_iff (List.cons_ne_nil c []) fun border hprefix _ => ?_
    simpa [List.prefix_cons_iff] using hprefix
  · rw [hpair]
    refine append_comm_iff (List.cons_ne_nil _ _) fun border hprefix hsuffix => ?_
    obtain rfl | ⟨rest, rfl, rfl | rfl⟩ :
        border = [] ∨ ∃ rest, border = '\r' :: rest ∧ (rest = [] ∨ rest = ['\n']) := by
      simpa [List.prefix_cons_iff] using hprefix
    · exact Or.inl rfl
    · exact absurd hsuffix (by decide)
    · exact Or.inr rfl

/-! ## Offsets -/

theorem Utf16.charsWithin_of_width_eq_one {chars : List Char} (hwidth : ∀ c ∈ chars, width c = 1)
    (units : Nat) : charsWithin units chars = min units chars.length := by
  induction chars generalizing units with
  | nil => simp [charsWithin]
  | cons c rest ih =>
      obtain ⟨hc, hrest⟩ := List.forall_mem_cons.mp hwidth
      rw [charsWithin, hc, ih hrest, List.length_cons]
      split_ifs <;> omega

namespace Document

variable {document : Document} {line column : Nat} {chars : List Char}

theorem chars_eq_of_getElem? (hline : document.lines[line]? = some chars) :
    document.chars =
      (document.lines.take line).flatten ++ chars ++ (document.lines.drop (line + 1)).flatten := by
  obtain ⟨hinside, rfl⟩ := List.getElem?_eq_some_iff.mp hline
  calc document.chars = document.lines.flatten := (flatten_splitLines _).symm
    _ = (document.lines.take line ++ document.lines[line] :: document.lines.drop (line + 1)).flatten := by
        rw [← List.drop_eq_getElem_cons hinside, List.take_append_drop]
    _ = _ := by rw [List.flatten_append, List.flatten_cons, List.append_assoc]

/-- A column past the content of a line goes on into its break. -/
theorem offset_past_content (hline : document.lines[line]? = some chars)
    (hcolumn : Utf16.length (lineContent chars) ≤ column) :
    document.offset line column = ((document.lines.take line).flatten ++ lineContent chars ++
      (lineBreak chars).take (column - Utf16.length (lineContent chars))).length := by
  have hwidth : ∀ c ∈ lineBreak chars, Utf16.width c = 1 :=
    fun c hc => width_of_mem_lineBreak (List.mem_of_getElem? hline) hc
  have hwithin : Utf16.charsWithin column chars = (lineContent chars).length +
      min (column - Utf16.length (lineContent chars)) (lineBreak chars).length := by
    rw [← Utf16.charsWithin_of_width_eq_one hwidth, ← Utf16.charsWithin_append hcolumn,
      lineContent_append_lineBreak]
  rw [offset, hline]
  dsimp only
  rw [hwithin, lineStart, List.length_append, List.length_append, List.length_take, Nat.add_assoc]

theorem edit_column_past_content (hline : document.lines[line]? = some chars)
    (hcolumn : Utf16.length (lineContent chars) ≤ column) (text : String) :
    document.edit ⟨line, column, line, column⟩ text =
      ⟨(document.lines.take line).flatten ++ lineContent chars ++
        (lineBreak chars).take (column - Utf16.length (lineContent chars)) ++ text.toList ++
        ((lineBreak chars).drop (column - Utf16.length (lineContent chars)) ++
          (document.lines.drop (line + 1)).flatten)⟩ := by
  generalize hexcess : column - Utf16.length (lineContent chars) = excess
  have hchars : document.chars = (document.lines.take line).flatten ++ lineContent chars ++
      (lineBreak chars).take excess ++ ((lineBreak chars).drop excess ++
        (document.lines.drop (line + 1)).flatten) := by
    conv_lhs => rw [chars_eq_of_getElem? hline, ← lineContent_append_lineBreak chars,
      ← List.take_append_drop excess (lineBreak chars)]
    simp only [List.append_assoc]
  simp only [edit, Nat.max_self]
  rw [offset_past_content hline hcolumn, hexcess, hchars, List.take_left, List.drop_left]

end Document

/-- **Columns past the content of a line.** Let a line end in a break, and let a text be inserted at a
column past the content of the line. It goes behind the break, or, one unit past the content of a line
that ends in a carriage return and a line feed, between the two. That is the same as to insert it before
the break only if it consists of copies of what it is behind. -/
theorem Document.edit_past_content (document : Document) (line column : Nat) (chars : List Char)
    (text : String) (hline : document.lines[line]? = some chars) (hbreak : lineBreak chars ≠ [])
    (hcolumn : Utf16.length (lineContent chars) < column) :
    let before := (document.lines.take line).flatten ++ lineContent chars
    let after := (document.lines.drop (line + 1)).flatten
    let passed := (lineBreak chars).take (column - Utf16.length (lineContent chars))
    let ahead := (lineBreak chars).drop (column - Utf16.length (lineContent chars))
    document.chars = before ++ lineBreak chars ++ after ∧
      document.edit ⟨line, column, line, column⟩ text =
        ⟨before ++ passed ++ text.toList ++ (ahead ++ after)⟩ ∧
      passed ≠ [] ∧
      (ahead ≠ [] ↔ lineBreak chars = ['\r', '\n'] ∧
        column = Utf16.length (lineContent chars) + 1) ∧
      (document.edit ⟨line, column, line, column⟩ text =
          ⟨before ++ text.toList ++ (lineBreak chars ++ after)⟩ ↔
        ∃ count, text.toList = (List.replicate count passed).flatten) := by
  intro before after passed ahead
  have hmem : chars ∈ splitLines document.chars := List.mem_of_getElem? hline
  have hexcess : 0 < column - Utf16.length (lineContent chars) := Nat.sub_pos_of_lt hcolumn
  have hpassed : passed ++ ahead = lineBreak chars := List.take_append_drop _ _
  have hedit : document.edit ⟨line, column, line, column⟩ text =
      ⟨before ++ passed ++ text.toList ++ (ahead ++ after)⟩ := edit_column_past_content hline hcolumn.le text
  refine ⟨?_, hedit, ?_, ?_, ?_⟩
  · rw [chars_eq_of_getElem? hline, List.append_assoc _ (lineContent chars),
      lineContent_append_lineBreak]
  · intro hnone
    obtain ⟨c, hone⟩ | hpair := take_lineBreak_cases hmem hbreak hexcess
    · exact List.cons_ne_nil c [] (hone.symm.trans hnone)
    · exact List.cons_ne_nil _ _ (hpair.symm.trans hnone)
  · rw [drop_lineBreak_ne_nil_iff hmem hexcess]
    refine and_congr_right fun _ => ?_
    omega
  · have hcomm : passed ++ text.toList = text.toList ++ passed ↔
        ∃ count, text.toList = (List.replicate count passed).flatten :=
      append_take_lineBreak_comm_iff hmem hbreak hexcess
    rw [hedit, ← hcomm, ← hpassed, Document.mk.injEq]
    simp only [List.append_assoc, List.append_cancel_left_eq]
    rw [← List.append_assoc, ← List.append_assoc text.toList, List.append_cancel_right_eq]

/-- One unit past a character of two units: the text divides the break. -/
theorem Document.edit_past_content_divides :
    (Document.ofString "😀\x0d\nb").lines[0]? = some "😀\x0d\n".toList ∧
      lineBreak "😀\x0d\n".toList = ['\r', '\n'] ∧
      Utf16.length (lineContent "😀\x0d\n".toList) < 3 ∧
      (Document.ofString "😀\x0d\nb").edit ⟨0, 3, 0, 3⟩ "x" = .ofString "😀\x0dx\nb" ∧
      (Document.ofString "😀\x0d\nb").edit ⟨0, 3, 0, 3⟩ "x" ≠ .ofString "😀x\x0d\nb" := by
  have hline : (Document.ofString "😀\x0d\nb").lines[0]? = some "😀\x0d\n".toList := by decide +kernel
  have hbreak : lineBreak "😀\x0d\n".toList = ['\r', '\n'] := by decide +kernel
  have hcolumn : Utf16.length (lineContent "😀\x0d\n".toList) < 3 := by decide +kernel
  obtain ⟨-, hedit, -, -, -⟩ := edit_past_content _ 0 3 _ "x" hline (hbreak ▸ by decide) hcolumn
  refine ⟨hline, hbreak, hcolumn, hedit.trans (by decide +kernel), ?_⟩
  rw [hedit]
  decide +kernel

/-- A column far past the end of the first line: the text goes to the second one. -/
theorem Document.edit_past_content_next_line :
    (Document.ofString "ab\ncd").lines[0]? = some ['a', 'b', '\n'] ∧
      Utf16.length (lineContent ['a', 'b', '\n']) < 7 ∧
      (Document.ofString "ab\ncd").edit ⟨0, 7, 0, 7⟩ "X" = .ofString "ab\nXcd" ∧
      (Document.ofString "ab\ncd").edit ⟨0, 7, 0, 7⟩ "X" ≠ .ofString "abX\ncd" := by
  decide +kernel

end PhpOutline
