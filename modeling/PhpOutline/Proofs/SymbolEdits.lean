import PhpOutline.Proofs.DocumentLines

/-!
# Editing a symbol

The place of a symbol is counted by the scanner, turned into UTF-16 units by the document, and turned
back into a number of characters when the client sends it with an edit. As long as the two agree on
lines, the way back undoes the way there, and an edit of that place replaces the name and nothing else.
-/

namespace PhpOutline

/-! ## Lines before a place -/

/-- Whether the character ends a line break, judging by the one after it: a carriage return does not if
a line feed is to come. -/
def endsLine (c : Char) (next : Option Char) : Bool :=
  isLineBreak c && !(c == '\r' && next == some '\n')

section Lines

variable {c : Char} {before rest text : List Char}

theorem splitLines_ne_nil (text : List Char) : splitLines text ≠ [] := by
  fun_induction splitLines text with
  | case4 c rest hpair hbreak ih => cases hlines : splitLines rest <;> simp [consLine]
  | _ => simp

theorem splitLines_cons_eq (c : Char) (rest : List Char) :
    splitLines (c :: rest) =
      if endsLine c rest.head? then [c] :: splitLines rest
      else (splitLines rest).modifyHead (c :: ·) := by
  by_cases hpair : c = '\r' ∧ rest.head? = some '\n'
  · obtain ⟨rfl, hnext⟩ := hpair
    obtain ⟨after, rfl⟩ := List.head?_eq_some_iff.mp hnext
    rfl
  · have hends : endsLine c rest.head? = isLineBreak c := by
      unfold endsLine
      simp only [Bool.and_eq_left_iff_imp, Bool.not_eq_true', Bool.and_eq_false_iff, beq_eq_false_iff_ne]
      intro _
      exact not_and_or.mp hpair
    have hsplit : splitLines (c :: rest) =
        if isLineBreak c then [c] :: splitLines rest else consLine c (splitLines rest) := by
      apply splitLines.eq_3
      rintro after rfl rfl
      exact hpair ⟨rfl, rfl⟩
    obtain ⟨line, others, hlines⟩ := List.exists_cons_of_ne_nil (splitLines_ne_nil rest)
    rw [hsplit, hends, hlines]
    rfl

theorem splitLines_cons (hbreaks : PlainBreaks (c :: rest)) :
    splitLines (c :: rest) =
      if c = '\n' then ['\n'] :: splitLines rest else (splitLines rest).modifyHead (c :: ·) := by
  obtain ⟨hbreak, -⟩ := plainBreaks_cons.mp hbreaks
  rw [splitLines_cons_eq]
  by_cases hline : c = '\n'
  · subst hline
    rfl
  · have hends : ¬endsLine c rest.head? := by
      intro hends
      obtain ⟨hc, hnext⟩ := Bool.and_eq_true_iff.mp hends
      have hpair := (hbreak hc).resolve_left hline
      simp [hpair] at hnext
    rw [if_neg hends, if_neg hline]

theorem PlainBreaks.of_append (hbreaks : PlainBreaks (before ++ rest)) : PlainBreaks rest := by
  induction before with
  | nil => exact hbreaks
  | cons c before ih => exact ih (plainBreaks_cons.mp hbreaks).2

/-- The lines that end within the first part of a text make it up together with its last line, which
is the beginning of the next one. -/
theorem exists_splitLines_append (hbreaks : PlainBreaks (before ++ rest)) :
    ∃ ended, ended.length = before.count '\n' ∧ ended.flatten ++ lastLine before = before ∧
      splitLines (before ++ rest) = ended ++ (splitLines rest).modifyHead (lastLine before ++ ·) := by
  induction before with
  | nil => exact ⟨[], rfl, rfl, (congrFun List.modifyHead_id _).symm⟩
  | cons c before ih =>
      obtain ⟨ended, hcount, hflatten, hlines⟩ := ih (plainBreaks_cons.mp hbreaks).2
      rw [List.cons_append] at hbreaks ⊢
      rw [splitLines_cons hbreaks, hlines, List.count_cons]
      by_cases hline : c = '\n'
      · subst hline
        have hlast : lastLine ('\n' :: before) = lastLine before := by
          by_cases hmem : '\n' ∈ before
          · exact lastLine_append_of_mem hmem ['\n']
          · rw [lastLine_eq_self hmem]
            exact lastLine_append hmem []
        refine ⟨['\n'] :: ended, by simp [hcount], ?_, ?_⟩
        · rw [hlast, List.flatten_cons, List.append_assoc, hflatten]
          rfl
        · rw [if_pos rfl, hlast]
          rfl
      · rw [if_neg hline]
        cases ended with
        | nil =>
            have hmem : '\n' ∉ before := List.count_eq_zero.mp hcount.symm
            have hwhole : '\n' ∉ c :: before := by simp [hmem, Ne.symm hline]
            rw [lastLine_eq_self hmem, lastLine_eq_self hwhole]
            refine ⟨[], by simpa [hline] using hcount, rfl, ?_⟩
            rw [List.nil_append, List.nil_append, List.modifyHead_modifyHead]
            rfl
        | cons first ended =>
            have hmem : '\n' ∈ before := by
              rw [← List.count_pos_iff, ← hcount]
              exact Nat.succ_pos _
            have hlast : lastLine (c :: before) = lastLine before := lastLine_append_of_mem hmem [c]
            refine ⟨(c :: first) :: ended, by simpa [hline] using hcount, ?_, ?_⟩
            · rw [hlast, List.flatten_cons, List.cons_append, List.cons_append, ← List.flatten_cons,
                hflatten]
            · rw [hlast]
              rfl

theorem newline_notMem_lastLine (text : List Char) : '\n' ∉ lastLine text := by
  obtain hline | ⟨first, last, rfl, hline⟩ := newline_cases text
  · rwa [lastLine_eq_self hline]
  · rwa [lastLine_append hline]

theorem lastLine_visible (text : List Char) : lastLine (visible text) = visible (lastLine text) := by
  have hnotMem : ∀ {part : List Char}, '\n' ∉ part → '\n' ∉ visible part :=
    fun hpart hmem => hpart (List.mem_of_mem_filter hmem)
  obtain hline | ⟨first, last, rfl, hline⟩ := newline_cases text
  · rw [lastLine_eq_self hline, lastLine_eq_self (hnotMem hline)]
  · rw [visible_append, lastLine_append hline]
    exact lastLine_append (hnotMem hline) (visible first)

/-- A word that stands in the text without its carriage returns stands in the text itself. -/
theorem exists_append_of_visible {word after : List Char} (hbreaks : PlainBreaks text)
    (hline : '\n' ∉ word) (hvisible : visible text = word ++ after) : ∃ rest, text = word ++ rest := by
  induction word generalizing text with
  | nil => exact ⟨text, rfl⟩
  | cons d word ih =>
      obtain ⟨hd, hword⟩ := not_or.mp (mt List.mem_cons.mpr hline)
      cases text with
      | nil => cases hvisible
      | cons c text =>
          obtain ⟨hbreak, htail⟩ := plainBreaks_cons.mp hbreaks
          by_cases hreturn : c = '\r'
          · -- the line feed that must follow would be the first character of the word
            subst hreturn
            obtain h | ⟨-, hnext⟩ := hbreak rfl
            · cases h
            · obtain ⟨rest, rfl⟩ := List.head?_eq_some_iff.mp hnext
              exact absurd (List.cons.inj hvisible).1 hd
          · rw [visible, List.filter_cons_of_pos (by simpa using hreturn)] at hvisible
            obtain ⟨rfl, hrest⟩ := List.cons.inj hvisible
            obtain ⟨rest, rfl⟩ := ih htail hword hrest
            exact ⟨rest, rfl⟩

end Lines

/-! ## There and back -/

theorem Utf16.charsWithin_append {first : List Char} {units : Nat} (hunits : length first ≤ units)
    (second : List Char) :
    charsWithin units (first ++ second) =
      first.length + charsWithin (units - length first) second := by
  induction first generalizing units with
  | nil => simp [length]
  | cons c rest ih =>
      rw [length] at hunits
      rw [List.cons_append, charsWithin, if_pos (by omega), ih (by omega), length, List.length_cons,
        Nat.sub_sub]
      omega

theorem Utf16.charsWithin_zero (chars : List Char) : charsWithin 0 chars = 0 := by
  cases chars with
  | nil => rfl
  | cons c rest =>
      have hwidth := one_le_width c
      rw [charsWithin, if_neg (by omega)]

theorem Utf16.charsWithin_length_append (first second : List Char) :
    charsWithin (length first) (first ++ second) = first.length := by
  rw [charsWithin_append (Nat.le_refl _), Nat.sub_self, charsWithin_zero, Nat.add_zero]

namespace Document

/-- The lines of the document and their lengths in UTF-16 units are counter values. -/
structure FitsCounters (document : Document) : Prop where
  lines : document.lines.length ≤ counterMax
  columns : ∀ line ∈ document.lines, Utf16.length line ≤ counterMax

section Offsets

variable {document : Document} {before rest : List Char}

theorem getElem?_lines (hbreaks : PlainBreaks document.chars)
    (hchars : document.chars = before ++ rest) :
    document.lineStart (before.count '\n') + (lastLine before).length = before.length ∧
      ∃ after, document.lines[before.count '\n']? = some (lastLine before ++ after) := by
  rw [hchars] at hbreaks
  obtain ⟨ended, hcount, hflatten, hlines⟩ := exists_splitLines_append hbreaks
  obtain ⟨line, others, hrest⟩ := List.exists_cons_of_ne_nil (splitLines_ne_nil rest)
  rw [hrest, List.modifyHead_cons] at hlines
  rw [lineStart, lines, hchars, hlines, ← hcount, List.take_left]
  refine ⟨?_, line, ?_⟩
  · calc ended.flatten.length + (lastLine before).length
        = (ended.flatten ++ lastLine before).length := List.length_append.symm
      _ = before.length := by rw [hflatten]
  · rw [List.getElem?_append_right (Nat.le_refl _), Nat.sub_self]
    rfl

/-- **There and back.** The place in characters of any part of the document, turned into units, leads
back to that place. -/
theorem offset_utf16Column (hbreaks : PlainBreaks document.chars)
    (hchars : document.chars = before ++ rest) :
    document.offset (before.count '\n')
      (document.utf16Column (before.count '\n') (lastLine before).length) = before.length := by
  obtain ⟨hstart, after, hline⟩ := getElem?_lines hbreaks hchars
  have hcolumn : document.utf16Column (before.count '\n') (lastLine before).length =
      Utf16.length (lastLine before) := by
    rw [utf16Column, hline]
    exact congrArg Utf16.length List.take_left
  rw [hcolumn, offset, hline]
  dsimp only
  rw [Utf16.charsWithin_length_append, hstart]

theorem FitsCounters.withinCounters (hfits : document.FitsCounters)
    (hbreaks : PlainBreaks document.chars) : WithinCounters document.chars := by
  rintro before ⟨rest, hrest⟩
  obtain ⟨-, after, hline⟩ := getElem?_lines hbreaks hrest.symm
  obtain ⟨hinside, -⟩ := List.getElem?_eq_some_iff.mp hline
  constructor
  · calc (placeAfter before).line = before.count '\n' + 1 := rfl
      _ ≤ document.lines.length := hinside
      _ ≤ counterMax := hfits.lines
  · calc (placeAfter before).column = (lastLine (visible before)).length := by rw [placeAfter_eq]
      _ = (visible (lastLine before)).length := by rw [lastLine_visible]
      _ ≤ (lastLine before).length := length_visible_le _
      _ ≤ (lastLine before ++ after).length := by simp
      _ ≤ Utf16.length (lastLine before ++ after) := Utf16.length_le_length _
      _ ≤ counterMax := hfits.columns _ (List.mem_of_getElem? hline)

/-- There is no carriage return on the line before a word, so the scanner counts all of it. -/
theorem lastLine_visible_of_word {word after : List Char}
    (hbreaks : PlainBreaks (before ++ (word ++ after))) (hne : word ≠ []) (hline : '\n' ∉ word) :
    lastLine (visible before) = lastLine before := by
  obtain ⟨ended, -, hflatten, -⟩ := exists_splitLines_append hbreaks
  rw [lastLine_visible]
  apply visible_eq_self
  intro hc
  obtain ⟨left, right, hlast⟩ := List.append_of_mem hc
  have htext : before ++ (word ++ after) =
      ended.flatten ++ left ++ '\r' :: (right ++ (word ++ after)) := by
    rw [← hflatten, hlast]
    simp
  obtain h | ⟨-, hnext⟩ := hbreaks _ _ _ htext rfl
  · cases h
  · cases right with
    | cons d right =>
        obtain rfl : d = '\n' := by simpa using hnext
        exact newline_notMem_lastLine before (by simp [hlast])
    | nil =>
        obtain ⟨d, word, rfl⟩ := List.exists_cons_of_ne_nil hne
        obtain rfl : d = '\n' := by simpa using hnext
        exact hline List.mem_cons_self

/-- Editing the place of a word, given in characters and turned into units. -/
theorem edit_word {word after : List Char} (hbreaks : PlainBreaks document.chars)
    (hchars : document.chars = before ++ (word ++ after)) (hne : word ≠ []) (hline : '\n' ∉ word)
    (replacement : String) :
    document.edit (document.utf16Span (.onLine (placeAfter before).line0 (placeAfter before).column
        ((placeAfter before).column + word.length))) replacement =
      ⟨before ++ replacement.toList ++ after⟩ := by
  have hcolumn : (placeAfter before).column = (lastLine before).length := by
    rw [hchars] at hbreaks
    rw [placeAfter_eq, lastLine_visible_of_word hbreaks hne hline]
  have hwhole : document.chars = before ++ word ++ after := by rw [hchars, List.append_assoc]
  have hfirst : document.offset (before.count '\n')
      (document.utf16Column (before.count '\n') (lastLine before).length) = before.length :=
    offset_utf16Column hbreaks hchars
  have hlast : document.offset (before.count '\n')
      (document.utf16Column (before.count '\n') ((lastLine before).length + word.length)) =
        (before ++ word).length := by
    have hoffset := offset_utf16Column hbreaks hwhole
    rwa [lastLine_append_of_notMem hline, List.length_append, List.count_append,
      List.count_eq_zero_of_not_mem hline, Nat.add_zero] at hoffset
  have hline0 : (placeAfter before).line0 = before.count '\n' := rfl
  simp only [edit, utf16Span, Span.mapColumns, Span.onLine, hcolumn, hline0]
  rw [hfirst, hlast, Nat.max_eq_right (by simp), hwhole, List.drop_left, List.append_assoc before,
    List.take_left]

/-- The text of a label occurs in the document where the scanner has found it. -/
theorem exists_occurrence {options : ScanOptions} {label : Occurrence}
    (hbreaks : PlainBreaks document.chars) (hwithin : WithinCounters document.chars)
    (hstands : label.StandsIn options document.chars) :
    ∃ before after, document.chars = before ++ (label.text.toList ++ after) ∧
      placeAfter before = label.start ∧
      placeAfter (before ++ label.text.toList) =
        ⟨label.start.line, label.start.column + label.text.length⟩ := by
  obtain ⟨before, after, hbefore, hvisible, hstart, -, -⟩ := hstands.placed
  have hline := hstands.newline_notMem
  have hplace : placeAfter before = label.start := by
    rw [hstart, (hwithin.of_prefix hbefore).position_run]
  obtain ⟨rest, hrest⟩ := hbefore
  rw [← hrest] at hbreaks hvisible ⊢
  rw [visible_append, List.append_assoc, List.append_cancel_left_eq] at hvisible
  obtain ⟨after, rfl⟩ := exists_append_of_visible hbreaks.of_append hline hvisible
  refine ⟨before, after, rfl, hplace, ?_⟩
  have hword : visible label.text.toList = label.text.toList := by
    apply visible_eq_self
    intro hc
    exact absurd (hstands.all_label _ hc) (by decide)
  have hvisible : visible (before ++ label.text.toList) = visible before ++ label.text.toList := by
    rw [visible_append, hword]
  rw [placeAfter_of_visible_append _ hline hvisible, hplace, String.length_toList]

end Offsets

end Document

/-- **Editing a symbol.** In a document whose line breaks are line feeds, with or without a carriage
return before them, the span of a symbol is one occurrence of its name, the one at the symbol's line
and column. Editing that span replaces this occurrence and leaves everything else as it is. -/
theorem Document.edit_symbolSpan (document : Document) (options : ScanOptions) (symbol : Symbol)
    (hbreaks : PlainBreaks document.chars) (hfits : document.FitsCounters)
    (hsymbol : symbol ∈ (document.scan options).symbols) :
    ∃ before after, document.chars = before ++ symbol.name.toList ++ after ∧
      placeAfter before = ⟨symbol.line, symbol.startColumn⟩ ∧
      placeAfter (before ++ symbol.name.toList) = ⟨symbol.line, symbol.endColumn⟩ ∧
      ∀ replacement : String, document.edit (document.symbolSpan symbol) replacement =
        ⟨before ++ replacement.toList ++ after⟩ := by
  have hwithin := hfits.withinCounters hbreaks
  have hscan : document.scan options = PhpOutline.scan options document.text := by
    rw [scan, PhpOutline.scan, Scanner.feed, text, String.toList_ofList]
  rw [hscan] at hsymbol
  have hchars : document.text.toList = document.chars := String.toList_ofList
  rw [WithinCounters.symbols_scan (hchars.symm ▸ hwithin)] at hsymbol
  obtain ⟨name, hmem, -, hname, hline, hstart, hend⟩ := exists_label_of_mem_declarations hsymbol
  have hstands : name.StandsIn options document.chars := hchars ▸ standsIn_of_mem_scanTrace hmem
  obtain ⟨before, after, hsplit, hbefore, hword⟩ := exists_occurrence hbreaks hwithin hstands
  rw [hname, hline, hstart, hend]
  refine ⟨before, after, by rw [hsplit, List.append_assoc], hbefore, hword, ?_⟩
  intro replacement
  have hedit := edit_word hbreaks hsplit hstands.ne_nil hstands.newline_notMem replacement
  rw [hbefore, String.length_toList] at hedit
  rw [symbolSpan, Symbol.nameSpan, hline, hstart, hend]
  exact hedit

/-- A class after a character of two units, on a line that ends with a carriage return and a line
feed. -/
theorem Document.edit_symbolSpan_after_wide_character :
    PlainBreaks "<?php\x0d\n/*😀*/ class Foo \x7b\x0d\n\x7d".toList ∧
      ⟨"Foo", .classDecl, 2, 12, 15, 0⟩ ∈
        ((Document.ofString "<?php\x0d\n/*😀*/ class Foo \x7b\x0d\n\x7d").scan {}).symbols ∧
      ∃ before after, "<?php\x0d\n/*😀*/ class Foo \x7b\x0d\n\x7d".toList =
          before ++ "Foo".toList ++ after ∧
        placeAfter before = ⟨2, 12⟩ ∧
        (Document.ofString "<?php\x0d\n/*😀*/ class Foo \x7b\x0d\n\x7d").edit ⟨1, 13, 1, 16⟩ "Bar" =
          ⟨before ++ "Bar".toList ++ after⟩ := by
  have hbreaks : PlainBreaks "<?php\x0d\n/*😀*/ class Foo \x7b\x0d\n\x7d".toList := by decide
  have hsymbol : ⟨"Foo", .classDecl, 2, 12, 15, 0⟩ ∈
      ((Document.ofString "<?php\x0d\n/*😀*/ class Foo \x7b\x0d\n\x7d").scan {}).symbols := by
    decide +kernel
  obtain ⟨before, after, hchars, hbefore, -, hedit⟩ :=
    edit_symbolSpan _ _ _ hbreaks ⟨by decide, by decide⟩ hsymbol
  exact ⟨hbreaks, hsymbol, before, after, hchars, hbefore, hedit "Bar"⟩

end PhpOutline
