import Mathlib.Data.List.TakeWhile
import PhpOutline.Proofs.Declarations

/-!
# The places in a report

A report names lines and columns. They are those of the text without its carriage returns, cut into
lines at every line feed: what stands at the place of a symbol is its name, as a whole label, and what
stands at the place of an unresolved declaration is its keyword.
-/

namespace PhpOutline

/-- The lines of a text. -/
def sourceLines (text : List Char) : List (List Char) := (visible text).splitOn '\n'

/-- The part of a text after its last line feed. -/
def lastLine (text : List Char) : List Char := (text.reverse.takeWhile (· ≠ '\n')).reverse

/-- The part of a text before its first line feed. -/
def firstLine (text : List Char) : List Char := text.takeWhile (· ≠ '\n')

section Lines

theorem splitOn_cons (c : Char) (text : List Char) :
    (c :: text).splitOn '\n' =
      if c = '\n' then [] :: text.splitOn '\n' else (text.splitOn '\n').modifyHead (c :: ·) := by
  simp only [List.splitOn_eq_splitOnP, List.splitOnP_cons_eq_if_modifyHead, beq_iff_eq]

theorem length_splitOn (text : List Char) :
    (text.splitOn '\n').length = text.count '\n' + 1 := by
  induction text with
  | nil => rfl
  | cons c rest ih =>
      rw [splitOn_cons, List.count_cons]
      by_cases hline : c = '\n'
      · simp [hline, ih]
      · simp [hline, ih]

theorem head?_splitOn (text : List Char) : (text.splitOn '\n').head? = some (firstLine text) := by
  induction text with
  | nil => rfl
  | cons c rest ih =>
      rw [splitOn_cons, firstLine, List.takeWhile_cons]
      by_cases hline : c = '\n'
      · simp [hline]
      · simp [hline, ih, firstLine, List.head?_modifyHead]

theorem firstLine_append {first : List Char} (hline : '\n' ∉ first) (second : List Char) :
    firstLine (first ++ second) = first ++ firstLine second := by
  refine List.takeWhile_append_of_pos fun c hc => decide_eq_true ?_
  rintro rfl
  exact hline hc

theorem lastLine_append {second : List Char} (hline : '\n' ∉ second) (first : List Char) :
    lastLine (first ++ '\n' :: second) = second := by
  have hreverse : (first ++ '\n' :: second).reverse = second.reverse ++ '\n' :: first.reverse := by
    simp
  have hall : ∀ c ∈ second.reverse, decide (c ≠ '\n') = true := by
    refine fun c hc => decide_eq_true ?_
    rintro rfl
    exact hline (List.mem_reverse.mp hc)
  rw [lastLine, hreverse, List.takeWhile_append_of_pos hall]
  simp

theorem lastLine_eq_self {text : List Char} (hline : '\n' ∉ text) : lastLine text = text := by
  have hall : ∀ c ∈ text.reverse, decide (c ≠ '\n') = true := by
    refine fun c hc => decide_eq_true ?_
    rintro rfl
    exact hline (List.mem_reverse.mp hc)
  rw [lastLine, List.takeWhile_eq_self_iff.mpr hall, List.reverse_reverse]

theorem newline_cases (text : List Char) :
    '\n' ∉ text ∨ ∃ before rest, text = before ++ '\n' :: rest ∧ '\n' ∉ rest := by
  by_cases hline : '\n' ∈ text
  · right
    obtain ⟨rest, before, htext, hrest⟩ :=
      List.eq_append_cons_of_mem (List.mem_reverse.mpr hline)
    refine ⟨before.reverse, rest.reverse, ?_, by simpa using hrest⟩
    rw [← List.reverse_reverse text, htext]
    simp
  · exact Or.inl hline

theorem lastLine_append_of_mem {second : List Char} (hline : '\n' ∈ second) (first : List Char) :
    lastLine (first ++ second) = lastLine second := by
  obtain hnone | ⟨before, rest, rfl, hrest⟩ := newline_cases second
  · exact absurd hline hnone
  · rw [← List.append_assoc, lastLine_append hrest, lastLine_append hrest]

theorem lastLine_append_of_notMem {second : List Char} (hline : '\n' ∉ second) (first : List Char) :
    lastLine (first ++ second) = lastLine first ++ second := by
  obtain hnone | ⟨before, rest, rfl, hrest⟩ := newline_cases first
  · rw [lastLine_eq_self hnone, lastLine_eq_self]
    simp [hnone, hline]
  · rw [List.append_assoc, List.cons_append, lastLine_append hrest, lastLine_append]
    simp [hrest, hline]

theorem getElem?_splitOn_append (first second : List Char) :
    ((first ++ second).splitOn '\n')[first.count '\n']? =
      some (lastLine first ++ firstLine second) := by
  obtain hline | ⟨before, rest, rfl, hline⟩ := newline_cases first
  · rw [List.count_eq_zero_of_not_mem hline, ← List.head?_eq_getElem?, head?_splitOn,
      firstLine_append hline, lastLine_eq_self hline]
  · have hcount : (before ++ '\n' :: rest).count '\n' = (before.splitOn '\n').length := by
      rw [length_splitOn, List.count_append, List.count_cons_self,
        List.count_eq_zero_of_not_mem hline]
    have hsplit : (before ++ '\n' :: rest ++ second).splitOn '\n' =
        before.splitOn '\n' ++ (rest ++ second).splitOn '\n' := by
      rw [List.append_assoc, List.cons_append, List.splitOn_eq_splitOnP,
        List.splitOnP_append_cons _ _ (by simp)]
      rfl
    rw [hcount, hsplit, List.getElem?_append_right (Nat.le_refl _), Nat.sub_self,
      ← List.head?_eq_getElem?, head?_splitOn, firstLine_append hline, lastLine_append hline]

end Lines

/-! ## Labels on their lines -/

/-- The place directly after an open tag `<?php`. -/
def FollowsOpenTag (options : ScanOptions) (text : List Char) (place : Position) : Prop :=
  ∃ opened, opened <+: text ∧ EndsOpenTag options opened ∧ placeAfter opened = place

section Labels

variable {options : ScanOptions} {text : List Char}

theorem placeAfter_eq (text : List Char) :
    placeAfter text = ⟨(visible text).count '\n' + 1, (lastLine (visible text)).length⟩ := by
  rw [placeAfter, count_visible, lastLine, List.length_reverse]

theorem placeAfter_of_notMem (hline : '\n' ∉ text) (hreturn : '\r' ∉ text) :
    placeAfter text = ⟨1, text.length⟩ := by
  rw [placeAfter_eq, visible_eq_self hreturn, lastLine_eq_self hline,
    List.count_eq_zero_of_not_mem hline]

theorem length_sourceLines (text : List Char) :
    (sourceLines text).length = (placeAfter text).line := by
  rw [sourceLines, length_splitOn, placeAfter_eq]

theorem getLast?_of_lastLine {text : List Char} {c : Char} (hlast : (lastLine text).getLast? = some c) :
    text.getLast? = some c := by
  rw [lastLine, List.getLast?_reverse] at hlast
  rw [← List.head?_reverse]
  cases hreverse : text.reverse with
  | nil => simp [hreverse] at hlast
  | cons d rest =>
      rw [hreverse, List.takeWhile_cons] at hlast
      split_ifs at hlast
      · simpa using hlast
      · cases hlast

theorem head?_of_firstLine {text : List Char} {c : Char} (hfirst : (firstLine text).head? = some c) :
    text.head? = some c := by
  cases text with
  | nil => cases hfirst
  | cons d rest =>
      rw [firstLine, List.takeWhile_cons] at hfirst
      split_ifs at hfirst
      · simpa using hfirst
      · cases hfirst

/-- A label takes up a stretch of its line, with nothing of a label on either side. -/
theorem Occurrence.StandsIn.on_line {label : Occurrence} (hstands : label.StandsIn options text)
    (hlength : text.length < counterMax) :
    ∃ left right, 1 ≤ label.start.line ∧
      (sourceLines text)[label.start.line - 1]? = some (left ++ (label.text.toList ++ right)) ∧
      left.length = label.start.column ∧
      (∀ c, right.head? = some c → isLabelChar c = false) ∧
      (∀ c, left.getLast? = some c → isLabelChar c →
        FollowsOpenTag options text label.start) := by
  obtain ⟨before, after, hprefix, hvisible, hstart, hbefore, hafter⟩ := hstands.placed
  have hplace : label.start = placeAfter before := by
    rw [hstart, position_run before (Nat.lt_of_le_of_lt hprefix.length_le hlength)]
  have hline := hstands.newline_notMem
  refine ⟨lastLine (visible before), firstLine after, ?_, ?_, ?_, ?_, ?_⟩
  · rw [hplace, placeAfter_eq]
    exact Nat.le_add_left _ _
  · rw [hplace, placeAfter_eq, sourceLines, hvisible, List.append_assoc, Nat.add_sub_cancel,
      getElem?_splitOn_append, firstLine_append hline]
  · rw [hplace, placeAfter_eq]
  · exact fun c hc => hafter c (head?_of_firstLine hc)
  · intro c hc hlabel
    obtain ⟨opened, hopened, hsame, htag⟩ := hbefore c (getLast?_of_lastLine hc) hlabel
    refine ⟨opened, hopened.trans hprefix, htag, ?_⟩
    rw [hplace, placeAfter_eq, placeAfter_eq, hsame]

end Labels

/-! ## Symbols and unresolved declarations -/

/-- What stands at the place of the symbol is its name, and the name is a whole label: no label
character comes after it, and none before it unless it ends an open tag. -/
def Symbol.StandsIn (symbol : Symbol) (options : ScanOptions) (text : List Char) : Prop :=
  1 ≤ symbol.line ∧ ∃ chars, (sourceLines text)[symbol.line - 1]? = some chars ∧
    symbol.endColumn ≤ chars.length ∧
    (chars.take symbol.endColumn).drop symbol.startColumn = symbol.name.toList ∧
    (∀ c, chars[symbol.endColumn]? = some c → isLabelChar c = false) ∧
    (∀ c, 0 < symbol.startColumn → chars[symbol.startColumn - 1]? = some c → isLabelChar c →
      FollowsOpenTag options text ⟨symbol.line, symbol.startColumn⟩)

/-- A word that can be the name of a declaration. -/
structure IsName (name : String) : Prop where
  ne_empty : name ≠ ""
  all_label : ∀ c ∈ name.toList, isLabelChar c
  not_digit : ∀ c, name.toList.head? = some c → c.isDigit = false
  not_extends : sameWord name "extends" = false
  not_implements : sameWord name "implements" = false

/-- What stands at the place of the declaration is its keyword. -/
def Unresolved.StandsIn (decl : Unresolved) (text : List Char) : Prop :=
  1 ≤ decl.start.line ∧ ∃ chars, (sourceLines text)[decl.start.line - 1]? = some chars ∧
    (chars.drop decl.start.column).take decl.keyword.length = decl.keyword.toList

/-- The keyword is one that introduces declarations of the kind. -/
def Unresolved.HasKind (decl : Unresolved) (distinctInterfaces : Bool) : Prop :=
  ((sameWord decl.keyword "class" ∨ sameWord decl.keyword "trait") ∧ decl.kind = .classDecl) ∨
    (sameWord decl.keyword "interface" ∧
      decl.kind = if distinctInterfaces then .interfaceDecl else .classDecl) ∨
    (sameWord decl.keyword "function" ∧ decl.kind = .functionDecl)

section Report

variable {options : ScanOptions} {events : List Event}

theorem exists_label_of_declaration? {terminator : Terminator} {braceDepth : Nat}
    {suffix : List Event} {symbol : Symbol}
    (hsymbol : declaration? options terminator braceDepth suffix = some symbol) :
    ∃ name, .label name ∈ suffix ∧ isDeclaredName name.text ∧ symbol.name = name.text ∧
      symbol.line = name.start.line ∧ symbol.startColumn = name.start.column ∧
      symbol.endColumn = name.start.column + name.text.length := by
  obtain ⟨keyword, between, name, others, kind, rfl, -, -, -, hlabels, hdeclared, rfl⟩ :=
    declaration?_eq_some hsymbol
  have hname : .label name ∈ between := mem_labelsOf_iff.mp (by simp [hlabels])
  exact ⟨name, List.mem_cons_of_mem _ hname, hdeclared, rfl, rfl, rfl, rfl⟩

theorem exists_label_of_mem_declarations {symbol : Symbol}
    (hsymbol : symbol ∈ declarations options events) :
    ∃ name, .label name ∈ events ∧ isDeclaredName name.text ∧ symbol.name = name.text ∧
      symbol.line = name.start.line ∧ symbol.startColumn = name.start.column ∧
      symbol.endColumn = name.start.column + name.text.length := by
  obtain ⟨⟨before, event⟩, hpair, hmem⟩ := List.mem_flatMap.mp hsymbol
  have hbefore : before <+: events := (List.mem_inits _ _).mp (List.of_mem_zip hpair).1
  cases event with
  | terminator terminator braceDepth =>
      obtain ⟨suffix, hsuffix, hdeclaration⟩ := List.mem_filterMap.mp hmem
      obtain ⟨name, hname, hrest⟩ := exists_label_of_declaration? hdeclaration
      have hsubset : suffix <:+ before := (List.mem_tails _ _).mp hsuffix
      exact ⟨name, hbefore.subset (hsubset.subset hname), hrest⟩
  | label _ => cases hmem
  | semicolon => cases hmem

theorem exists_label_of_mem_unresolved {s : Scanner}
    (htracks : s.recognizer.Tracks options events) {decl : Unresolved}
    (hdecl : decl ∈ s.intents.waiting.filterMap s.unresolved?) :
    ∃ keyword, .label keyword ∈ events ∧
      keyword.keywordKind? options.distinctInterfaces = some decl.kind ∧
      decl.keyword = keyword.text ∧ decl.start = keyword.start := by
  rw [htracks.unresolved_eq] at hdecl
  obtain ⟨suffix, hsuffix, hunresolved⟩ := List.mem_filterMap.mp hdecl
  obtain ⟨keyword, after, kind, rfl, hkind, -, rfl⟩ := unresolvedAt?_eq_some hunresolved
  exact ⟨keyword, ((List.mem_tails _ _).mp hsuffix).subset List.mem_cons_self, hkind, rfl, rfl⟩

theorem isName_of_standsIn {text : List Char} {label : Occurrence}
    (hstands : label.StandsIn options text) (hdeclared : isDeclaredName label.text) :
    IsName label.text := by
  have hne := hstands.ne_nil
  unfold isDeclaredName at hdeclared
  split at hdeclared
  · cases hdeclared
  · rename_i c rest hlist
    simp only [Bool.and_eq_true, Bool.not_eq_true'] at hdeclared
    obtain ⟨⟨hdigit, hextends⟩, himplements⟩ := hdeclared
    refine ⟨?_, hstands.all_label, ?_, hextends, himplements⟩
    · intro hempty
      exact hne (by rw [hempty]; rfl)
    · intro d hd
      rw [hlist] at hd
      obtain rfl := Option.some.inj hd
      exact hdigit

theorem symbol_standsIn {text : List Char} {label : Occurrence} {symbol : Symbol}
    (hstands : label.StandsIn options text) (hlength : text.length < counterMax)
    (hname : symbol.name = label.text) (hline : symbol.line = label.start.line)
    (hstart : symbol.startColumn = label.start.column)
    (hend : symbol.endColumn = label.start.column + label.text.length) :
    symbol.StandsIn options text := by
  obtain ⟨left, right, hpositive, hget, hleft, hright, htag⟩ := hstands.on_line hlength
  unfold Symbol.StandsIn
  rw [hname, hline, hstart, hend, ← hleft, ← String.length_toList]
  refine ⟨hpositive, _, hget, ?_, ?_, ?_, ?_⟩
  · simp
  · simp [List.take_append]
  · intro c hc
    rw [← List.append_assoc, ← List.length_append, List.getElem?_append_right (Nat.le_refl _),
      Nat.sub_self, ← List.head?_eq_getElem?] at hc
    exact hright c hc
  · intro c hpos hc hlabel
    rw [List.getElem?_append_left (Nat.sub_lt hpos Nat.one_pos), ← List.getLast?_eq_getElem?] at hc
    rw [hleft]
    exact htag c hc hlabel

theorem unresolved_standsIn {text : List Char} {label : Occurrence} {decl : Unresolved}
    (hstands : label.StandsIn options text) (hlength : text.length < counterMax)
    (hkeyword : decl.keyword = label.text) (hstart : decl.start = label.start) :
    decl.StandsIn text := by
  obtain ⟨left, right, hpositive, hget, hleft, -, -⟩ := hstands.on_line hlength
  unfold Unresolved.StandsIn
  rw [hkeyword, hstart, ← hleft, ← String.length_toList]
  refine ⟨hpositive, _, hget, ?_⟩
  rw [List.drop_left, List.take_left]

theorem hasKind_of_keywordKind? {keyword : Occurrence} {decl : Unresolved} {distinct : Bool}
    (hkind : keyword.keywordKind? distinct = some decl.kind) (htext : decl.keyword = keyword.text) :
    decl.HasKind distinct := by
  unfold Occurrence.keywordKind? keywordKind? at hkind
  unfold Unresolved.HasKind
  rw [htext]
  split_ifs at hkind with _ hclass hinterface hdistinct hfunction
  · exact Or.inl ⟨by simpa using hclass, (Option.some.inj hkind).symm⟩
  · exact Or.inr (Or.inl ⟨hinterface, by simpa [hdistinct] using hkind.symm⟩)
  · exact Or.inr (Or.inl ⟨hinterface, by simpa [hdistinct] using hkind.symm⟩)
  · exact Or.inr (Or.inr ⟨hfunction, (Option.some.inj hkind).symm⟩)

/-- **Places are right.** A report counts the lines of the text, the name of every symbol is found at
the symbol's place and is a whole label that can be a name, and the keyword of every unresolved
declaration is found at the declaration's place. -/
theorem scan_places (options : ScanOptions) (text : String) (hlength : text.length < counterMax) :
    (scan options text).lines = (sourceLines text.toList).length ∧
      (∀ symbol ∈ (scan options text).symbols,
        symbol.StandsIn options text.toList ∧ IsName symbol.name) ∧
      (∀ decl ∈ (scan options text).unresolved,
        decl.StandsIn text.toList ∧ decl.HasKind options.distinctInterfaces) := by
  have hshort : text.toList.length < counterMax := by rwa [String.length_toList]
  refine ⟨?_, fun symbol hsymbol => ?_, fun decl hdecl => ?_⟩
  · have hclose : ((Scanner.start options).feed text).close.position =
        ((Scanner.start options).run text.toList).position := by
      unfold Scanner.close
      split_ifs
      · exact Scanner.position_complete _
      · rfl
    rw [length_sourceLines, ← position_run text.toList hshort, ← hclose]
    rfl
  · have hsymbols := (tracks_close options text).symbols_eq (labelsFit_scanTrace options hlength)
    have hdeclaration : symbol ∈ declarations options (scanTrace options text) := hsymbols ▸ hsymbol
    obtain ⟨name, hmem, hdeclared, hname, hline, hstart, hend⟩ :=
      exists_label_of_mem_declarations hdeclaration
    have hstands := standsIn_of_mem_scanTrace hmem
    refine ⟨symbol_standsIn hstands hshort hname hline hstart hend, ?_⟩
    rw [hname]
    exact isName_of_standsIn hstands hdeclared
  · obtain ⟨keyword, hmem, hkind, htext, hstart⟩ :=
      exists_label_of_mem_unresolved (tracks_close options text) hdecl
    exact ⟨unresolved_standsIn (standsIn_of_mem_scanTrace hmem) hshort htext hstart,
      hasKind_of_keywordKind? hkind htext⟩

/-- A name that directly follows an open tag, on the line after a carriage return, and a keyword that
the text ends with. -/
theorem scan_places_after_open_tag :
    "<?php class ?>\x0d\n<?phpFoo \x7b\nfunction".length < counterMax ∧
      (scan {} "<?php class ?>\x0d\n<?phpFoo \x7b\nfunction").symbols = [⟨"Foo", .classDecl, 2, 5, 8, 0⟩] ∧
      (scan {} "<?php class ?>\x0d\n<?phpFoo \x7b\nfunction").unresolved =
        [⟨"function", .functionDecl, ⟨3, 0⟩⟩] ∧
      (⟨"Foo", .classDecl, 2, 5, 8, 0⟩ : Symbol).StandsIn {}
        "<?php class ?>\x0d\n<?phpFoo \x7b\nfunction".toList := by
  have hsymbols : (scan {} "<?php class ?>\x0d\n<?phpFoo \x7b\nfunction").symbols =
      [⟨"Foo", .classDecl, 2, 5, 8, 0⟩] := by decide +kernel
  have hplaces := scan_places {} "<?php class ?>\x0d\n<?phpFoo \x7b\nfunction" (by decide)
  refine ⟨by decide, hsymbols, by decide +kernel, (hplaces.2.1 _ ?_).1⟩
  rw [hsymbols]
  exact List.mem_singleton_self _

end Report

end PhpOutline
