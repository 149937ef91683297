import PhpOutline.Diagnostic
import PhpOutline.Proofs.OpenRegions
import PhpOutline.Proofs.SymbolOrder

/-!
# The places of diagnostics

A diagnostic points at a region that was never closed, or at a keyword that never met its terminator.
It covers the character that opened the region, or the keyword, and nothing else, and none of the
counters on the way there leaves its range.
-/

namespace PhpOutline

/-! ## Counters -/

/-- The largest number that a label can have. -/
def sequenceMax : Nat := 18446744073709551615

/-- There is room for one more parenthesis and one more label. -/
structure Scanner.HasRoom (s : Scanner) : Prop where
  parens : ∀ frame ∈ s.regions.inner, ∀ nested, frame.region = .parens nested → nested + 1 ≤ counterMax
  labels : s.lookback.next + 1 ≤ sequenceMax

section Counters

theorem Recognizer.next_takeAll (r : Recognizer) (events : List Event) :
    (r.takeAll events).lookback.next = r.lookback.next + (labelsOf events).length := by
  induction events generalizing r with
  | nil => rfl
  | cons event rest ih =>
      have hrest := ih (r.take event)
      cases event with
      | label occurrence =>
          rw [labelsOf_label, List.length_cons, Nat.add_comm _ 1, ← Nat.add_assoc]
          exact hrest
      | terminator terminator braceDepth => exact hrest
      | semicolon => exact hrest

theorem Scanner.length_labelsOf_emits_le (s : Scanner) (c : Char) :
    (labelsOf (s.emits c)).length ≤ 1 := by
  have hcompletion : (labelsOf s.completion).length ≤ 1 := by
    unfold completion
    split <;> simp
  obtain hnone | hlabel := s.labelsOf_emits c
  · simp [hnone]
  · rwa [hlabel]

theorem Scanner.next_step_le (s : Scanner) (c : Char) :
    (s.step c).lookback.next ≤ s.lookback.next + 1 := by
  have hnext := s.recognizer.next_takeAll (s.emits c)
  rw [← s.recognizer_step c] at hnext
  exact hnext.trans_le (Nat.add_le_add_left (s.length_labelsOf_emits_le c) _)

theorem next_run_le (options : ScanOptions) (text : List Char) :
    ((Scanner.start options).run text).lookback.next ≤ text.length := by
  induction text using List.reverseRecOn with
  | nil => exact Nat.le_refl _
  | append_singleton text c ih =>
      rw [Scanner.run_concat, List.length_append]
      exact (Scanner.next_step_le _ c).trans (Nat.succ_le_succ ih)

theorem hasRoom_run (options : ScanOptions) {text : List Char} (hlength : text.length < counterMax) :
    ((Scanner.start options).run text).HasRoom := by
  constructor
  · intro frame hframe nested hregion
    have hless := nested_run_lt options text frame hframe nested hregion
    omega
  · have hnext := next_run_le options text
    have hmax : counterMax < sequenceMax := by decide
    omega

end Counters

/-! ## The region that is left open -/

namespace RegionStack

/-- The region that a text leaves open which ends here, and the problem that this is. A line comment
ends with the text, but not the parentheses around it. -/
def unclosed? (stack : RegionStack) : Option (Region × Problem) :=
  match stack.current with
  | .doubleQuoted => some (.doubleQuoted, .unterminatedString)
  | .singleQuoted => some (.singleQuoted, .unterminatedString)
  | .blockComment => some (.blockComment, .unterminatedComment)
  | .parens nested => some (.parens nested, .unclosedParenthesis)
  | .lineComment =>
    match stack.pop.current with
    | .parens nested => some (.parens nested, .unclosedParenthesis)
    | _ => none
  | .page | .code => none

theorem Nested.unclosed?_eq {stack : RegionStack} (hnested : stack.Nested) :
    stack.unclosed? = stack.openRegion?.map fun frame => (frame.region, frame.region.problem) := by
  cases hnested with
  | @innermost region => cases region <;> rfl
  | @inParens region hregion => cases region <;> first | rfl | cases hregion
  | _ => rfl

/-- The page does not have to be closed, so an open region is on the stack. -/
theorem exists_of_openRegion? {stack : RegionStack} {frame : Frame}
    (hopen : stack.openRegion? = some frame) :
    frame.region.awaitsClose ∧ ∃ inner outer, stack.inner = inner ++ frame :: outer := by
  have hinner : stack.inner.find? (·.region.awaitsClose) = some frame := by
    rwa [openRegion?, frames, List.find?_append, List.find?_singleton, if_neg (by decide),
      Option.or_none] at hopen
  obtain ⟨hawaits, inner, outer, hstack, -⟩ := List.find?_eq_some_iff_append.mp hinner
  exact ⟨hawaits, inner, outer, hstack⟩

end RegionStack

/-! ## Spans -/

/-- The stretch is within one line of the text, and covers these characters. -/
structure Span.Covers (span : Span) (text chars : List Char) : Prop where
  one_line : span.endLine = span.startLine
  covered : ∃ left right, (sourceLines text)[span.startLine]? = some (left ++ chars ++ right) ∧
    left.length = span.startColumn ∧ (left ++ chars).length = span.endColumn

section Spans

variable {text before chars after : List Char}

/-- Characters on one line are covered by the stretch that begins at their place. -/
theorem covers_of_visible (hvisible : visible text = visible before ++ chars ++ after)
    (hline : '\n' ∉ chars) :
    (Span.onLine (placeAfter before).line0 (placeAfter before).column
      ((placeAfter before).column + chars.length)).Covers text chars := by
  refine ⟨rfl, lastLine (visible before), firstLine after, ?_, ?_, ?_⟩
  · rw [sourceLines, hvisible, List.append_assoc, placeAfter_eq]
    exact (getElem?_splitOn_append _ _).trans (by rw [firstLine_append hline, List.append_assoc])
  · rw [placeAfter_eq]
    rfl
  · rw [placeAfter_eq, List.length_append]
    rfl

theorem line0_of_placeAfter {place : Position} (hplace : placeAfter before = place) :
    (⟨place.line0 + 1, place.column⟩ : Position) = place := by
  rw [← hplace]
  rfl

theorem column_add_length_le (hvisible : visible text = visible before ++ chars ++ after) :
    (placeAfter before).column + chars.length ≤ text.length := by
  calc (placeAfter before).column + chars.length
      ≤ (visible before).length + chars.length := Nat.add_le_add_right (column_placeAfter_le before) _
    _ ≤ (visible text).length := by rw [hvisible]; simp
    _ ≤ text.length := length_visible_le text

end Spans

/-! ## Diagnostics -/

/-- The diagnostic points at the character that opened the region, which has been open ever since. -/
def Diagnostic.PointsAtOpening (diagnostic : Diagnostic) (options : ScanOptions) (text : List Char)
    (region : Region) : Prop :=
  ∃ c outer, region.delimiter.head? = some c ∧ diagnostic.span.Covers text [c] ∧
    Frame.OpenedIn ⟨region, ⟨diagnostic.span.startLine + 1, diagnostic.span.startColumn⟩⟩ options text
      outer

/-- The diagnostic points at the keyword of the declaration. -/
structure Diagnostic.PointsAtKeyword (diagnostic : Diagnostic) (text : List Char) (decl : Unresolved) :
    Prop where
  problem_eq : diagnostic.problem = .unresolvedDeclaration decl.kind
  covers : diagnostic.span.Covers text decl.keyword.toList
  start_eq : (⟨diagnostic.span.startLine + 1, diagnostic.span.startColumn⟩ : Position) = decl.start

section Diagnostics

variable {options : ScanOptions}

theorem Region.exists_opener {region : Region} (hawaits : region.awaitsClose) :
    ∃ c rest, region.delimiter = c :: rest ∧ '\n' ∉ [c] := by
  cases region <;> simp [awaitsClose, delimiter] at hawaits ⊢

theorem Frame.OpenedIn.pointsAtOpening {frame : Frame} {text : List Char} {outer : List Frame}
    (hopened : frame.OpenedIn options text outer) (hawaits : frame.region.awaitsClose) :
    (Diagnostic.ofOpenRegion frame).PointsAtOpening options text frame.region ∧
      frame.start.column + 1 ≤ text.length := by
  have hagain := hopened
  obtain ⟨before, delimiter, body, rfl, hdelimiter, hplace, -⟩ := hagain
  obtain ⟨c, rest, hfirst, hline⟩ := Region.exists_opener hawaits
  have hvisible : visible (before ++ delimiter ++ body) =
      visible before ++ [c] ++ (rest ++ visible body) := by
    rw [visible_append, visible_append, hdelimiter, hfirst]
    simp
  have hcovers := covers_of_visible hvisible hline
  have hcolumn := column_add_length_le hvisible
  rw [hplace] at hcovers hcolumn
  refine ⟨⟨c, outer, by rw [hfirst]; rfl, hcovers, ?_⟩, hcolumn⟩
  change Frame.OpenedIn ⟨frame.region, ⟨frame.start.line0 + 1, frame.start.column⟩⟩ options _ outer
  rwa [line0_of_placeAfter hplace]

theorem Occurrence.StandsIn.pointsAtKeyword {label : Occurrence} {text : List Char}
    (hstands : label.StandsIn options text) (hlength : text.length < counterMax) {decl : Unresolved}
    (hkeyword : decl.keyword = label.text) (hstart : decl.start = label.start) :
    (Diagnostic.ofUnresolved decl).PointsAtKeyword text decl ∧
      decl.start.column + decl.keyword.length ≤ text.length := by
  obtain ⟨before, after, hbegins, hvisible, hposition, -, -⟩ := hstands.placed
  have hplace : decl.start = placeAfter before := by
    rw [hstart, hposition, position_run before (Nat.lt_of_le_of_lt hbegins.length_le hlength)]
  rw [← hkeyword] at hvisible
  have hline : '\n' ∉ decl.keyword.toList := hkeyword ▸ hstands.newline_notMem
  have hcovers := covers_of_visible hvisible hline
  have hcolumn := column_add_length_le hvisible
  rw [← hplace, String.length_toList] at hcovers hcolumn
  exact ⟨⟨rfl, hcovers, line0_of_placeAfter hplace.symm⟩, hcolumn⟩

theorem regions_close (s : Scanner) : s.close.regions = s.regions := by
  unfold Scanner.close
  split_ifs
  · exact s.regions_complete
  · rfl

variable {text : String}

theorem openRegion_scan : (scan options text).openRegion =
    ((Scanner.start options).run text.toList).regions.openRegion? :=
  congrArg RegionStack.openRegion? (regions_close _)

theorem pointsAtOpening_of_openRegion (hlength : text.length < counterMax) {frame : Frame}
    (hopen : (scan options text).openRegion = some frame) :
    (Diagnostic.ofOpenRegion frame).PointsAtOpening options text.toList frame.region ∧
      frame.start.column + 1 ≤ text.length := by
  have hwithin : WithinCounters text.toList :=
    withinCounters_of_length (by rwa [String.length_toList])
  rw [openRegion_scan] at hopen
  obtain ⟨hawaits, inner, outer, hstack⟩ := RegionStack.exists_of_openRegion? hopen
  rw [← String.length_toList]
  exact (openedIn_run hwithin hstack hawaits).pointsAtOpening hawaits

theorem pointsAtKeyword_of_mem_unresolved (hlength : text.length < counterMax) {decl : Unresolved}
    (hdecl : decl ∈ (scan options text).unresolved) :
    (Diagnostic.ofUnresolved decl).PointsAtKeyword text.toList decl ∧
      decl.start.column + decl.keyword.length ≤ text.length := by
  obtain ⟨keyword, hmem, -, htext, hstart⟩ :=
    exists_label_of_mem_unresolved (tracks_close options text) hdecl
  rw [← String.length_toList] at hlength ⊢
  exact (standsIn_of_mem_scanTrace hmem).pointsAtKeyword hlength htext hstart

/-- **Diagnostics point at the right characters.** In a text of fewer characters than the largest
counter value, no counter leaves its range: not the parentheses, nor the labels, nor the columns of
diagnostics. There is a diagnostic about a region exactly if the text ends in a string, a block comment
or parentheses. It comes first, its problem is that of the innermost such region, and it covers the one
character that opened the region. All others are about unresolved declarations, in their order, and each
covers the keyword. -/
theorem scan_diagnostics_exact (options : ScanOptions) (text : String)
    (hlength : text.length < counterMax) :
    (∀ read, read <+: text.toList → ((Scanner.start options).run read).HasRoom) ∧
    (∀ diagnostic ∈ (scan options text).diagnostics, diagnostic.span.endColumn ≤ counterMax) ∧
    ∃ (opened : Option Diagnostic) (further : List Diagnostic),
      (scan options text).diagnostics = opened.toList ++ further ∧
      (opened = none ↔ ((Scanner.start options).feed text).regions.unclosed? = none) ∧
      (∀ diagnostic, opened = some diagnostic → ∃ region,
        ((Scanner.start options).feed text).regions.unclosed? = some (region, diagnostic.problem) ∧
          diagnostic.PointsAtOpening options text.toList region) ∧
      List.Forall₂ (·.PointsAtKeyword text.toList ·) further (scan options text).unresolved := by
  have hunclosed : ((Scanner.start options).feed text).regions.unclosed? =
      (scan options text).openRegion.map fun frame => (frame.region, frame.region.problem) := by
    rw [openRegion_scan]
    exact (Scanner.nested_run options text.toList).unclosed?_eq
  refine ⟨?_, ?_, (scan options text).openRegion.map .ofOpenRegion,
    (scan options text).unresolved.map .ofUnresolved, ?_, ?_, ?_, ?_⟩
  · intro read hread
    have hshort := hread.length_le
    rw [String.length_toList] at hshort
    exact hasRoom_run options (Nat.lt_of_le_of_lt hshort hlength)
  · intro diagnostic hdiagnostic
    obtain hregion | hkeyword := List.mem_append.mp hdiagnostic
    · obtain ⟨frame, hframe, rfl⟩ := List.mem_map.mp hregion
      have hcolumn := (pointsAtOpening_of_openRegion hlength (Option.mem_toList.mp hframe)).2
      exact hcolumn.trans hlength.le
    · obtain ⟨decl, hdecl, rfl⟩ := List.mem_map.mp hkeyword
      have hcolumn := (pointsAtKeyword_of_mem_unresolved hlength hdecl).2
      exact hcolumn.trans hlength.le
  · rw [Report.diagnostics, Option.toList_map]
  · rw [hunclosed, Option.map_eq_none_iff, Option.map_eq_none_iff]
  · intro diagnostic hopened
    obtain ⟨frame, hframe, rfl⟩ := Option.map_eq_some_iff.mp hopened
    refine ⟨frame.region, ?_, (pointsAtOpening_of_openRegion hlength hframe).1⟩
    rw [hunclosed, hframe]
    rfl
  · rw [List.forall₂_map_left_iff, List.forall₂_same]
    exact fun decl hdecl => (pointsAtKeyword_of_mem_unresolved hlength hdecl).1

/-- A comment within parentheses, with a carriage return in its delimiter, and a class without a body. -/
theorem scan_diagnostics_exact_comment_in_parens :
    let text := "<?php class A\n f((1), /\x0d* b"
    text.length < counterMax ∧
      (scan {} text).diagnostics =
        [⟨.onLine 1 8 9, .unterminatedComment⟩, ⟨.onLine 0 6 11, .unresolvedDeclaration .classDecl⟩] ∧
      Diagnostic.PointsAtOpening ⟨.onLine 1 8 9, .unterminatedComment⟩ {} text.toList .blockComment := by
  intro text
  have hlength : text.length < counterMax := by decide
  have hdiagnostics : (scan {} text).diagnostics =
      [⟨.onLine 1 8 9, .unterminatedComment⟩, ⟨.onLine 0 6 11, .unresolvedDeclaration .classDecl⟩] := by
    decide +kernel
  have hunclosed : ((Scanner.start {}).feed text).regions.unclosed? =
      some (.blockComment, .unterminatedComment) := by decide +kernel
  refine ⟨hlength, hdiagnostics, ?_⟩
  obtain ⟨-, -, opened, further, hall, hnone, hopened, -⟩ := scan_diagnostics_exact {} text hlength
  rw [hdiagnostics] at hall
  cases opened with
  | none => cases hunclosed.symm.trans (hnone.mp rfl)
  | some diagnostic =>
      obtain ⟨rfl, -⟩ := List.cons.inj hall
      obtain ⟨region, hregion, hpoints⟩ := hopened _ rfl
      obtain ⟨rfl, -⟩ := Prod.mk.inj (Option.some.inj (hunclosed.symm.trans hregion))
      exact hpoints

end Diagnostics

end PhpOutline
