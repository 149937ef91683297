import PhpOutline.Diagnostic
import PhpOutline.Proofs.Segments

/-!
# What the options of a scan change

The options say how many labels are remembered and whether interfaces are a kind of their own. Neither
has a part in reading characters: whatever the options, a text has the same events. What is made of the
events does depend on them. A smaller lookback forgets the keywords of longer headers, and loses those
declarations and no others. Interfaces that are not told apart are reported as classes, and all else
stays as it is, since classes and interfaces wait for the same terminator.
-/

namespace PhpOutline

attribute [ext] Report

/-! ## The events of a text -/

/-- Nothing is moved. -/
def Shift.zero : Shift := ⟨0, 0⟩

namespace Shift

theorem position_zero (p : Position) : zero.position p = p := by
  simp [position, zero]

theorem frame_zero : zero.frame = id := by
  funext frame
  simp [Shift.frame, position_zero]

theorem identifier_zero : zero.identifier = id := by
  funext ident
  simp [identifier, position_zero]

theorem event_zero : zero.event = id := by
  funext event
  cases event <;> simp [Shift.event, occurrence, position_zero]

theorem lexing_zero (view : Lexing) : zero.lexing view = view := by
  simp [lexing, regions, frame_zero, identifier_zero, position_zero]

/-- Scanners that are not apart know the same of characters. -/
theorem moves_zero_iff {s t : Scanner} : zero.Moves s t ↔ t.lexing = s.lexing := by
  rw [Moves, lexing_zero]

end Shift

namespace Scanner

section SameLexing

variable {s t : Scanner}

/-- **One step of two scanners.** If they know the same of characters, they still do after the next
character, and it has the same events for both. -/
theorem lexing_step (hlexing : t.lexing = s.lexing) (c : Char) :
    (t.step c).lexing = (s.step c).lexing ∧ t.emits c = s.emits c := by
  have hmoves := Shift.moves_zero_iff.mpr hlexing
  have hposition : t.position = s.position := congrArg Lexing.position hlexing
  constructor
  · apply Shift.moves_zero_iff.mp
    apply hmoves.step
    · intro _
      simp only [Shift.MovesBack, Shift.position_zero]
    · rw [Shift.position_zero, position_step, position_step, hposition]
  · rw [hmoves.emits_eq, Shift.event_zero, List.map_id]

theorem lexing_run (hlexing : t.lexing = s.lexing) (text : List Char) :
    (t.run text).lexing = (s.run text).lexing ∧ t.trace text = s.trace text := by
  induction text generalizing s t with
  | nil => exact ⟨hlexing, rfl⟩
  | cons c rest ih =>
      obtain ⟨hstep, hemits⟩ := lexing_step hlexing c
      obtain ⟨hrun, htrace⟩ := ih hstep
      exact ⟨hrun, by rw [trace, trace, hemits, htrace]⟩

theorem lexing_close (hlexing : t.lexing = s.lexing) :
    t.close.lexing = s.close.lexing ∧ t.closing = s.closing := by
  have hmoves := Shift.moves_zero_iff.mpr hlexing
  constructor
  · exact Shift.moves_zero_iff.mp hmoves.close
  · rw [hmoves.closing_eq, Shift.event_zero, List.map_id]

end SameLexing

theorem lexing_start (first second : ScanOptions) : (start first).lexing = (start second).lexing := rfl

/-- What a text leaves to know of characters does not depend on the options. -/
theorem lexing_feed (first second : ScanOptions) (text : String) :
    ((start first).feed text).lexing = ((start second).feed text).lexing :=
  (lexing_run (lexing_start first second) text.toList).1

end Scanner

theorem scanTrace_eq (first second : ScanOptions) (text : String) :
    scanTrace first text = scanTrace second text := by
  have htrace : (Scanner.start first).trace text.toList = (Scanner.start second).trace text.toList :=
    (Scanner.lexing_run (Scanner.lexing_start first second) text.toList).2
  rw [scanTrace, scanTrace, htrace, (Scanner.lexing_close (Scanner.lexing_feed first second text)).2]

/-- Neither the region left open nor the number of lines depends on the options. -/
theorem openRegion_lines_scan (first second : ScanOptions) (text : String) :
    (scan first text).openRegion = (scan second text).openRegion ∧
      (scan first text).lines = (scan second text).lines := by
  have hlexing := (Scanner.lexing_close (Scanner.lexing_feed first second text)).1
  exact ⟨congrArg (fun view => view.regions.openRegion?) hlexing,
    congrArg (fun view => view.position.line) hlexing⟩

/-! ## Lookback -/

/-- All labels of the events can be remembered. -/
def ScanOptions.Reaches (options : ScanOptions) (events : List Event) : Prop :=
  (labelsOf events).length ≤ max options.lookbackCapacity 2

instance (options : ScanOptions) (events : List Event) : Decidable (options.Reaches events) :=
  inferInstanceAs (Decidable (_ ≤ _))

theorem ScanOptions.Reaches.of_suffix {options : ScanOptions} {events suffix : List Event}
    (hreaches : options.Reaches events) (hsuffix : suffix <:+ events) : options.Reaches suffix :=
  (hsuffix.sublist.filterMap Event.label?).length_le.trans hreaches

section Tails

variable {few : ScanOptions} {α : Type} {f g : List Event → Option α}
  (hfewer : ∀ suffix, f suffix = if few.Reaches suffix then g suffix else none)
include hfewer

theorem filterMap_tails_sublist (events : List Event) :
    (events.tails.filterMap f).Sublist (events.tails.filterMap g) := by
  have hfilter : events.tails.filterMap f =
      (events.tails.filter fun suffix => few.Reaches suffix).filterMap g := by
    rw [List.filterMap_filter]
    refine List.filterMap_congr fun suffix _ => ?_
    simp [hfewer]
  rw [hfilter]
  exact List.filter_sublist.filterMap g

theorem filterMap_tails_of_reaches {events : List Event} (hreaches : few.Reaches events) :
    events.tails.filterMap f = events.tails.filterMap g := by
  refine List.filterMap_congr fun suffix hsuffix => ?_
  rw [hfewer, if_pos (hreaches.of_suffix ((List.mem_tails _ _).mp hsuffix))]

end Tails

section Lookback

variable {few many : ScanOptions} (hkinds : few.distinctInterfaces = many.distinctInterfaces)
  (hmore : max few.lookbackCapacity 2 ≤ max many.lookbackCapacity 2)
include hkinds hmore

/-- The smaller lookback finds a declaration just if the larger one does and its header is within
reach. -/
theorem declaration?_of_fewer (terminator : Terminator) (braceDepth : Nat) (suffix : List Event) :
    declaration? few terminator braceDepth suffix =
      if few.Reaches suffix then declaration? many terminator braceDepth suffix else none := by
  match suffix with
  | [] => simp [declaration?]
  | .terminator _ _ :: _ => simp [declaration?]
  | .semicolon :: _ => simp [declaration?]
  | .label keyword :: between =>
      have hreach : few.Reaches (.label keyword :: between) ↔
          (labelsOf between).length + 1 ≤ max few.lookbackCapacity 2 := Iff.rfl
      simp only [declaration?, hkinds, hreach]
      generalize labelsOf between = labels
      cases keyword.keywordKind? many.distinctInterfaces with
      | none => simp
      | some kind =>
          cases labels with
          | nil => simp
          | cons name others =>
              by_cases hothers : others.length + 2 ≤ max few.lookbackCapacity 2
              · simp [hothers, hothers.trans hmore]
              · simp [hothers]

theorem unresolvedAt?_of_fewer (suffix : List Event) :
    unresolvedAt? few suffix =
      if few.Reaches suffix then unresolvedAt? many suffix else none := by
  match suffix with
  | [] => simp [unresolvedAt?]
  | .terminator _ _ :: _ => simp [unresolvedAt?]
  | .semicolon :: _ => simp [unresolvedAt?]
  | .label keyword :: after =>
      have hreach : few.Reaches (.label keyword :: after) ↔
          (labelsOf after).length + 1 ≤ max few.lookbackCapacity 2 := Iff.rfl
      simp only [unresolvedAt?, hkinds, hreach]
      cases keyword.keywordKind? many.distinctInterfaces with
      | none => simp
      | some kind =>
          by_cases hafter : (labelsOf after).length + 1 ≤ max few.lookbackCapacity 2
          · simp [hafter, hafter.trans hmore]
          · simp [hafter]

theorem declarations_sublist (events : List Event) :
    (declarations few events).Sublist (declarations many events) := by
  induction events using List.reverseRecOn with
  | nil => exact List.Sublist.slnil
  | append_singleton events event ih =>
      rw [declarations_concat, declarations_concat]
      refine ih.append ?_
      cases event with
      | label _ => exact List.Sublist.slnil
      | semicolon => exact List.Sublist.slnil
      | terminator terminator braceDepth =>
          exact filterMap_tails_sublist (declaration?_of_fewer hkinds hmore terminator braceDepth) events

theorem declarations_of_reaches {events : List Event} (hreaches : few.Reaches events) :
    declarations few events = declarations many events := by
  induction events using List.reverseRecOn with
  | nil => rfl
  | append_singleton events event ih =>
      have hbefore : few.Reaches events := by
        unfold ScanOptions.Reaches at hreaches ⊢
        rw [labelsOf_append, List.length_append] at hreaches
        omega
      rw [declarations_concat, declarations_concat, ih hbefore]
      congr 1
      cases event with
      | label _ => rfl
      | semicolon => rfl
      | terminator terminator braceDepth =>
          exact filterMap_tails_of_reaches (declaration?_of_fewer hkinds hmore terminator braceDepth)
            hbefore

variable {text : String}

theorem WithinCounters.symbols_scan_sublist (hwithin : WithinCounters text.toList) :
    (scan few text).symbols.Sublist (scan many text).symbols := by
  rw [hwithin.symbols_scan, hwithin.symbols_scan, scanTrace_eq many few]
  exact declarations_sublist hkinds hmore _

theorem unresolved_scan_sublist :
    (scan few text).unresolved.Sublist (scan many text).unresolved := by
  rw [unresolved_scan, unresolved_scan, scanTrace_eq many few]
  exact filterMap_tails_sublist (unresolvedAt?_of_fewer hkinds hmore) _

/-- If all labels can be remembered, to remember more makes no difference. -/
theorem WithinCounters.scan_of_reaches (hwithin : WithinCounters text.toList)
    (hreaches : few.Reaches (scanTrace few text)) : scan few text = scan many text := by
  have hsymbols : (scan few text).symbols = (scan many text).symbols := by
    rw [hwithin.symbols_scan, hwithin.symbols_scan, scanTrace_eq many few]
    exact declarations_of_reaches hkinds hmore hreaches
  have hunresolved : (scan few text).unresolved = (scan many text).unresolved := by
    rw [unresolved_scan, unresolved_scan, scanTrace_eq many few]
    exact filterMap_tails_of_reaches (unresolvedAt?_of_fewer hkinds hmore) hreaches
  obtain ⟨hregion, hlines⟩ := openRegion_lines_scan few many text
  exact Report.ext hsymbols hregion hunresolved hlines

end Lookback

/-- The labels recorded by the end of a text are those of its trace. -/
theorem lookback_next_scan (options : ScanOptions) (text : String) :
    ((Scanner.start options).feed text).close.lookback.next =
      (labelsOf (scanTrace options text)).length := by
  rw [← List.length_mapIdx (f := Occurrence.toLabel)]
  exact (tracks_close options text).remembers.next_eq

/-- **A larger lookback.** It finds all that a smaller one finds, in the same order, and more at most;
the region left open and the number of lines are the same. If the smaller one has room for all labels
of the text, the reports are equal. -/
theorem scan_larger_lookback (options : ScanOptions) (larger : Nat) (text : String)
    (hlength : text.length < counterMax)
    (hlarger : max options.lookbackCapacity 2 ≤ max larger 2) :
    let few := scan options text
    let many := scan { options with lookbackCapacity := larger } text
    few.symbols.Sublist many.symbols ∧ few.unresolved.Sublist many.unresolved ∧
      few.openRegion = many.openRegion ∧ few.lines = many.lines ∧
      (((Scanner.start options).feed text).close.lookback.next ≤ max options.lookbackCapacity 2 →
        few = many) := by
  intro few many
  have hwithin : WithinCounters text.toList := by
    apply withinCounters_of_length
    rwa [String.length_toList]
  have hkinds : options.distinctInterfaces =
      ({ options with lookbackCapacity := larger } : ScanOptions).distinctInterfaces := rfl
  obtain ⟨hregion, hlines⟩ :=
    openRegion_lines_scan options { options with lookbackCapacity := larger } text
  refine ⟨hwithin.symbols_scan_sublist hkinds hlarger, unresolved_scan_sublist hkinds hlarger,
    hregion, hlines, ?_⟩
  intro hroom
  rw [lookback_next_scan] at hroom
  exact hwithin.scan_of_reaches hkinds hlarger hroom

/-- The class and the interface have headers of four labels each: with room for three, one is missed at
its brace and the other one at the end of the text. Room for all eight labels is as good as any. -/
theorem scan_larger_lookback_long_headers :
    let text := "<?php class A extends B \x7b interface I extends J"
    (scan ⟨true, 3, 1⟩ text).symbols.Sublist [⟨"A", .classDecl, 1, 12, 13, 0⟩] ∧
      (scan ⟨true, 3, 1⟩ text).unresolved.Sublist [⟨"interface", .interfaceDecl, ⟨1, 26⟩⟩] ∧
      (scan ⟨true, 3, 1⟩ text).symbols = [] ∧ (scan ⟨true, 3, 1⟩ text).unresolved = [] ∧
      scan ⟨true, 8, 1⟩ text = scan ⟨true, 128, 1⟩ text := by
  intro text
  have hlength : text.length < counterMax := by decide
  obtain ⟨hsymbols, hunresolved, -⟩ := scan_larger_lookback ⟨true, 3, 1⟩ 4 text hlength (by decide)
  obtain ⟨-, -, -, -, hroom⟩ := scan_larger_lookback ⟨true, 8, 1⟩ 128 text hlength (by decide)
  have hfour : (scan ⟨true, 4, 1⟩ text).symbols = [⟨"A", .classDecl, 1, 12, 13, 0⟩] ∧
      (scan ⟨true, 4, 1⟩ text).unresolved = [⟨"interface", .interfaceDecl, ⟨1, 26⟩⟩] := by
    decide +kernel
  exact ⟨hfour.1 ▸ hsymbols, hfour.2 ▸ hunresolved, by decide +kernel, by decide +kernel,
    hroom (by decide +kernel)⟩

/-! ## Interfaces -/

/-- The kind of a declaration if interfaces count as classes. -/
def Kind.mergeInterfaces : Kind → Kind
  | interfaceDecl => classDecl
  | kind => kind

def Symbol.mergeInterfaces (symbol : Symbol) : Symbol :=
  { symbol with kind := symbol.kind.mergeInterfaces }

def Unresolved.mergeInterfaces (decl : Unresolved) : Unresolved :=
  { decl with kind := decl.kind.mergeInterfaces }

/-- The report with every interface turned into a class. -/
def Report.mergeInterfaces (report : Report) : Report :=
  { report with
    symbols := report.symbols.map Symbol.mergeInterfaces
    unresolved := report.unresolved.map Unresolved.mergeInterfaces }

def Intent.mergeInterfaces (intent : Intent) : Intent :=
  { intent with kind := intent.kind.mergeInterfaces }

/-- The recognizer as it would be if interfaces had counted as classes all along. -/
def Recognizer.mergeInterfaces (r : Recognizer) : Recognizer where
  options := { r.options with distinctInterfaces := false }
  intents := ⟨r.intents.waiting.map Intent.mergeInterfaces⟩
  lookback := r.lookback
  symbols := r.symbols.map Symbol.mergeInterfaces

theorem Kind.terminator_mergeInterfaces (kind : Kind) :
    kind.mergeInterfaces.terminator = kind.terminator := by
  cases kind <;> rfl

theorem keywordKind?_false (distinctInterfaces : Bool) (word : String) :
    keywordKind? false word = (keywordKind? distinctInterfaces word).map Kind.mergeInterfaces := by
  simp only [keywordKind?, Bool.false_eq_true, if_false]
  split_ifs <;> rfl

theorem Occurrence.keywordKind?_false (distinctInterfaces : Bool) (label : Occurrence) :
    label.keywordKind? false = (label.keywordKind? distinctInterfaces).map Kind.mergeInterfaces := by
  unfold Occurrence.keywordKind?
  split_ifs
  · exact PhpOutline.keywordKind?_false distinctInterfaces label.text
  · rfl

namespace Recognizer

theorem filter_mergeInterfaces (p : Terminator → Bool) (intents : List Intent) :
    (intents.map Intent.mergeInterfaces).filter (p ·.terminator) =
      (intents.filter (p ·.terminator)).map Intent.mergeInterfaces := by
  rw [List.filter_map]
  congr 2
  funext intent
  exact congrArg p intent.kind.terminator_mergeInterfaces

theorem declared?_mergeInterfaces (lookback : Lookback) (braceDepth : Nat) (intent : Intent) :
    declared? lookback braceDepth intent.mergeInterfaces =
      (declared? lookback braceDepth intent).map Symbol.mergeInterfaces := by
  simp only [declared?, Option.map_map]
  rfl

/-- **One event.** Classes and interfaces wait for the same terminator, so it makes no difference to the
queue whether they are told apart. -/
theorem take_mergeInterfaces (r : Recognizer) (event : Event) :
    r.mergeInterfaces.take event = (r.take event).mergeInterfaces := by
  cases event with
  | label occurrence =>
      simp only [take, mergeInterfaces, occurrence.keywordKind?_false r.options.distinctInterfaces]
      cases occurrence.keywordKind? r.options.distinctInterfaces with
      | none => rfl
      | some kind => simp [IntentQueue.push, Intent.mergeInterfaces]
  | terminator terminator braceDepth =>
      have hsettle := filter_mergeInterfaces (· != terminator) r.intents.waiting
      have hconfirm := filter_mergeInterfaces (· == terminator) r.intents.waiting
      simp only [take, mergeInterfaces, IntentQueue.settle, IntentQueue.confirmedBy, hsettle, hconfirm,
        List.filterMap_map, List.map_append, List.map_filterMap]
      congr 3
      funext intent
      exact declared?_mergeInterfaces r.lookback braceDepth intent
  | semicolon => rfl

theorem takeAll_mergeInterfaces (r : Recognizer) (events : List Event) :
    r.mergeInterfaces.takeAll events = (r.takeAll events).mergeInterfaces := by
  induction events generalizing r with
  | nil => rfl
  | cons event events ih =>
      calc r.mergeInterfaces.takeAll (event :: events)
          = (r.take event).mergeInterfaces.takeAll events := by
            rw [← take_mergeInterfaces]
            rfl
        _ = (r.takeAll (event :: events)).mergeInterfaces := ih (r.take event)

/-- The unresolved declarations of the keywords that wait. -/
def unresolved (r : Recognizer) : List Unresolved :=
  r.intents.waiting.filterMap fun intent =>
    (r.lookback.get? intent.keyword).map fun label => ⟨label.text, intent.kind, label.start⟩

theorem unresolved_mergeInterfaces (r : Recognizer) :
    r.mergeInterfaces.unresolved = r.unresolved.map Unresolved.mergeInterfaces := by
  simp only [unresolved, mergeInterfaces, List.filterMap_map, List.map_filterMap, Option.map_map]
  rfl

end Recognizer

theorem recognizer_close_mergeInterfaces (options : ScanOptions) (text : String) :
    ((Scanner.start { options with distinctInterfaces := false }).feed text).close.recognizer =
      (((Scanner.start { options with distinctInterfaces := true }).feed
        text).close.recognizer).mergeInterfaces := by
  have hstart : Recognizer.start { options with distinctInterfaces := false } =
      (Recognizer.start { options with distinctInterfaces := true }).mergeInterfaces := rfl
  rw [recognizer_scan, recognizer_scan, ← Recognizer.takeAll_mergeInterfaces, ← hstart,
    scanTrace_eq { options with distinctInterfaces := true }]

/-! ### Diagnostics -/

/-- What a problem is, whatever the declaration that it is about. -/
inductive Problem.Category where
  | unterminatedString
  | unterminatedComment
  | unclosedParenthesis
  | unresolvedDeclaration
deriving DecidableEq, Repr

def Problem.category : Problem → Problem.Category
  | unterminatedString => .unterminatedString
  | unterminatedComment => .unterminatedComment
  | unclosedParenthesis => .unclosedParenthesis
  | unresolvedDeclaration _ => .unresolvedDeclaration

/-- A diagnostic without the kind of the declaration that it may be about. -/
def Diagnostic.withoutKind (diagnostic : Diagnostic) : Span × Problem.Category :=
  (diagnostic.span, diagnostic.problem.category)

theorem diagnostics_mergeInterfaces (report : Report) :
    report.mergeInterfaces.diagnostics.map Diagnostic.withoutKind =
      report.diagnostics.map Diagnostic.withoutKind := by
  simp only [Report.diagnostics, Report.mergeInterfaces, List.map_append, List.map_map]
  rfl

/-- **Interfaces as classes.** If interfaces are not told apart, every interface in the report is a
class, and nothing else is different. Diagnostics are at the same places, and about problems of the same
category. -/
theorem scan_mergeInterfaces (options : ScanOptions) (text : String) :
    let merged := scan { options with distinctInterfaces := false } text
    let distinct := scan { options with distinctInterfaces := true } text
    merged = distinct.mergeInterfaces ∧
      merged.diagnostics.map Diagnostic.withoutKind =
        distinct.diagnostics.map Diagnostic.withoutKind := by
  intro merged distinct
  have hrecognizer := recognizer_close_mergeInterfaces options text
  have hsymbols : merged.symbols = distinct.symbols.map Symbol.mergeInterfaces :=
    congrArg Recognizer.symbols hrecognizer
  have hunresolved : merged.unresolved = distinct.unresolved.map Unresolved.mergeInterfaces :=
    (congrArg Recognizer.unresolved hrecognizer).trans (Recognizer.unresolved_mergeInterfaces _)
  obtain ⟨hregion, hlines⟩ := openRegion_lines_scan { options with distinctInterfaces := false }
    { options with distinctInterfaces := true } text
  have hreport : merged = distinct.mergeInterfaces := Report.ext hsymbols hregion hunresolved hlines
  exact ⟨hreport, by rw [hreport, diagnostics_mergeInterfaces]⟩

end PhpOutline
