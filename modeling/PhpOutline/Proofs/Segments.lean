import PhpOutline.Proofs.Nesting
import PhpOutline.Proofs.ParallelRuns
import PhpOutline.Proofs.ReportPlaces

/-!
# Texts that are finished

A text may end on the page with every declaration settled and every brace closed. What follows is then
scanned as if it stood alone, only at other places: the scanner remembers labels of the first text, and
numbers those of the second one from where it is, but no keyword of the second text is ever paired with
a label of the first. The two runs over the second text are compared twice. What they know of
characters differs in places only, so they have the same events, at other places. What they make of the
events is read off the trace, where the settled keywords of the first text count for nothing.
-/

namespace PhpOutline

/-- How far a text is moved by another one before it: the line breaks of that one, and the columns of
its last line. -/
structure Shift where
  lines : Nat
  columns : Nat
deriving DecidableEq, Repr

namespace Shift

variable (shift : Shift)

/-- Columns change on the first line only. -/
def position (p : Position) : Position :=
  ⟨p.line + shift.lines, if p.line = 1 then p.column + shift.columns else p.column⟩

def frame (frame : Frame) : Frame := { frame with start := shift.position frame.start }

def symbol (symbol : Symbol) : Symbol :=
  { symbol with
    line := symbol.line + shift.lines
    startColumn := (shift.position ⟨symbol.line, symbol.startColumn⟩).column
    endColumn := (shift.position ⟨symbol.line, symbol.endColumn⟩).column }

def unresolved (decl : Unresolved) : Unresolved := { decl with start := shift.position decl.start }

def identifier (ident : Identifier) : Identifier :=
  { ident with start := shift.position ident.start }

def occurrence (label : Occurrence) : Occurrence :=
  { label with start := shift.position label.start }

def event : Event → Event
  | .label label => .label (shift.occurrence label)
  | .terminator terminator braceDepth => .terminator terminator braceDepth
  | .semicolon => .semicolon

def regions (stack : RegionStack) : RegionStack := ⟨stack.inner.map shift.frame⟩

/-- The place one column to the left is moved along with the place. -/
def MovesBack (p : Position) : Prop := (shift.position p).prevColumn = shift.position p.prevColumn

theorem movesBack {p : Position} (hcolumn : 0 < p.column) : shift.MovesBack p := by
  unfold MovesBack position Position.prevColumn
  by_cases hline : p.line = 1
  · simp only [hline, if_true, Nat.sub_add_comm hcolumn]
  · simp only [hline, if_false]

end Shift

/-! ## Characters -/

/-- The part of the scanner that deals with characters. -/
structure Lexing where
  regions : RegionStack
  tag : List Char
  lead : Option Char
  recent : Option Char × Option Char
  pending : Option Identifier
  position : Position
  braceDepth : Nat

def Scanner.lexing (s : Scanner) : Lexing :=
  ⟨s.regions, s.tag, s.lead, s.recent, s.pending, s.position, s.braceDepth⟩

def Shift.lexing (shift : Shift) (view : Lexing) : Lexing :=
  { view with
    regions := shift.regions view.regions
    pending := view.pending.map shift.identifier
    position := shift.position view.position }

/-- The second scanner knows of characters what the first one knows, at other places. -/
def Shift.Moves (shift : Shift) (s t : Scanner) : Prop := t.lexing = shift.lexing s.lexing

section Regions

variable (shift : Shift) (stack : RegionStack)

theorem Shift.current_regions : (shift.regions stack).current = stack.current := by
  cases h : stack.inner <;> simp [Shift.regions, RegionStack.current, RegionStack.top, Shift.frame, h]

theorem Shift.pop_regions : (shift.regions stack).pop = shift.regions stack.pop := by
  simp [Shift.regions, RegionStack.pop]

theorem Shift.replace_regions (region : Region) :
    (shift.regions stack).replace region = shift.regions (stack.replace region) := by
  cases h : stack.inner <;> simp [Shift.regions, RegionStack.replace, Shift.frame, h]

theorem Shift.openRegion?_regions :
    (shift.regions stack).openRegion? = stack.openRegion?.map shift.frame := by
  have hpage : [Frame.page].find? (·.region.awaitsClose) = none := rfl
  have hframe : (·.region.awaitsClose) ∘ shift.frame = (·.region.awaitsClose) := rfl
  simp only [RegionStack.openRegion?, RegionStack.frames, Shift.regions, List.find?_append,
    List.find?_map, hpage, hframe, Option.or_none]

end Regions

theorem Scanner.lexing_complete (s : Scanner) :
    s.complete.lexing = { s.lexing with pending := none } := by
  unfold complete
  split
  · rename_i hpending
    simp only [lexing, hpending]
  · rfl

def Lexing.extend (c : Char) (view : Lexing) : Lexing :=
  { view with
    pending := some <| view.pending.elim ⟨[c], view.position, view.recent⟩ fun ident =>
      { ident with text := ident.text ++ [c] } }

theorem Scanner.lexing_extend (s : Scanner) (c : Char) :
    (s.extend c).lexing = Lexing.extend c s.lexing := by
  cases hpending : s.pending <;> simp [Scanner.extend, Lexing.extend, lexing, hpending]

namespace Shift.Moves

variable {shift : Shift} {s t : Scanner} {c : Char}

theorem region_eq (hmoves : shift.Moves s t) : t.region = s.region := by
  have hregions : t.regions = shift.regions s.regions := congrArg Lexing.regions hmoves
  rw [Scanner.region, hregions, shift.current_regions]
  rfl

theorem lead_eq (hmoves : shift.Moves s t) : t.lead = s.lead := congrArg Lexing.lead hmoves

/-- The same change of both scanners, if it is also the same at another place. -/
theorem update (hmoves : shift.Moves s t) {s' t' : Scanner} (f : Lexing → Lexing)
    (hs : s'.lexing = f s.lexing) (ht : t'.lexing = f t.lexing)
    (hf : f (shift.lexing s.lexing) = shift.lexing (f s.lexing)) : shift.Moves s' t' := by
  unfold Moves
  rw [ht, hs, ← hf]
  exact congrArg f hmoves

theorem withLead (hmoves : shift.Moves s t) (lead : Option Char) :
    shift.Moves { s with lead } { t with lead } :=
  hmoves.update (fun view => { view with lead }) rfl rfl rfl

theorem withTag (hmoves : shift.Moves s t) (tag : List Char) :
    shift.Moves { s with tag } { t with tag } :=
  hmoves.update (fun view => { view with tag }) rfl rfl rfl

theorem note (hmoves : shift.Moves s t) : shift.Moves (s.note c) (t.note c) :=
  hmoves.update (fun view => { view with recent := (some c, view.recent.1) }) rfl rfl rfl

theorem openBrace (hmoves : shift.Moves s t) : shift.Moves s.openBrace t.openBrace :=
  hmoves.update (fun view => { view with braceDepth := satAdd view.braceDepth 1 }) rfl rfl rfl

theorem closeBrace (hmoves : shift.Moves s t) : shift.Moves s.closeBrace t.closeBrace :=
  hmoves.update (fun view => { view with braceDepth := view.braceDepth - 1 }) rfl rfl rfl

theorem enter (hmoves : shift.Moves s t) (region : Region) :
    shift.Moves (s.enter region) (t.enter region) :=
  hmoves.update (fun view => { view with regions := view.regions.push ⟨region, view.position⟩ })
    rfl rfl rfl

theorem enterAtLead (hmoves : shift.Moves s t) (hback : shift.MovesBack s.position) (region : Region) :
    shift.Moves (s.enterAtLead region) (t.enterAtLead region) := by
  have hplace : (shift.position s.position).prevColumn = shift.position s.position.prevColumn := hback
  refine hmoves.update
    (fun view => { view with regions := view.regions.push ⟨region, view.position.prevColumn⟩ })
    rfl rfl ?_
  simp only [Shift.lexing, Scanner.lexing, hplace]
  rfl

theorem leave (hmoves : shift.Moves s t) : shift.Moves s.leave t.leave := by
  refine hmoves.update (fun view => { view with regions := view.regions.pop }) rfl rfl ?_
  simp only [Shift.lexing, shift.pop_regions]

theorem replace (hmoves : shift.Moves s t) (region : Region) :
    shift.Moves { s with regions := s.regions.replace region }
      { t with regions := t.regions.replace region } := by
  refine hmoves.update (fun view => { view with regions := view.regions.replace region }) rfl rfl ?_
  simp only [Shift.lexing, shift.replace_regions]

theorem complete (hmoves : shift.Moves s t) : shift.Moves s.complete t.complete :=
  hmoves.update (fun view => { view with pending := none }) s.lexing_complete t.lexing_complete rfl

theorem extend (hmoves : shift.Moves s t) : shift.Moves (s.extend c) (t.extend c) := by
  refine hmoves.update (Lexing.extend c) (s.lexing_extend c) (t.lexing_extend c) ?_
  cases hpending : s.pending <;>
    simp [Lexing.extend, Shift.lexing, Scanner.lexing, Shift.identifier, hpending]

theorem enterCode (hmoves : shift.Moves s t) : shift.Moves s.enterCode t.enterCode :=
  (hmoves.enter .code).update
    (fun view => { view with tag := [], lead := none, recent := (none, none) }) rfl rfl rfl

theorem leaveCode (hmoves : shift.Moves s t) : shift.Moves s.leaveCode t.leaveCode :=
  hmoves.complete.update
    (fun view => { view with regions := .outermost, tag := [], lead := none, recent := (none, none) })
    rfl rfl rfl

theorem withoutPending (hmoves : shift.Moves s t) :
    shift.Moves { s with pending := none } { t with pending := none } :=
  hmoves.update (fun view => { view with pending := none }) rfl rfl rfl

theorem withPosition (hmoves : shift.Moves s t) {p q : Position} (hplace : q = shift.position p) :
    shift.Moves { s with position := p } { t with position := q } := by
  subst hplace
  exact congrArg (fun view : Lexing => { view with position := shift.position p }) hmoves

theorem isParallel (shift : Shift) : Scanner.IsParallel shift.Moves where
  region_eq := region_eq
  tag_eq := congrArg Lexing.tag
  lead_eq := lead_eq
  withTag := withTag
  withLead := withLead
  withoutPending := withoutPending
  enter := enter
  leave := leave
  replace := replace
  note hmoves _ := hmoves.note
  openBrace := openBrace
  closeBrace := closeBrace
  extend hmoves _ := hmoves.extend
  complete := complete
  -- What is made of the events is no part of the comparison.
  confirm hmoves _ := hmoves
  cancel hmoves := hmoves
  enterCode := enterCode
  leaveCode := leaveCode

/-- **One step of two scanners.** They keep apart by the same shift, provided that their places do. -/
theorem step (hmoves : shift.Moves s t) (hback : s.lead ≠ none → shift.MovesBack s.position)
    (hplace : (t.step c).position = shift.position (s.step c).position) :
    shift.Moves (s.step c) (t.step c) := by
  apply (isParallel shift).step hmoves
  · intro hlead region
    exact (hmoves.withLead none).enterAtLead (hback hlead) region
  · intro s' t' hmoves'
    exact hmoves'.withPosition hplace

theorem close (hmoves : shift.Moves s t) : shift.Moves s.close t.close :=
  (isParallel shift).close hmoves

/-! ### Events -/

theorem completion_eq (hmoves : shift.Moves s t) : t.completion = s.completion.map shift.event := by
  have hpending : t.pending = s.pending.map shift.identifier := congrArg Lexing.pending hmoves
  have hdepth : t.braceDepth = s.braceDepth := congrArg Lexing.braceDepth hmoves
  unfold Scanner.completion
  rw [hpending, hdepth]
  cases s.pending <;> rfl

theorem mark_eq (hmoves : shift.Moves s t) : t.mark c = (s.mark c).map shift.event := by
  have hdepth : t.braceDepth = s.braceDepth := congrArg Lexing.braceDepth hmoves
  unfold Scanner.mark
  rw [hdepth]
  split <;> rfl

theorem emits_eq (hmoves : shift.Moves s t) : t.emits c = (s.emits c).map shift.event := by
  have hclose : t.closesTag c ↔ s.closesTag c := by
    rw [Scanner.closesTag, hmoves.lead_eq]
    rfl
  have hopen : t.opensComment c ↔ s.opensComment c := by
    rw [Scanner.opensComment, hmoves.lead_eq]
    rfl
  unfold Scanner.emits
  rw [hmoves.region_eq]
  cases s.region with
  | code =>
      simp only [hclose, hopen, hmoves.completion_eq, hmoves.mark_eq,
        apply_ite (List.map shift.event), List.map_append, List.map_nil]
  | parens nested =>
      simp only [hclose, hmoves.completion_eq, apply_ite (List.map shift.event), List.map_nil]
  | lineComment =>
      simp only [hclose, hmoves.completion_eq, apply_ite (List.map shift.event), List.map_nil]
  | _ => simp only [ite_self, List.map_nil]

theorem closing_eq (hmoves : shift.Moves s t) : t.closing = s.closing.map shift.event := by
  simp only [Scanner.closing, hmoves.region_eq, hmoves.completion_eq,
    apply_ite (List.map shift.event), List.map_nil]

end Shift.Moves

/-! ## Settled keywords -/

section Settled

variable {options : ScanOptions} {first second suffix : List Event} {total : Nat}

/-- A keyword that has stopped waiting does not wait later on either. -/
theorem waiting?_append (hnone : waiting? options total suffix = none) (hne : suffix ≠ []) :
    waiting? options total (suffix ++ second) = none := by
  match suffix with
  | [] => exact absurd rfl hne
  | .terminator _ _ :: _ => rfl
  | .semicolon :: _ => rfl
  | .label keyword :: after =>
      simp only [List.cons_append, waiting?, List.any_append] at hnone ⊢
      cases hkind : keyword.keywordKind? options.distinctInterfaces with
      | none => rfl
      | some kind =>
          have hsettled : after.any (·.settles kind.terminator) = true := by
            by_contra hopen
            simp [hkind, hopen] at hnone
          simp [hsettled]

theorem declaration?_of_waiting? (hnone : waiting? options total suffix = none)
    (terminator : Terminator) (braceDepth : Nat) :
    declaration? options terminator braceDepth suffix = none := by
  rw [Option.eq_none_iff_forall_ne_some]
  intro symbol hsymbol
  obtain ⟨keyword, between, name, others, kind, rfl, hkind, rfl, hopen, -⟩ :=
    declaration?_eq_some hsymbol
  simp [waiting?, hkind, hopen] at hnone

theorem unresolvedAt?_of_waiting? (hnone : waiting? options total suffix = none) :
    unresolvedAt? options suffix = none := by
  rw [Option.eq_none_iff_forall_ne_some]
  intro decl hdecl
  obtain ⟨keyword, after, kind, rfl, hkind, hopen, -⟩ := unresolvedAt?_eq_some hdecl
  simp [waiting?, hkind, hopen] at hnone

/-- What needs a waiting keyword is found in the second part of a trace only, if in the first part no
keyword is left waiting. -/
theorem filterMap_tails_of_outstanding {α : Type} {f : List Event → Option α}
    (hf : ∀ suffix, waiting? options (labelsOf first).length suffix = none → f suffix = none)
    (hnone : outstanding options first = []) :
    (first ++ second).tails.filterMap f = second.tails.filterMap f := by
  refine filterMap_tails_append fun tail htail hne => hf _ (waiting?_append ?_ hne)
  exact List.filterMap_eq_nil_iff.mp hnone tail ((List.mem_tails _ _).mpr htail)

/-- The declarations of a trace are those of its two parts, if in the first part no keyword is left
waiting. -/
theorem declarations_append (hnone : outstanding options first = []) :
    declarations options (first ++ second) =
      declarations options first ++ declarations options second := by
  induction second using List.reverseRecOn with
  | nil => simp [declarations]
  | append_singleton second event ih =>
      have hevent : declarationsAt options (first ++ second) event =
          declarationsAt options second event := by
        cases event with
        | label _ => rfl
        | semicolon => rfl
        | terminator terminator braceDepth =>
            apply filterMap_tails_of_outstanding _ hnone
            exact fun suffix hsuffix => declaration?_of_waiting? hsuffix terminator braceDepth
      rw [← List.append_assoc, declarations_concat, declarations_concat, ih, hevent,
        List.append_assoc]

theorem unresolvedIn_append (hnone : outstanding options first = []) :
    unresolvedIn options (first ++ second) = unresolvedIn options second :=
  filterMap_tails_of_outstanding (fun _ => unresolvedAt?_of_waiting?) hnone

end Settled

/-! ## Events at other places -/

theorem filterMap_tails_map {α β γ δ : Type} {g : α → β} {h : γ → δ} {f : List α → Option γ}
    {f' : List β → Option δ} (hcomm : ∀ l, f' (l.map g) = (f l).map h) (l : List α) :
    (l.map g).tails.filterMap f' = (l.tails.filterMap f).map h := by
  induction l with
  | nil =>
      have hnil := hcomm []
      cases hf : f [] <;> simp_all
  | cons a l ih =>
      have hcons := hcomm (a :: l)
      rw [List.map_cons] at hcons ⊢
      rw [List.tails_cons, List.tails_cons, List.filterMap_cons, List.filterMap_cons, hcons, ih]
      cases f (a :: l) <;> rfl

section Events

variable (shift : Shift) (options : ScanOptions)

theorem labelsOf_map_event (events : List Event) :
    labelsOf (events.map shift.event) = (labelsOf events).map shift.occurrence := by
  induction events with
  | nil => rfl
  | cons event events ih => cases event <;> simp [Shift.event, ih]

theorem any_settles_map_event (terminator : Terminator) (events : List Event) :
    (events.map shift.event).any (·.settles terminator) = events.any (·.settles terminator) := by
  rw [List.any_map]
  congr 1
  funext event
  cases event <;> rfl

theorem keywordKind?_occurrence (distinctInterfaces : Bool) (label : Occurrence) :
    (shift.occurrence label).keywordKind? distinctInterfaces = label.keywordKind? distinctInterfaces :=
  rfl

theorem declaration?_map_event (terminator : Terminator) (braceDepth : Nat) (events : List Event) :
    declaration? options terminator braceDepth (events.map shift.event) =
      (declaration? options terminator braceDepth events).map shift.symbol := by
  match events with
  | [] => rfl
  | .terminator _ _ :: _ => rfl
  | .semicolon :: _ => rfl
  | .label keyword :: between =>
      simp only [List.map_cons, Shift.event, declaration?, keywordKind?_occurrence,
        labelsOf_map_event, any_settles_map_event]
      cases keyword.keywordKind? options.distinctInterfaces with
      | none => rfl
      | some kind =>
          cases labelsOf between with
          | nil => rfl
          | cons name others =>
              simp only [List.map_cons, List.length_map, Shift.occurrence,
                apply_ite (Option.map shift.symbol), Option.map_some, Option.map_none]
              refine if_congr Iff.rfl (congrArg some ?_) rfl
              simp only [Shift.symbol, Shift.position, Symbol.mk.injEq, true_and, and_true]
              split_ifs <;> omega

theorem unresolvedAt?_map_event (events : List Event) :
    unresolvedAt? options (events.map shift.event) =
      (unresolvedAt? options events).map shift.unresolved := by
  match events with
  | [] => rfl
  | .terminator _ _ :: _ => rfl
  | .semicolon :: _ => rfl
  | .label keyword :: after =>
      simp only [List.map_cons, Shift.event, unresolvedAt?, keywordKind?_occurrence,
        labelsOf_map_event, any_settles_map_event, List.length_map]
      cases keyword.keywordKind? options.distinctInterfaces with
      | none => rfl
      | some kind =>
          simp only [apply_ite (Option.map shift.unresolved), Option.map_some, Option.map_none]
          rfl

theorem declarations_map_event (events : List Event) :
    declarations options (events.map shift.event) = (declarations options events).map shift.symbol := by
  induction events using List.reverseRecOn with
  | nil => rfl
  | append_singleton events event ih =>
      rw [List.map_append, List.map_singleton, declarations_concat, declarations_concat, ih,
        List.map_append]
      congr 1
      cases event with
      | label _ => rfl
      | semicolon => rfl
      | terminator terminator braceDepth =>
          exact filterMap_tails_map (declaration?_map_event shift options terminator braceDepth) events

theorem unresolvedIn_map_event (events : List Event) :
    unresolvedIn options (events.map shift.event) =
      (unresolvedIn options events).map shift.unresolved :=
  filterMap_tails_map (unresolvedAt?_map_event shift options) events

end Events

/-! ## A text after a finished one -/

/-- The scanner is on the page, where no open tag has begun, and no brace is open and no keyword is
waiting. -/
structure Scanner.IsFinished (s : Scanner) : Prop where
  region : s.region = .page
  tag : s.tag = []
  braceDepth : s.braceDepth = 0
  intents : s.intents = .empty

/-- How far a text moves what comes after it. -/
def shiftAfter (text : List Char) : Shift := ⟨text.count '\n', (placeAfter text).column⟩

section Finished

variable {options : ScanOptions} {first second : List Char}

theorem placeAfter_append (first second : List Char) :
    placeAfter (first ++ second) = (shiftAfter first).position (placeAfter second) := by
  have hcolumn : (placeAfter first).column = (lastLine (visible first)).length := by
    rw [placeAfter_eq]
  rw [shiftAfter, hcolumn, placeAfter_eq, placeAfter_eq, Shift.position, visible_append,
    List.count_append, count_visible first]
  simp only [Position.mk.injEq]
  refine ⟨by omega, ?_⟩
  by_cases hline : '\n' ∈ visible second
  · have hcount : (visible second).count '\n' + 1 ≠ 1 := by
      rw [← List.count_pos_iff] at hline
      omega
    rw [lastLine_append_of_mem hline, if_neg hcount]
  · rw [List.count_eq_zero_of_not_mem hline, if_pos rfl, lastLine_append_of_notMem hline,
      lastLine_eq_self hline, List.length_append, Nat.add_comm]

theorem moves_start (hlength : first.length < counterMax)
    (hfinished : ((Scanner.start options).run first).IsFinished) :
    (shiftAfter first).Moves (Scanner.start options) ((Scanner.start options).run first) := by
  have hregions := (Scanner.nested_run options first).eq_of_page hfinished.region
  have hlead : ((Scanner.start options).run first).lead = none := by
    have hmem := Scanner.lead_run options first
    rw [hfinished.region] at hmem
    exact List.mem_singleton.mp hmem
  have hpending := (Scanner.coherent_run options first).pending_eq_none
    (Or.inl (by rw [hfinished.region]; decide))
  have hplace : placeAfter first = (shiftAfter first).position .first := by
    have happend := placeAfter_append first []
    rwa [List.append_nil] at happend
  unfold Shift.Moves Scanner.lexing
  rw [hregions, hfinished.tag, hlead, Scanner.recent_run options first hfinished.region, hpending,
    position_run first hlength, hplace, hfinished.braceDepth]
  rfl

/-- **Two runs over a text.** After a finished text the scanner is where it would be without it, only
at another place. -/
theorem moves_run (hlength : first.length + second.length < counterMax)
    (hfinished : ((Scanner.start options).run first).IsFinished) :
    (shiftAfter first).Moves ((Scanner.start options).run second)
      ((Scanner.start options).run (first ++ second)) := by
  induction second using List.reverseRecOn with
  | nil =>
      rw [List.append_nil]
      exact moves_start (by simpa using hlength) hfinished
  | append_singleton second c ih =>
      simp only [List.length_append, List.length_singleton] at hlength
      have hwithin : WithinCounters second := withinCounters_of_length (by omega)
      have hsecond : ((Scanner.start options).run (second ++ [c])).position =
          placeAfter (second ++ [c]) :=
        position_run _ (by simp only [List.length_append, List.length_singleton]; omega)
      have hwhole : ((Scanner.start options).run (first ++ second ++ [c])).position =
          placeAfter (first ++ (second ++ [c])) := by
        rw [← List.append_assoc]
        exact position_run _ (by simp only [List.length_append, List.length_singleton]; omega)
      have hplace := placeAfter_append first (second ++ [c])
      rw [← hsecond, ← hwhole, Scanner.run_concat, Scanner.run_concat] at hplace
      rw [← List.append_assoc, Scanner.run_concat, Scanner.run_concat]
      apply (ih (by omega)).step _ hplace
      intro hlead
      exact (shiftAfter first).movesBack ((Scanner.ordered_run options hwithin).lead hlead).1

theorem trace_run (hlength : first.length + second.length < counterMax)
    (hfinished : ((Scanner.start options).run first).IsFinished) :
    ((Scanner.start options).run first).trace second =
      ((Scanner.start options).trace second).map (shiftAfter first).event := by
  induction second using List.reverseRecOn with
  | nil => rfl
  | append_singleton second c ih =>
      simp only [List.length_append, List.length_singleton] at hlength
      have hmoves : (shiftAfter first).Moves ((Scanner.start options).run second)
          ((Scanner.start options).run (first ++ second)) := moves_run (by omega) hfinished
      rw [Scanner.trace_append, Scanner.trace_append, ih (by omega), List.map_append,
        ← Scanner.run_append]
      congr 1
      simp only [Scanner.trace, List.append_nil]
      exact hmoves.emits_eq

theorem moves_feed {first second : String} (hlength : first.length + second.length < counterMax)
    (hfinished : ((Scanner.start options).feed first).IsFinished) :
    (shiftAfter first.toList).Moves ((Scanner.start options).feed second)
      ((Scanner.start options).feed (first ++ second)) := by
  rw [← String.length_toList, ← String.length_toList] at hlength
  unfold Scanner.feed
  rw [String.toList_append]
  exact moves_run hlength hfinished

theorem scanTrace_append {first second : String} (hlength : first.length + second.length < counterMax)
    (hfinished : ((Scanner.start options).feed first).IsFinished) :
    scanTrace options (first ++ second) =
      scanTrace options first ++ (scanTrace options second).map (shiftAfter first.toList).event := by
  have hclosing : ((Scanner.start options).feed first).closing = [] := by
    rw [Scanner.closing, hfinished.region]
    rfl
  have hmoves := moves_feed hlength hfinished
  rw [← String.length_toList, ← String.length_toList] at hlength
  rw [scanTrace, scanTrace, scanTrace, hclosing, hmoves.closing_eq, String.toList_append,
    Scanner.trace_append, trace_run hlength hfinished, List.map_append, List.append_nil,
    List.append_assoc]

theorem outstanding_scanTrace {text : String}
    (hfinished : ((Scanner.start options).feed text).IsFinished) :
    outstanding options (scanTrace options text) = [] := by
  have hclose : ((Scanner.start options).feed text).close = (Scanner.start options).feed text := by
    rw [Scanner.close, hfinished.region]
    rfl
  have htracks := tracks_close options text
  rw [hclose] at htracks
  rw [← htracks.waiting_eq]
  exact congrArg IntentQueue.waiting hfinished.intents

end Finished

/-- **Finished segments.** Let a text end on the page with nothing open and no keyword waiting. In the
report of any text after it, the symbols of the first come first, and all else is what the second text
alone would give, moved by the line breaks of the first and, on the first line, by its columns. -/
theorem scan_append_of_finished (options : ScanOptions) (first second : String)
    (hlength : first.length + second.length < counterMax)
    (hfinished : ((Scanner.start options).feed first).IsFinished) :
    let shift : Shift :=
      ⟨first.toList.count '\n', ((Scanner.start options).feed first).position.column⟩
    scan options (first ++ second) =
      { symbols := (scan options first).symbols ++ (scan options second).symbols.map shift.symbol
        openRegion := (scan options second).openRegion.map shift.frame
        unresolved := (scan options second).unresolved.map shift.unresolved
        lines := first.toList.count '\n' + (scan options second).lines } := by
  intro shift
  have hwithin : WithinCounters (first ++ second).toList := by
    apply withinCounters_of_length
    rwa [String.toList_append, List.length_append, String.length_toList, String.length_toList]
  have hfirst : WithinCounters first.toList :=
    hwithin.of_prefix (String.toList_append ▸ List.prefix_append _ _)
  have hsecond : WithinCounters second.toList := by
    apply withinCounters_of_length
    rw [String.length_toList]
    omega
  have hshift : shift = shiftAfter first.toList := by
    rw [shiftAfter, ← hfirst.position_run options]
    rfl
  have hnone := outstanding_scanTrace hfinished
  have htrace := scanTrace_append hlength hfinished
  have hmoves := moves_feed hlength hfinished
  rw [← hshift] at htrace hmoves
  have hsymbols : (scan options (first ++ second)).symbols =
      (scan options first).symbols ++ (scan options second).symbols.map shift.symbol :=
    calc (scan options (first ++ second)).symbols
        = declarations options (scanTrace options (first ++ second)) :=
          hwithin.symbols_scan options
      _ = declarations options (scanTrace options first) ++
            (declarations options (scanTrace options second)).map shift.symbol := by
          rw [htrace, declarations_append hnone, declarations_map_event]
      _ = (scan options first).symbols ++ (scan options second).symbols.map shift.symbol := by
          rw [hfirst.symbols_scan, hsecond.symbols_scan]
  have hunresolved : (scan options (first ++ second)).unresolved =
      (scan options second).unresolved.map shift.unresolved :=
    calc (scan options (first ++ second)).unresolved
        = unresolvedIn options (scanTrace options (first ++ second)) := unresolved_scan _ _
      _ = (unresolvedIn options (scanTrace options second)).map shift.unresolved := by
          rw [htrace, unresolvedIn_append hnone, unresolvedIn_map_event]
      _ = (scan options second).unresolved.map shift.unresolved := by rw [unresolved_scan]
  have hregion : (scan options (first ++ second)).openRegion =
      (scan options second).openRegion.map shift.frame := by
    have hregions := congrArg Lexing.regions hmoves.close
    exact (congrArg RegionStack.openRegion? hregions).trans (shift.openRegion?_regions _)
  have hlines : (scan options (first ++ second)).lines =
      first.toList.count '\n' + (scan options second).lines := by
    have hposition := congrArg (fun view => view.position.line) hmoves.close
    exact hposition.trans (Nat.add_comm _ _)
  rw [← hsymbols, ← hregion, ← hunresolved, ← hlines]

/-- A segment on its second line, and after it one with a class on the same line, and a keyword and a
string on the next. -/
theorem scan_append_of_finished_on_second_line :
    ((Scanner.start ⟨true, 2, 1⟩).feed "<?php\nclass A \x7b\x7d ?>").IsFinished ∧
      scan ⟨true, 2, 1⟩ ("<?php\nclass A \x7b\x7d ?>" ++ "<?php class B \x7b\nfunction \"") =
        { symbols := [⟨"A", .classDecl, 2, 6, 7, 0⟩, ⟨"B", .classDecl, 2, 25, 26, 0⟩]
          openRegion := some ⟨.doubleQuoted, ⟨3, 9⟩⟩
          unresolved := [⟨"function", .functionDecl, ⟨3, 0⟩⟩]
          lines := 3 } := by
  have hfinished : ((Scanner.start ⟨true, 2, 1⟩).feed "<?php\nclass A \x7b\x7d ?>").IsFinished :=
    ⟨by decide +kernel, by decide +kernel, by decide +kernel, by decide +kernel⟩
  refine ⟨hfinished, (scan_append_of_finished _ _ _ (by decide) hfinished).trans ?_⟩
  decide +kernel

end PhpOutline
