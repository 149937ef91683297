import Mathlib.Data.List.Forall2
import Mathlib.Data.List.Pairwise
import PhpOutline.Proofs.ReportPlaces

/-!
# The order of symbols

Labels are completed in the order in which they stand in the text, and never overlap. A terminator
takes all the keywords that wait for it, so the declarations that it confirms come after those of the
terminator before it, and their names are in the order of their keywords. Classes and functions are
confirmed by different terminators: their order among each other is that of the terminators, but two
declarations never share a name, since the label before the name is the keyword of only one of them.
-/

namespace PhpOutline

/-! ## Labels -/

namespace Occurrence

/-- The place just past the label. -/
def stop (label : Occurrence) : Position :=
  ⟨label.start.line, label.start.column + label.text.length⟩

def Precedes (first second : Occurrence) : Prop := first.stop ≤ second.start

theorem StandsIn.start_lt_stop {options : ScanOptions} {text : List Char} {label : Occurrence}
    (hstands : label.StandsIn options text) : label.start < label.stop := by
  have hlength : 0 < label.text.length := by
    rw [← String.length_toList]
    exact List.length_pos_of_ne_nil hstands.ne_nil
  rw [Position.lt_iff]
  exact Or.inr ⟨rfl, Nat.lt_add_of_pos_right hlength⟩

end Occurrence

namespace Scanner

/-- The labels are in order, and the scanner is past all of them, as is the identifier that it
reads. -/
structure IsPast (s : Scanner) (labels : List Occurrence) : Prop where
  ordered : labels.Pairwise Occurrence.Precedes
  position : ∀ label ∈ labels, label.stop ≤ s.position
  pending : ∀ ident, s.pending = some ident → ∀ label ∈ labels, label.stop ≤ ident.start

section Step

variable {s : Scanner} {c : Char} {labels : List Occurrence}

theorem labelsOf_mark (s : Scanner) (c : Char) : labelsOf (s.mark c) = [] := by
  unfold mark
  split <;> rfl

theorem labelsOf_emits (s : Scanner) (c : Char) :
    labelsOf (s.emits c) = [] ∨ labelsOf (s.emits c) = labelsOf s.completion := by
  have hclosing : labelsOf (if s.closesTag c then s.completion else []) = [] ∨
      labelsOf (if s.closesTag c then s.completion else []) = labelsOf s.completion := by
    split_ifs
    · exact Or.inr rfl
    · exact Or.inl rfl
  by_cases hreturn : c = '\r'
  · rw [emits, if_pos hreturn]
    exact Or.inl rfl
  · rw [emits, if_neg hreturn]
    cases s.region with
    | code =>
        dsimp only
        split_ifs
        · exact Or.inr rfl
        · exact Or.inl rfl
        · right
          rw [labelsOf_append, labelsOf_mark, List.append_nil]
    | parens nested => exact hclosing
    | lineComment => exact hclosing
    | page => exact Or.inl rfl
    | doubleQuoted => exact Or.inl rfl
    | singleQuoted => exact Or.inl rfl
    | blockComment => exact Or.inl rfl

/-- An identifier that is being read after a step was being read before it, or begins with it. -/
theorem Coherent.pending_step (hs : s.Coherent) {ident : Identifier}
    (hident : (s.step c).pending = some ident) :
    s.emits c = [] ∧ ((∃ before, s.pending = some before ∧ ident.start = before.start) ∨
      ident.start = s.position) := by
  by_cases hreturn : c = '\r'
  · rw [Scanner.step, if_pos hreturn] at hident
    rw [emits, if_pos hreturn]
    exact ⟨rfl, Or.inl ⟨ident, hident, rfl⟩⟩
  · by_cases hline : c = '\n'
    · rw [Scanner.step, if_neg hreturn, if_pos hline] at hident
      cases hs.breakRegion.2.symm.trans hident
    · rw [Scanner.step, if_neg hreturn, if_neg hline] at hident
      change (s.stepRegion c).pending = some ident at hident
      cases hlabel : isLabelChar c with
      | false => cases (hs.pending_stepRegion c hlabel).symm.trans hident
      | true =>
          by_cases hcode : s.region = .code
          · have hclose : ¬s.closesTag c := fun h => by
              simp [s.not_label_of_closesTag c h] at hlabel
            rw [Scanner.stepRegion, hcode] at hident
            simp only [s.stepCode_of_label c hlabel] at hident
            refine ⟨by simp [emits, hreturn, hcode, hline, hclose, hlabel], ?_⟩
            obtain rfl := Option.some.inj hident
            cases hpending : s.pending with
            | none => exact Or.inr rfl
            | some before => exact Or.inl ⟨before, rfl, rfl⟩
          · cases (hs.pending_stepRegion_outside c hcode).symm.trans hident

/-- The label that the identifier becomes comes after all others. -/
theorem IsPast.completed (hpast : s.IsPast labels) :
    (labels ++ labelsOf s.completion).Pairwise Occurrence.Precedes := by
  rw [completion]
  cases hpending : s.pending with
  | none => simpa using hpast.ordered
  | some ident =>
      refine List.pairwise_append.mpr ⟨hpast.ordered, List.pairwise_singleton _ _, ?_⟩
      intro label hlabel last hlast
      obtain rfl := List.mem_singleton.mp hlast
      exact hpast.pending ident hpending label hlabel

/-- **One step.** The scanner gets past the label that it completes, if any. -/
theorem IsPast.step (hpast : s.IsPast labels) (hs : s.Coherent)
    (hposition : s.position ≤ (s.step c).position)
    (hcompletion : ∀ label ∈ labelsOf s.completion, label.stop ≤ s.position) :
    (s.step c).IsPast (labels ++ labelsOf (s.emits c)) := by
  refine ⟨?_, ?_, ?_⟩
  · obtain hnone | hlabel := s.labelsOf_emits c
    · rw [hnone, List.append_nil]
      exact hpast.ordered
    · rw [hlabel]
      exact hpast.completed
  · intro label hlabel
    refine le_trans ?_ hposition
    obtain hbefore | hemitted := List.mem_append.mp hlabel
    · exact hpast.position label hbefore
    · obtain hnone | hcompleted := s.labelsOf_emits c
      · rw [hnone] at hemitted
        cases hemitted
      · exact hcompletion label (hcompleted ▸ hemitted)
  · intro ident hident label hlabel
    obtain ⟨hemits, hstart⟩ := hs.pending_step hident
    rw [hemits, labelsOf_nil, List.append_nil] at hlabel
    obtain ⟨before, hbefore, hstart⟩ | hstart := hstart
    · rw [hstart]
      exact hpast.pending before hbefore label hlabel
    · rw [hstart]
      exact hpast.position label hlabel

end Step

end Scanner

section Run

variable {options : ScanOptions} {text : List Char}

/-- An identifier that is being read ends where the scanner is. -/
theorem WithinCounters.stop_completion (hwithin : WithinCounters text) {label : Occurrence}
    (hlabel : label ∈ labelsOf ((Scanner.start options).run text).completion) :
    label.stop = ((Scanner.start options).run text).position := by
  obtain ⟨ident, hpending, htext, hstart⟩ :=
    Scanner.label_mem_completion (mem_labelsOf_iff.mp hlabel)
  have hends := (sited_run options text).pending ident hpending
  obtain ⟨before, hprefix, hvisible, hident, -⟩ := hends.placed
  have hline : '\n' ∉ ident.text := fun hmem => absurd (hends.label '\n' hmem) (by decide)
  rw [hwithin.position_run, placeAfter_of_visible_append text hline hvisible, Occurrence.stop,
    hstart, hident, (hwithin.of_prefix hprefix).position_run, htext, String.length_ofList]

/-- **A whole run.** -/
theorem WithinCounters.isPast_run (hwithin : WithinCounters text) (options : ScanOptions) :
    ((Scanner.start options).run text).IsPast (labelsOf ((Scanner.start options).trace text)) := by
  induction text using List.reverseRecOn with
  | nil => exact ⟨List.Pairwise.nil, by simp [Scanner.trace], by simp [Scanner.trace]⟩
  | append_singleton text c ih =>
      have hbefore : WithinCounters text := hwithin.of_prefix (List.prefix_append _ _)
      have hposition : ((Scanner.start options).run text).position ≤
          (((Scanner.start options).run text).step c).position := by
        rw [← Scanner.run_concat, hwithin.position_run, hbefore.position_run]
        exact placeAfter_le_concat text c
      have hstep := (ih hbefore).step (Scanner.coherent_run options text) hposition
        fun label hlabel => le_of_eq (hbefore.stop_completion hlabel)
      rw [Scanner.run_concat, Scanner.trace_append, labelsOf_append]
      simpa [Scanner.trace] using hstep

/-- The labels of a text are in order. -/
theorem WithinCounters.labels_ordered {text : String} (hwithin : WithinCounters text.toList)
    (options : ScanOptions) :
    (labelsOf (scanTrace options text)).Pairwise Occurrence.Precedes := by
  have hpast := hwithin.isPast_run options
  rw [scanTrace, labelsOf_append, Scanner.feed, Scanner.closing]
  split_ifs
  · exact hpast.completed
  · rw [labelsOf_nil, List.append_nil]
    exact hpast.ordered

end Run

/-! ## Selections

`List.SublistForall₂` says that the elements of one list belong to elements of another list, in order
and each to one of its own.
-/

section Selections

open List

variable {α β : Type} {R : α → β → Prop} {chosen : List α} {all : List β}

theorem sublistForall₂_of_sublist {more : List β} (hchosen : SublistForall₂ R chosen all)
    (hsublist : all <+ more) : SublistForall₂ R chosen more := by
  rw [sublistForall₂_iff] at hchosen ⊢
  obtain ⟨belongs, hbelongs, hall⟩ := hchosen
  exact ⟨belongs, hbelongs, hall.trans hsublist⟩

theorem sublistForall₂_append {others : List α} {more : List β}
    (hfirst : SublistForall₂ R chosen all) (hsecond : SublistForall₂ R others more) :
    SublistForall₂ R (chosen ++ others) (all ++ more) := by
  induction hfirst with
  | nil => exact sublistForall₂_of_sublist hsecond (sublist_append_right _ _)
  | cons hhead _ ih => exact .cons hhead ih
  | cons_right _ ih => exact .cons_right ih

theorem exists_mem_of_sublistForall₂ (hchosen : SublistForall₂ R chosen all) {a : α}
    (hmem : a ∈ chosen) : ∃ b ∈ all, R a b := by
  induction hchosen with
  | nil => cases hmem
  | cons hhead _ ih =>
      obtain rfl | hmem := mem_cons.mp hmem
      · exact ⟨_, mem_cons_self, hhead⟩
      · obtain ⟨b, hb, hrel⟩ := ih hmem
        exact ⟨b, mem_cons_of_mem _ hb, hrel⟩
  | cons_right _ ih =>
      obtain ⟨b, hb, hrel⟩ := ih hmem
      exact ⟨b, mem_cons_of_mem _ hb, hrel⟩

/-- What is chosen is in the order of the list that it is chosen from. -/
theorem pairwise_of_sublistForall₂ {S : β → β → Prop} {T : α → α → Prop}
    (hchosen : SublistForall₂ R chosen all) (hall : all.Pairwise S)
    (horder : ∀ a b c d, R a c → R b d → S c d → T a b) : chosen.Pairwise T := by
  induction hchosen with
  | nil => exact .nil
  | @cons a c rest others hhead hrest ih =>
      obtain ⟨hfirst, hothers⟩ := pairwise_cons.mp hall
      refine pairwise_cons.mpr ⟨fun b hb => ?_, ih hothers⟩
      obtain ⟨d, hd, hrel⟩ := exists_mem_of_sublistForall₂ hrest hb
      exact horder a b c d hhead hrel (hfirst d hd)
  | cons_right _ ih => exact ih hall.of_cons

end Selections

/-! ## Neighbouring labels -/

/-- Every label together with the one after it. -/
def neighbours (labels : List Occurrence) : List (Occurrence × Occurrence) := labels.zip labels.tail

section Neighbours

theorem neighbours_cons (keyword name : Occurrence) (others : List Occurrence) :
    neighbours (keyword :: name :: others) = (keyword, name) :: neighbours (name :: others) := rfl

theorem neighbours_sublist_cons (first : Occurrence) (labels : List Occurrence) :
    (neighbours labels).Sublist (neighbours (first :: labels)) := by
  cases labels with
  | nil => exact List.nil_sublist _
  | cons second others => exact List.sublist_cons_self _ _

theorem neighbours_append_sublist (first second : List Occurrence) :
    (neighbours first ++ neighbours second).Sublist (neighbours (first ++ second)) := by
  induction first with
  | nil => exact List.Sublist.refl _
  | cons keyword rest ih =>
      cases rest with
      | nil => exact neighbours_sublist_cons keyword second
      | cons name others => exact ih.cons_cons _

theorem pairwise_neighbours {labels : List Occurrence}
    (hordered : labels.Pairwise Occurrence.Precedes) :
    (neighbours labels).Pairwise fun first second => first.2.Precedes second.2 := by
  have hnames : (neighbours labels).map Prod.snd = labels.tail :=
    List.map_snd_zip (by simp)
  rw [← List.pairwise_map, hnames]
  exact hordered.tail

theorem precedes_or_precedes {labels : List Occurrence}
    (hordered : labels.Pairwise Occurrence.Precedes) {first second : Occurrence × Occurrence}
    (hfirst : first ∈ neighbours labels) (hsecond : second ∈ neighbours labels)
    (hne : first ≠ second) : first.2.Precedes second.2 ∨ second.2.Precedes first.2 := by
  have : Std.Symm fun p q : Occurrence × Occurrence => p.2.Precedes q.2 ∨ q.2.Precedes p.2 :=
    ⟨fun _ _ => Or.symm⟩
  have heither : (neighbours labels).Pairwise fun p q => p.2.Precedes q.2 ∨ q.2.Precedes p.2 :=
    (pairwise_neighbours hordered).imp Or.inl
  exact heither.forall hfirst hsecond hne

end Neighbours

/-! ## Symbols and their labels -/

namespace Symbol

/-- The place of the name. -/
def start (symbol : Symbol) : Position := ⟨symbol.line, symbol.startColumn⟩

/-- The place just past the name. -/
def stop (symbol : Symbol) : Position := ⟨symbol.line, symbol.endColumn⟩

/-- The names of the two symbols do not overlap. -/
def Apart (first second : Symbol) : Prop :=
  first.line = second.line →
    first.endColumn ≤ second.startColumn ∨ second.endColumn ≤ first.startColumn

theorem apart_of_stop_le {first second : Symbol} (hle : first.stop ≤ second.start) :
    first.Apart second := by
  intro hline
  obtain hlt | ⟨-, hcolumn⟩ := Position.le_iff.mp hle
  · exact absurd hline (Nat.ne_of_lt hlt)
  · exact Or.inl hcolumn

theorem Apart.symm {first second : Symbol} (hapart : first.Apart second) : second.Apart first :=
  fun hline => (hapart hline.symm).symm

/-- The first of the two labels is the keyword of the symbol and the second one its name. -/
structure IsDeclaredBy (options : ScanOptions) (symbol : Symbol) (labels : Occurrence × Occurrence) :
    Prop where
  kind : labels.1.keywordKind? options.distinctInterfaces = some symbol.kind
  start_eq : symbol.start = labels.2.start
  stop_eq : symbol.stop = labels.2.stop

end Symbol

section Declarations

variable {options : ScanOptions} {terminator : Terminator} {braceDepth : Nat}

/-- The names that a terminator confirms are in the order of their keywords. -/
theorem tails_declared (events : List Event) :
    (events.tails.filterMap (declaration? options terminator braceDepth)).SublistForall₂
      (Symbol.IsDeclaredBy options) (neighbours (labelsOf events)) := by
  induction events with
  | nil => exact .nil
  | cons event rest ih =>
      rw [List.tails_cons, List.filterMap_cons]
      split
      · cases event with
        | label keyword => exact sublistForall₂_of_sublist ih (neighbours_sublist_cons _ _)
        | terminator _ _ => exact ih
        | semicolon => exact ih
      · rename_i symbol hsymbol
        obtain ⟨keyword, between, name, others, kind, hsuffix, hkind, -, -, hlabels, -, rfl⟩ :=
          declaration?_eq_some hsymbol
        obtain ⟨rfl, rfl⟩ := List.cons.inj hsuffix
        rw [labelsOf_label, hlabels, neighbours_cons]
        rw [hlabels] at ih
        exact .cons ⟨hkind, rfl, rfl⟩ ih

theorem terminator_of_mem_declarationsAt {before : List Event} {event : Event} {symbol : Symbol}
    (hsymbol : symbol ∈ declarationsAt options before event) :
    ∃ braceDepth, event = .terminator symbol.kind.terminator braceDepth := by
  cases event with
  | terminator terminator braceDepth =>
      obtain ⟨suffix, -, hdeclaration⟩ := List.mem_filterMap.mp hsymbol
      obtain ⟨keyword, between, name, others, kind, -, -, rfl, -, -, -, rfl⟩ :=
        declaration?_eq_some hdeclaration
      exact ⟨braceDepth, rfl⟩
  | label _ => cases hsymbol
  | semicolon => cases hsymbol

theorem filter_declarationsAt_self (before : List Event) :
    (declarationsAt options before (.terminator terminator braceDepth)).filter
        (·.kind.terminator = terminator) =
      declarationsAt options before (.terminator terminator braceDepth) := by
  refine List.filter_eq_self.mpr fun symbol hsymbol => ?_
  obtain ⟨_, hevent⟩ := terminator_of_mem_declarationsAt hsymbol
  exact decide_eq_true (Event.terminator.inj hevent).1.symm

theorem filter_declarationsAt_eq_nil (before : List Event) {event : Event}
    (hne : ∀ braceDepth, event ≠ .terminator terminator braceDepth) :
    (declarationsAt options before event).filter (·.kind.terminator = terminator) = [] := by
  refine List.filter_eq_nil_iff.mpr fun symbol hsymbol hterminator => ?_
  obtain ⟨braceDepth, hevent⟩ := terminator_of_mem_declarationsAt hsymbol
  rw [of_decide_eq_true hterminator] at hevent
  exact hne braceDepth hevent

/-- The keywords that wait for the terminator at the end of the events all come after the first of the
two parts. -/
structure SettledBy (terminator : Terminator) (events settled waiting : List Event) : Prop where
  events_eq : events = settled ++ waiting
  settles : settled = [] ∨ ∃ before event, settled = before ++ [event] ∧ event.settles terminator

theorem SettledBy.tails_eq {events settled waiting : List Event}
    (hsettled : SettledBy terminator events settled waiting) :
    events.tails.filterMap (declaration? options terminator braceDepth) =
      waiting.tails.filterMap (declaration? options terminator braceDepth) := by
  rw [hsettled.events_eq]
  refine filterMap_tails_append fun tail htail hne => ?_
  rw [Option.eq_none_iff_forall_ne_some]
  intro symbol hsymbol
  obtain ⟨keyword, between, name, others, kind, hsuffix, -, -, hopen, -⟩ :=
    declaration?_eq_some hsymbol
  obtain rfl | ⟨before, event, rfl, hsettles⟩ := hsettled.settles
  · exact hne (List.suffix_nil.mp htail)
  · obtain rfl | ⟨rest, rfl, -⟩ := List.suffix_concat_iff.mp htail
    · exact hne rfl
    · -- The keyword is not the event that settles, so that one stands after it.
      cases rest with
      | nil =>
          obtain ⟨rfl, -⟩ := List.cons.inj hsuffix
          cases hsettles
      | cons first rest =>
          obtain ⟨-, rfl⟩ := List.cons.inj hsuffix
          exact hopen (by simp [hsettles])

/-- The declarations that one kind of terminator confirms are in the order of their names: each such
terminator confirms declarations whose labels come after the one before it. -/
theorem exists_settledBy (options : ScanOptions) (terminator : Terminator) (events : List Event) :
    ∃ settled waiting, SettledBy terminator events settled waiting ∧
      ((declarations options events).filter (·.kind.terminator = terminator)).SublistForall₂
        (Symbol.IsDeclaredBy options) (neighbours (labelsOf settled)) := by
  induction events using List.reverseRecOn with
  | nil => exact ⟨[], [], ⟨rfl, Or.inl rfl⟩, .nil⟩
  | append_singleton events event ih =>
      obtain ⟨settled, waiting, hsettled, hdeclared⟩ := ih
      rw [declarations_concat, List.filter_append]
      by_cases hconfirms : ∃ braceDepth, event = .terminator terminator braceDepth
      · obtain ⟨braceDepth, rfl⟩ := hconfirms
        refine ⟨events ++ [.terminator terminator braceDepth], [],
          ⟨(List.append_nil _).symm, Or.inr ⟨events, _, rfl, by simp⟩⟩, ?_⟩
        have hlabels : labelsOf (events ++ [.terminator terminator braceDepth]) =
            labelsOf settled ++ labelsOf waiting := by
          rw [labelsOf_append, labelsOf_terminator, labelsOf_nil, List.append_nil,
            ← labelsOf_append, ← hsettled.events_eq]
        rw [filter_declarationsAt_self, declarationsAt, hsettled.tails_eq, hlabels]
        exact sublistForall₂_of_sublist (sublistForall₂_append hdeclared (tails_declared waiting))
          (neighbours_append_sublist _ _)
      · refine ⟨settled, waiting ++ [event],
          ⟨by rw [hsettled.events_eq, List.append_assoc], hsettled.settles⟩, ?_⟩
        rw [filter_declarationsAt_eq_nil events (not_exists.mp hconfirms), List.append_nil]
        exact hdeclared

theorem declarations_declared (options : ScanOptions) (terminator : Terminator)
    (events : List Event) :
    ((declarations options events).filter (·.kind.terminator = terminator)).SublistForall₂
      (Symbol.IsDeclaredBy options) (neighbours (labelsOf events)) := by
  obtain ⟨settled, waiting, hsettled, hdeclared⟩ := exists_settledBy options terminator events
  refine sublistForall₂_of_sublist hdeclared ?_
  rw [hsettled.events_eq, labelsOf_append]
  exact (List.sublist_append_left _ _).trans (neighbours_append_sublist _ _)

/-- The keywords that still wait are in order, too. -/
theorem unresolvedIn_ordered (options : ScanOptions) (events : List Event) :
    (unresolvedIn options events).SublistForall₂ (fun decl label => decl.start = label.start)
      (labelsOf events) := by
  rw [unresolvedIn]
  induction events with
  | nil => exact .nil
  | cons event rest ih =>
      rw [List.tails_cons, List.filterMap_cons]
      cases event with
      | terminator _ _ => exact ih
      | semicolon => exact ih
      | label keyword =>
          rw [labelsOf_label]
          split
          · exact ih.cons_right
          · rename_i decl hdecl
            obtain ⟨other, after, kind, hsuffix, -, -, rfl⟩ := unresolvedAt?_eq_some hdecl
            obtain ⟨hkeyword, -⟩ := List.cons.inj hsuffix
            rw [Event.label.inj hkeyword]
            exact .cons rfl ih

end Declarations

/-! ## Order -/

section Order

variable {options : ScanOptions} {events : List Event}

/-- Declarations that the same kind of terminator confirms are in order. -/
theorem pairwise_declarations (options : ScanOptions) (terminator : Terminator)
    (hordered : (labelsOf events).Pairwise Occurrence.Precedes) :
    ((declarations options events).filter (·.kind.terminator = terminator)).Pairwise
      fun first second => first.stop ≤ second.start := by
  refine pairwise_of_sublistForall₂ (declarations_declared options terminator events)
    (pairwise_neighbours hordered) ?_
  intro first second labels others hfirst hsecond hprecedes
  rw [hfirst.stop_eq, hsecond.start_eq]
  exact hprecedes

theorem exists_neighbours_of_mem_declarations {symbol : Symbol}
    (hsymbol : symbol ∈ declarations options events) :
    ∃ labels ∈ neighbours (labelsOf events), symbol.IsDeclaredBy options labels :=
  exists_mem_of_sublistForall₂ (declarations_declared options symbol.kind.terminator events)
    (List.mem_filter.mpr ⟨hsymbol, by simp⟩)

/-- Declarations that different kinds of terminators confirm have different keywords, so the names
after these are different labels. -/
theorem apart_of_terminator_ne (hordered : (labelsOf events).Pairwise Occurrence.Precedes)
    {first second : Symbol} (hfirst : first ∈ declarations options events)
    (hsecond : second ∈ declarations options events)
    (hne : first.kind.terminator ≠ second.kind.terminator) : first.Apart second := by
  obtain ⟨labels, hlabels, hdeclared⟩ := exists_neighbours_of_mem_declarations hfirst
  obtain ⟨others, hothers, hdeclared'⟩ := exists_neighbours_of_mem_declarations hsecond
  have hdifferent : labels ≠ others := by
    rintro rfl
    have hkind := Option.some.inj (hdeclared.kind.symm.trans hdeclared'.kind)
    exact hne (congrArg Kind.terminator hkind)
  obtain hprecedes | hprecedes := precedes_or_precedes hordered hlabels hothers hdifferent
  · refine Symbol.apart_of_stop_le ?_
    rw [hdeclared.stop_eq, hdeclared'.start_eq]
    exact hprecedes
  · refine (Symbol.apart_of_stop_le ?_).symm
    rw [hdeclared'.stop_eq, hdeclared.start_eq]
    exact hprecedes

theorem pairwise_apart_declarations (hordered : (labelsOf events).Pairwise Occurrence.Precedes) :
    (declarations options events).Pairwise Symbol.Apart := by
  have hbrace := List.pairwise_filter.mp (pairwise_declarations options .brace hordered)
  have hparen := List.pairwise_filter.mp (pairwise_declarations options .paren hordered)
  refine (hbrace.and hparen).imp_of_mem fun {first second} hfirst hsecond hstop => ?_
  by_cases hsame : first.kind.terminator = second.kind.terminator
  · refine Symbol.apart_of_stop_le ?_
    cases hterminator : second.kind.terminator with
    | brace => exact hstop.1 (by simp [hsame, hterminator]) (by simp [hterminator])
    | paren => exact hstop.2 (by simp [hsame, hterminator]) (by simp [hterminator])
  · exact apart_of_terminator_ne hordered hfirst hsecond hsame

end Order

section Scan

variable {text : String}

theorem start_lt_stop_of_mem_symbols {options : ScanOptions} {symbol : Symbol}
    (hsymbol : symbol ∈ declarations options (scanTrace options text)) :
    symbol.start < symbol.stop := by
  obtain ⟨labels, hlabels, hdeclared⟩ := exists_neighbours_of_mem_declarations hsymbol
  have hname : labels.2 ∈ labelsOf (scanTrace options text) :=
    List.mem_of_mem_tail (List.of_mem_zip hlabels).2
  rw [hdeclared.start_eq, hdeclared.stop_eq]
  exact (standsIn_of_mem_scanTrace (mem_labelsOf_iff.mp hname)).start_lt_stop

/-- Symbols that the same kind of terminator confirms begin one after the other. -/
theorem WithinCounters.symbols_ordered (hwithin : WithinCounters text.toList)
    (options : ScanOptions) (terminator : Terminator) :
    ((scan options text).symbols.filter (·.kind.terminator = terminator)).Pairwise
      fun first second => first.start < second.start := by
  rw [hwithin.symbols_scan]
  refine (pairwise_declarations options terminator
    (hwithin.labels_ordered options)).imp_of_mem fun {first second} hfirst _ hstop => ?_
  exact (start_lt_stop_of_mem_symbols (List.mem_of_mem_filter hfirst)).trans_le hstop

theorem WithinCounters.unresolved_ordered (hwithin : WithinCounters text.toList)
    (options : ScanOptions) :
    (scan options text).unresolved.Pairwise fun first second => first.start < second.start := by
  have hstrict : (labelsOf (scanTrace options text)).Pairwise
      fun first second => first.start < second.start := by
    refine (hwithin.labels_ordered options).imp_of_mem fun {first second} hfirst _ hprecedes => ?_
    have hstands := standsIn_of_mem_scanTrace (mem_labelsOf_iff.mp hfirst)
    exact hstands.start_lt_stop.trans_le hprecedes
  rw [unresolved_scan]
  refine pairwise_of_sublistForall₂ (unresolvedIn_ordered options _) hstrict ?_
  intro first second label other hfirst hsecond hlt
  rwa [hfirst, hsecond]

end Scan

theorem Kind.isClassLike_eq (kind : Kind) : kind.isClassLike = decide (kind.terminator = .brace) := by
  cases kind <;> rfl

theorem Kind.eq_functionDecl_iff (kind : Kind) : kind = .functionDecl ↔ kind.terminator = .paren := by
  cases kind <;> decide

/-- **Source order.** Classes and interfaces come in the order of their names, and so do functions.
No name is empty, and no two names overlap. The unresolved declarations are in the order of their
keywords. -/
theorem scan_ordered (options : ScanOptions) (text : String) (hlength : text.length < counterMax) :
    ((scan options text).symbols.filter (·.kind.isClassLike)).Pairwise
        (fun first second => first.start < second.start) ∧
      ((scan options text).symbols.filter (·.kind = .functionDecl)).Pairwise
        (fun first second => first.start < second.start) ∧
      (∀ symbol ∈ (scan options text).symbols, symbol.startColumn < symbol.endColumn) ∧
      (scan options text).symbols.Pairwise Symbol.Apart ∧
      (scan options text).unresolved.Pairwise
        (fun first second => first.start < second.start) := by
  have hwithin : WithinCounters text.toList :=
    withinCounters_of_length (by rwa [String.length_toList])
  refine ⟨?_, ?_, ?_, ?_, hwithin.unresolved_ordered options⟩
  · simpa only [Kind.isClassLike_eq] using hwithin.symbols_ordered options .brace
  · simpa only [Kind.eq_functionDecl_iff] using hwithin.symbols_ordered options .paren
  · intro symbol hsymbol
    rw [hwithin.symbols_scan] at hsymbol
    obtain hline | ⟨-, hcolumn⟩ := Position.lt_iff.mp (start_lt_stop_of_mem_symbols hsymbol)
    · exact absurd hline (Nat.lt_irrefl _)
    · exact hcolumn
  · rw [hwithin.symbols_scan]
    exact pairwise_apart_declarations (hwithin.labels_ordered options)

/-- The function `f` is confirmed before the class that begins before it. The labels `trait` and
`interface` are keywords as well as names. -/
theorem scan_ordered_keywords_as_names :
    "<?php class A function f() \x7b\x7d function trait() interface I \x7b".length < counterMax ∧
      (scan {} "<?php class A function f() \x7b\x7d function trait() interface I \x7b").symbols =
        [⟨"f", .functionDecl, 1, 23, 24, 0⟩, ⟨"A", .classDecl, 1, 12, 13, 0⟩,
          ⟨"trait", .functionDecl, 1, 39, 44, 0⟩, ⟨"interface", .classDecl, 1, 47, 56, 0⟩,
          ⟨"I", .interfaceDecl, 1, 57, 58, 0⟩] ∧
      ((scan {} "<?php class A function f() \x7b\x7d function trait() interface I \x7b").symbols.filter
        (·.kind.isClassLike)).Pairwise (fun first second => first.start < second.start) ∧
      (scan {} "<?php class A function f() \x7b\x7d function trait() interface I \x7b").symbols.Pairwise
        Symbol.Apart := by
  have hordered := scan_ordered {} "<?php class A function f() \x7b\x7d function trait() interface I \x7b"
    (by decide)
  exact ⟨by decide, by decide +kernel, hordered.1, hordered.2.2.2.1⟩

end PhpOutline
