import Mathlib.Data.List.Infix
import PhpOutline.Proofs.LookbackHistory
import PhpOutline.Proofs.Placement

/-!
# Declarations, read off the whole trace

Which declarations a text has can be said without a queue and without a lookback, by looking at the
whole trace: at every terminator, every keyword before it that the terminator closes, and that nothing
has settled in between, declares the label after it. The scanner never sees the whole trace. It keeps
the keywords that still wait, each under the number of its label, and the most recent labels. The
invariant that ties the two together says what both are in terms of the trace so far.
-/

namespace PhpOutline

/-! ## The declarations of a trace -/

def Event.label? : Event → Option Occurrence
  | .label occurrence => some occurrence
  | _ => none

def labelsOf (events : List Event) : List Occurrence := events.filterMap Event.label?

/-- Whether a keyword that waits for the terminator stops waiting at the event. -/
def Event.settles (terminator : Terminator) : Event → Bool
  | .label _ => false
  | .terminator other _ => other == terminator
  | .semicolon => true

/-- The declaration that begins with the first of the events, the others being what stands between
it and the terminator. The first one is a keyword, nothing in between has settled it, the label after
it can be a name, and all labels from the keyword on are still remembered. -/
def declaration? (options : ScanOptions) (terminator : Terminator) (braceDepth : Nat) :
    List Event → Option Symbol
  | .label keyword :: between =>
    match keyword.keywordKind? options.distinctInterfaces, labelsOf between with
    | some kind, name :: others =>
      if kind.terminator = terminator ∧ ¬between.any (·.settles terminator) ∧
          isDeclaredName name.text ∧ others.length + 2 ≤ max options.lookbackCapacity 2 then
        some
          { name := name.text
            kind := kind
            line := name.start.line
            startColumn := name.start.column
            endColumn := name.start.column + name.text.length
            braceDepth := braceDepth }
      else none
    | _, _ => none
  | _ => none

/-- The declarations that an event confirms, in the order of their keywords. -/
def declarationsAt (options : ScanOptions) (before : List Event) : Event → List Symbol
  | .terminator terminator braceDepth =>
    before.tails.filterMap (declaration? options terminator braceDepth)
  | _ => []

/-- The declarations of a trace: each event is taken together with all the events before it. -/
def declarations (options : ScanOptions) (events : List Event) : List Symbol :=
  (events.inits.zip events).flatMap fun (before, event) => declarationsAt options before event

/-- The intent of the first of the events, if it is a keyword and none of the others has settled it.
Its number is the number of labels before it, `total` being the number of all labels. -/
def waiting? (options : ScanOptions) (total : Nat) : List Event → Option Intent
  | .label keyword :: after =>
    match keyword.keywordKind? options.distinctInterfaces with
    | some kind =>
      if after.any (·.settles kind.terminator) then none
      else some ⟨kind, total - ((labelsOf after).length + 1)⟩
    | none => none
  | _ => none

/-- The keywords of a trace that still wait. -/
def outstanding (options : ScanOptions) (events : List Event) : List Intent :=
  events.tails.filterMap (waiting? options (labelsOf events).length)

/-- The unresolved declaration that begins with the first of the events: it is a keyword that still
waits after the others, and all labels from it on are still remembered. -/
def unresolvedAt? (options : ScanOptions) : List Event → Option Unresolved
  | .label keyword :: after =>
    match keyword.keywordKind? options.distinctInterfaces with
    | some kind =>
      if ¬after.any (·.settles kind.terminator) ∧
          (labelsOf after).length + 1 ≤ max options.lookbackCapacity 2 then
        some ⟨keyword.text, kind, keyword.start⟩
      else none
    | none => none
  | _ => none

/-- The unresolved declarations of a trace. -/
def unresolvedIn (options : ScanOptions) (events : List Event) : List Unresolved :=
  events.tails.filterMap (unresolvedAt? options)

def Occurrence.toLabel (seq : Nat) (occurrence : Occurrence) : Label :=
  ⟨seq, occurrence.text, occurrence.start, occurrence.braceDepth⟩

def history (events : List Event) : List Label := (labelsOf events).mapIdx Occurrence.toLabel

/-! ## What declares and what waits -/

section Cases

variable {options : ScanOptions} {suffix : List Event}

theorem declaration?_eq_some {terminator : Terminator} {braceDepth : Nat} {symbol : Symbol}
    (hsymbol : declaration? options terminator braceDepth suffix = some symbol) :
    ∃ keyword between name others kind, suffix = .label keyword :: between ∧
      keyword.keywordKind? options.distinctInterfaces = some kind ∧ kind.terminator = terminator ∧
      ¬between.any (·.settles terminator) ∧ labelsOf between = name :: others ∧
      isDeclaredName name.text ∧
      symbol = ⟨name.text, kind, name.start.line, name.start.column,
        name.start.column + name.text.length, braceDepth⟩ := by
  unfold declaration? at hsymbol
  split at hsymbol
  · rename_i keyword between
    split at hsymbol
    · rename_i kind name others hkind hlabels
      split_ifs at hsymbol with hdeclared
      obtain ⟨hterminator, hopen, hname, -⟩ := hdeclared
      exact ⟨keyword, between, name, others, kind, rfl, hkind, hterminator, hopen, hlabels, hname,
        (Option.some.inj hsymbol).symm⟩
    · cases hsymbol
  · cases hsymbol

theorem unresolvedAt?_eq_some {decl : Unresolved} (hdecl : unresolvedAt? options suffix = some decl) :
    ∃ keyword after kind, suffix = .label keyword :: after ∧
      keyword.keywordKind? options.distinctInterfaces = some kind ∧
      ¬after.any (·.settles kind.terminator) ∧ decl = ⟨keyword.text, kind, keyword.start⟩ := by
  unfold unresolvedAt? at hdecl
  split at hdecl
  · rename_i keyword after
    split at hdecl
    · rename_i kind hkind
      split_ifs at hdecl with hopen
      exact ⟨keyword, after, kind, rfl, hkind, hopen.1, (Option.some.inj hdecl).symm⟩
    · cases hdecl
  · cases hdecl

/-- What is not found at any event of the first part is found in the second part only. -/
theorem filterMap_tails_append {α β : Type} {f : List α → Option β} {first second : List α}
    (hnone : ∀ tail, tail <:+ first → tail ≠ [] → f (tail ++ second) = none) :
    (first ++ second).tails.filterMap f = second.tails.filterMap f := by
  induction first with
  | nil => rfl
  | cons a first ih =>
      have hhead : f (a :: (first ++ second)) = none :=
        hnone (a :: first) List.suffix_rfl (List.cons_ne_nil a first)
      have hrest : ∀ tail, tail <:+ first → tail ≠ [] → f (tail ++ second) = none :=
        fun tail htail => hnone tail (htail.trans (List.suffix_cons a first))
      rw [List.cons_append, List.tails_cons, List.filterMap_cons, hhead, ih hrest]

end Cases

/-! ## One more event -/

section Concat

theorem zip_inits_concat {α : Type} (l : List α) (a : α) :
    (l ++ [a]).inits.zip (l ++ [a]) = l.inits.zip l ++ [(l, a)] := by
  induction l with
  | nil => rfl
  | cons b l ih =>
      have hmap : ∀ rest : List α,
          (rest.inits.map (b :: ·)).zip rest = (rest.inits.zip rest).map fun p => (b :: p.1, p.2) := by
        intro rest
        rw [List.zip_map_left]
        rfl
      simp only [List.cons_append, List.inits_cons, List.zip_cons_cons, hmap, ih, List.map_append]
      rfl

theorem filterMap_tails_concat {α β : Type} (f : List α → Option β) (hnil : f [] = none)
    (l : List α) (a : α) :
    (l ++ [a]).tails.filterMap f =
      (l.tails.filterMap fun t => if t = [] then none else f (t ++ [a])) ++ (f [a]).toList := by
  induction l with
  | nil => cases hone : f [a] <;> simp [hnil, hone]
  | cons b l ih =>
      rw [List.cons_append, List.tails_cons, List.tails_cons, List.filterMap_cons,
        List.filterMap_cons, ih, if_neg (List.cons_ne_nil b l), List.cons_append]
      cases f (b :: (l ++ [a])) <;> rfl

variable (options : ScanOptions) (events : List Event)

theorem declarations_concat (event : Event) :
    declarations options (events ++ [event]) =
      declarations options events ++ declarationsAt options events event := by
  rw [declarations, zip_inits_concat, List.flatMap_append, List.flatMap_singleton]
  rfl

@[simp]
theorem labelsOf_append (first second : List Event) :
    labelsOf (first ++ second) = labelsOf first ++ labelsOf second :=
  List.filterMap_append

@[simp]
theorem labelsOf_label (occurrence : Occurrence) (rest : List Event) :
    labelsOf (.label occurrence :: rest) = occurrence :: labelsOf rest := rfl

@[simp]
theorem labelsOf_terminator (terminator : Terminator) (braceDepth : Nat) (rest : List Event) :
    labelsOf (.terminator terminator braceDepth :: rest) = labelsOf rest := rfl

@[simp]
theorem labelsOf_semicolon (rest : List Event) : labelsOf (.semicolon :: rest) = labelsOf rest := rfl

@[simp]
theorem labelsOf_nil : labelsOf [] = [] := rfl

theorem mem_labelsOf_iff {events : List Event} {label : Occurrence} :
    label ∈ labelsOf events ↔ .label label ∈ events := by
  unfold labelsOf
  rw [List.mem_filterMap]
  constructor
  · rintro ⟨event, hmem, hevent⟩
    cases event <;> simp_all [Event.label?]
  · exact fun hmem => ⟨.label label, hmem, rfl⟩

@[simp]
theorem settles_label (terminator : Terminator) (occurrence : Occurrence) :
    (Event.label occurrence).settles terminator = false := rfl

@[simp]
theorem settles_terminator (terminator other : Terminator) (braceDepth : Nat) :
    (Event.terminator other braceDepth).settles terminator = (other == terminator) := rfl

@[simp]
theorem settles_semicolon (terminator : Terminator) :
    Event.semicolon.settles terminator = true := rfl

theorem history_concat_label (occurrence : Occurrence) :
    history (events ++ [.label occurrence]) =
      history events ++ [occurrence.toLabel (history events).length] := by
  simp [history, List.mapIdx_append]

theorem history_concat_of_label?_eq_none {event : Event} (hlabel : event.label? = none) :
    history (events ++ [event]) = history events := by
  simp [history, labelsOf, hlabel]

theorem outstanding_concat_label (occurrence : Occurrence) :
    outstanding options (events ++ [.label occurrence]) =
      outstanding options events ++
        (occurrence.keywordKind? options.distinctInterfaces).toList.map
          (⟨·, (labelsOf events).length⟩) := by
  rw [outstanding, filterMap_tails_concat _ rfl, outstanding]
  congr 1
  · refine List.filterMap_congr fun suffix _ => ?_
    match suffix with
    | [] => rfl
    | .label keyword :: after => simp [waiting?, List.any_append, -List.any_eq_true]
    | .terminator _ _ :: _ => rfl
    | .semicolon :: _ => rfl
  · simp only [waiting?]
    cases occurrence.keywordKind? options.distinctInterfaces <;> simp

theorem outstanding_concat_terminator (terminator : Terminator) (braceDepth : Nat) :
    outstanding options (events ++ [.terminator terminator braceDepth]) =
      (outstanding options events).filter (·.terminator != terminator) := by
  rw [outstanding, filterMap_tails_concat _ rfl, outstanding, List.filter_filterMap]
  simp only [waiting?, Option.toList_none, List.append_nil]
  refine List.filterMap_congr fun suffix _ => ?_
  match suffix with
  | [] => rfl
  | .label keyword :: after =>
      simp only [List.cons_append, reduceCtorEq, if_false, labelsOf_append,
        labelsOf_terminator, labelsOf_nil, List.append_nil, List.any_append, List.any_cons,
        List.any_nil, Bool.or_false, settles_terminator]
      cases hkind : keyword.keywordKind? options.distinctInterfaces with
      | none => rfl
      | some kind =>
          simp only
          generalize after.any (·.settles kind.terminator) = settled
          by_cases hclosed : kind.terminator = terminator
          · cases settled <;> simp [Option.filter_some, Intent.terminator, hclosed]
          · have hother : (terminator == kind.terminator) = false := by simpa using Ne.symm hclosed
            cases settled <;> simp [Option.filter_some, Intent.terminator, hclosed, hother]
  | .terminator _ _ :: _ => rfl
  | .semicolon :: _ => rfl

theorem outstanding_concat_semicolon :
    outstanding options (events ++ [.semicolon]) = [] := by
  rw [outstanding, filterMap_tails_concat _ rfl]
  simp only [waiting?, Option.toList_none, List.append_nil, List.filterMap_eq_nil_iff]
  intro suffix _
  match suffix with
  | [] => rfl
  | .label keyword :: after =>
      simp only [List.cons_append]
      cases keyword.keywordKind? options.distinctInterfaces <;> simp [List.any_append]
  | .terminator _ _ :: _ => rfl
  | .semicolon :: _ => rfl

end Concat

/-! ## The invariant -/

/-- The end column of every label is a counter value. -/
def LabelsFit (events : List Event) : Prop :=
  ∀ label ∈ labelsOf events, label.start.column + label.text.length ≤ counterMax

/-- What the recognizer holds, in terms of the trace so far. -/
structure Recognizer.Tracks (r : Recognizer) (options : ScanOptions) (events : List Event) :
    Prop where
  options_eq : r.options = options
  capacity_eq : r.lookback.capacity = max options.lookbackCapacity 2
  remembers : r.lookback.Remembers (history events)
  waiting_eq : r.intents.waiting = outstanding options events
  symbols_eq : LabelsFit events → r.symbols = declarations options events

namespace Recognizer

variable {r : Recognizer} {options : ScanOptions} {events : List Event}

theorem tracks_start (options : ScanOptions) : (start options).Tracks options [] where
  options_eq := rfl
  capacity_eq := rfl
  remembers := Lookback.remembers_empty _
  waiting_eq := rfl
  symbols_eq := fun _ => rfl

section Lookback

variable {before after : List Event} {keyword : Occurrence}

theorem history_at_keyword (before after : List Event) (keyword : Occurrence) (i : Nat) :
    (history (before ++ .label keyword :: after))[(labelsOf before).length + i]? =
      (keyword :: labelsOf after)[i]?.map (Occurrence.toLabel ((labelsOf before).length + i)) := by
  rw [history, List.getElem?_mapIdx, labelsOf_append, labelsOf_label,
    List.getElem?_append_right (Nat.le_add_right _ _), Nat.add_sub_cancel_left]

theorem length_history_of_keyword :
    (history (before ++ .label keyword :: after)).length =
      (labelsOf before).length + ((labelsOf after).length + 1) := by
  simp [history]

/-- The label that the lookback gives for a keyword of the trace is the first one after it, provided
that the keyword is within reach. -/
theorem Tracks.nameAfter_eq (htracks : r.Tracks options (before ++ .label keyword :: after)) :
    r.lookback.nameAfter (labelsOf before).length =
      if (labelsOf after).length + 1 ≤ max options.lookbackCapacity 2 then
        (labelsOf after).head?.map (Occurrence.toLabel ((labelsOf before).length + 1))
      else none := by
  rw [htracks.remembers.nameAfter_eq, htracks.capacity_eq, length_history_of_keyword,
    history_at_keyword]
  simp [List.head?_eq_getElem?]

theorem Tracks.get?_eq (htracks : r.Tracks options (before ++ .label keyword :: after)) :
    r.lookback.get? (labelsOf before).length =
      if (labelsOf after).length + 1 ≤ max options.lookbackCapacity 2 then
        some (keyword.toLabel (labelsOf before).length)
      else none := by
  have hkeyword := history_at_keyword before after keyword 0
  rw [Nat.add_zero] at hkeyword
  rw [htracks.remembers.get?_eq, htracks.capacity_eq, length_history_of_keyword, hkeyword]
  simp

theorem Tracks.declared?_eq (htracks : r.Tracks options (before ++ .label keyword :: after))
    (hfit : LabelsFit (before ++ .label keyword :: after)) (kind : Kind) (braceDepth : Nat) :
    declared? r.lookback braceDepth ⟨kind, (labelsOf before).length⟩ =
      match labelsOf after with
      | name :: others =>
        if isDeclaredName name.text ∧ others.length + 2 ≤ max options.lookbackCapacity 2 then
          some ⟨name.text, kind, name.start.line, name.start.column,
            name.start.column + name.text.length, braceDepth⟩
        else none
      | [] => none := by
  rw [declared?, htracks.nameAfter_eq]
  cases hlabels : labelsOf after with
  | nil => simp
  | cons name others =>
      have hname : name.start.column + name.text.length ≤ counterMax :=
        hfit name (by simp [hlabels])
      by_cases hreach : others.length + 2 ≤ max options.lookbackCapacity 2
      · by_cases hdeclared : isDeclaredName name.text
        · simp only [List.length_cons, hreach, if_true, List.head?_cons, Option.map_some,
            Option.filter_some, Occurrence.toLabel, hdeclared, and_self, Label.toSymbol,
            Label.endColumn, satAdd_eq_add hname]
        · simp [Occurrence.toLabel, hdeclared]
      · simp [hreach]

end Lookback

theorem Tracks.confirmed_eq (htracks : r.Tracks options events) (hfit : LabelsFit events)
    (terminator : Terminator) (braceDepth : Nat) {suffix : List Event}
    (hsuffix : suffix ∈ events.tails) :
    ((waiting? options (labelsOf events).length suffix).filter (·.terminator == terminator)).bind
        (declared? r.lookback braceDepth) =
      declaration? options terminator braceDepth suffix := by
  obtain ⟨before, rfl⟩ := (List.mem_tails _ _).mp hsuffix
  match suffix with
  | [] => rfl
  | .terminator _ _ :: _ => rfl
  | .semicolon :: _ => rfl
  | .label keyword :: after =>
      have hseq : (labelsOf (before ++ .label keyword :: after)).length -
          ((labelsOf after).length + 1) = (labelsOf before).length := by
        simp
      have hdeclared := htracks.declared?_eq hfit
      rw [waiting?, declaration?, hseq]
      cases keyword.keywordKind? options.distinctInterfaces with
      | none => rfl
      | some kind =>
          dsimp only
          by_cases hclosed : kind.terminator = terminator
          · subst hclosed
            generalize after.any (·.settles kind.terminator) = settled
            cases settled with
            | true => cases labelsOf after <;> simp
            | false =>
                rw [if_neg Bool.false_ne_true, Option.filter_some, Intent.terminator,
                  if_pos (beq_self_eq_true _), Option.bind_some, hdeclared]
                cases labelsOf after <;> simp
          · have hrefused : ∀ (settled : Bool) (intent : Intent), intent.kind = kind →
                ((if settled then none else some intent).filter (·.terminator == terminator)) =
                  none := by
              intro settled intent hkind
              cases settled <;> simp [Intent.terminator, hkind, hclosed]
            rw [hrefused _ _ rfl]
            cases labelsOf after <;> simp [hclosed]

theorem Tracks.confirmedBy_eq (htracks : r.Tracks options events) (hfit : LabelsFit events)
    (terminator : Terminator) (braceDepth : Nat) :
    (r.intents.confirmedBy terminator).filterMap (declared? r.lookback braceDepth) =
      declarationsAt options events (.terminator terminator braceDepth) := by
  rw [IntentQueue.confirmedBy, htracks.waiting_eq, outstanding, List.filter_filterMap,
    List.filterMap_filterMap, declarationsAt]
  exact List.filterMap_congr fun suffix hsuffix =>
    htracks.confirmed_eq hfit terminator braceDepth hsuffix

/-- **One event.** The invariant is kept. -/
theorem Tracks.take (htracks : r.Tracks options events) (event : Event) :
    (r.take event).Tracks options (events ++ [event]) := by
  have hfit : LabelsFit (events ++ [event]) → LabelsFit events := fun hfit label hlabel =>
    hfit label (by simp [hlabel])
  cases event with
  | label occurrence =>
      refine ⟨htracks.options_eq, htracks.capacity_eq, ?_, ?_, ?_⟩
      · rw [history_concat_label]
        exact htracks.remembers.push _ _ _
      · have hnext : r.lookback.next = (labelsOf events).length := by
          rw [htracks.remembers.next_eq, history, List.length_mapIdx]
        rw [outstanding_concat_label, ← htracks.waiting_eq, Recognizer.take, htracks.options_eq,
          ← hnext]
        cases occurrence.keywordKind? options.distinctInterfaces with
        | none => simp
        | some kind => rfl
      · intro hlabels
        rw [declarations_concat, ← htracks.symbols_eq (hfit hlabels)]
        exact (List.append_nil _).symm
  | terminator terminator braceDepth =>
      refine ⟨htracks.options_eq, htracks.capacity_eq, ?_, ?_, ?_⟩
      · rw [history_concat_of_label?_eq_none _ rfl]
        exact htracks.remembers
      · rw [outstanding_concat_terminator, ← htracks.waiting_eq]
        rfl
      · intro hlabels
        rw [declarations_concat, ← htracks.symbols_eq (hfit hlabels),
          ← htracks.confirmedBy_eq (hfit hlabels)]
        rfl
  | semicolon =>
      refine ⟨htracks.options_eq, htracks.capacity_eq, ?_, ?_, ?_⟩
      · rw [history_concat_of_label?_eq_none _ rfl]
        exact htracks.remembers
      · rw [outstanding_concat_semicolon]
        rfl
      · intro hlabels
        rw [declarations_concat, ← htracks.symbols_eq (hfit hlabels)]
        exact (List.append_nil _).symm

/-- **A whole trace.** The recognizer holds what the trace says. -/
theorem tracks_takeAll (options : ScanOptions) (events : List Event) :
    ((start options).takeAll events).Tracks options events := by
  induction events using List.reverseRecOn with
  | nil => exact tracks_start options
  | append_singleton events event ih =>
      rw [takeAll_append]
      exact ih.take event

end Recognizer

theorem Recognizer.Tracks.unresolved_eq {s : Scanner} {options : ScanOptions} {events : List Event}
    (htracks : s.recognizer.Tracks options events) :
    s.intents.waiting.filterMap s.unresolved? = unresolvedIn options events := by
  have hwaiting : s.intents.waiting = outstanding options events := htracks.waiting_eq
  rw [hwaiting, outstanding, List.filterMap_filterMap, unresolvedIn]
  refine List.filterMap_congr fun suffix hsuffix => ?_
  obtain ⟨before, rfl⟩ := (List.mem_tails _ _).mp hsuffix
  match suffix with
  | [] => rfl
  | .terminator _ _ :: _ => rfl
  | .semicolon :: _ => rfl
  | .label keyword :: after =>
      have hseq : (labelsOf (before ++ .label keyword :: after)).length -
          ((labelsOf after).length + 1) = (labelsOf before).length := by
        simp
      rw [waiting?, unresolvedAt?, hseq]
      cases keyword.keywordKind? options.distinctInterfaces with
      | none => rfl
      | some kind =>
          dsimp only
          generalize after.any (·.settles kind.terminator) = settled
          cases settled with
          | true => simp
          | false =>
              have hget : s.lookback.get? (labelsOf before).length = _ := htracks.get?_eq
              rw [if_neg Bool.false_ne_true, Option.bind_some, Scanner.unresolved?, hget]
              by_cases hreach : (labelsOf after).length + 1 ≤ max options.lookbackCapacity 2
              · simp [hreach, Occurrence.toLabel]
              · simp [hreach]

/-! ## The declarations of a text -/

/-- No label ends past the largest counter value unless the text has a place past it. -/
theorem WithinCounters.labelsFit {text : String} (hwithin : WithinCounters text.toList)
    (options : ScanOptions) : LabelsFit (scanTrace options text) := by
  intro label hlabel
  have hstands := standsIn_of_mem_scanTrace (mem_labelsOf_iff.mp hlabel)
  obtain ⟨before, after, hbefore, hvisible, hstart, -, -⟩ := hstands.placed
  obtain ⟨upTo, rest, htext, hupTo, -⟩ := List.filter_eq_append_iff.mp hvisible
  have hline := hstands.newline_notMem
  have hend := (hwithin upTo ⟨rest, htext.symm⟩).2
  rw [placeAfter_of_visible_append upTo hline hupTo] at hend
  rw [hstart, (hwithin.of_prefix hbefore).position_run, ← String.length_toList]
  exact hend

theorem labelsFit_scanTrace (options : ScanOptions) {text : String} (hlength : text.length < counterMax) :
    LabelsFit (scanTrace options text) := by
  rw [← String.length_toList] at hlength
  exact (withinCounters_of_length hlength).labelsFit options

theorem tracks_close (options : ScanOptions) (text : String) :
    ((Scanner.start options).feed text).close.recognizer.Tracks options (scanTrace options text) := by
  rw [recognizer_scan]
  exact Recognizer.tracks_takeAll options _

theorem WithinCounters.symbols_scan {text : String} (hwithin : WithinCounters text.toList)
    (options : ScanOptions) :
    (scan options text).symbols = declarations options (scanTrace options text) :=
  (tracks_close options text).symbols_eq (hwithin.labelsFit options)

theorem unresolved_scan (options : ScanOptions) (text : String) :
    (scan options text).unresolved = unresolvedIn options (scanTrace options text) :=
  (tracks_close options text).unresolved_eq

/-- **The declarations of a text.** The queue of intents and the bounded lookback find exactly the
declarations that can be read off the whole trace of the text. -/
theorem symbols_scan_eq_declarations (options : ScanOptions) (text : String)
    (hlength : text.length < counterMax) :
    (scan options text).symbols = declarations options (scanTrace options text) :=
  (tracks_close options text).symbols_eq (labelsFit_scanTrace options hlength)

/-- With room for three labels the class is forgotten while the function waits before it, and the
imported function is given up at the semicolon. -/
theorem symbols_scan_eq_declarations_short_lookback :
    "<?php class A function f() \x7b\x7d use function g; trait T \x7b".length < counterMax ∧
      (scan ⟨true, 3, 1⟩ "<?php class A function f() \x7b\x7d use function g; trait T \x7b").symbols =
        declarations ⟨true, 3, 1⟩
          (scanTrace ⟨true, 3, 1⟩ "<?php class A function f() \x7b\x7d use function g; trait T \x7b") ∧
      (scan ⟨true, 3, 1⟩ "<?php class A function f() \x7b\x7d use function g; trait T \x7b").symbols =
        [⟨"f", .functionDecl, 1, 23, 24, 0⟩, ⟨"T", .classDecl, 1, 52, 53, 0⟩] :=
  ⟨by decide, symbols_scan_eq_declarations _ _ (by decide), by decide +kernel⟩

end PhpOutline
