import PhpOutline.Proofs.Declarations

/-!
# Keywords and names

A symbol comes from two labels, its keyword and its name, and the report no longer says which ones.
Here the recognizer also gives the number of the keyword, so that one can ask what else the label that
names a symbol is used for. A label that stands right after a keyword can be a keyword itself: it then
waits for a terminator of its own, whatever becomes of the keyword before it.
-/

namespace PhpOutline

namespace Recognizer

/-- The symbols that an event resolves, each with the number of its keyword. -/
def resolvedBy (r : Recognizer) : Event → List (Nat × Symbol)
  | .terminator terminator braceDepth =>
    (r.intents.confirmedBy terminator).filterMap fun intent =>
      (declared? r.lookback braceDepth intent).map (intent.keyword, ·)
  | _ => []

def resolutions (r : Recognizer) : List Event → List (Nat × Symbol)
  | [] => []
  | event :: rest => r.resolvedBy event ++ (r.take event).resolutions rest

variable {r : Recognizer} {options : ScanOptions} {events : List Event}

theorem symbols_take (r : Recognizer) (event : Event) :
    (r.take event).symbols = r.symbols ++ (r.resolvedBy event).map Prod.snd := by
  cases event with
  | label _ => exact (List.append_nil _).symm
  | semicolon => exact (List.append_nil _).symm
  | terminator terminator braceDepth =>
      simp only [take, resolvedBy, List.map_filterMap, Option.map_map, Function.comp_def, Option.map_id']

theorem symbols_takeAll (r : Recognizer) (events : List Event) :
    (r.takeAll events).symbols = r.symbols ++ (r.resolutions events).map Prod.snd := by
  induction events generalizing r with
  | nil => exact (List.append_nil _).symm
  | cons event rest ih =>
      calc ((r.take event).takeAll rest).symbols
        _ = (r.take event).symbols ++ ((r.take event).resolutions rest).map Prod.snd := ih _
        _ = r.symbols ++ (r.resolutions (event :: rest)).map Prod.snd := by
            rw [symbols_take, resolutions, List.map_append, List.append_assoc]

theorem resolutions_concat (r : Recognizer) (events : List Event) (event : Event) :
    r.resolutions (events ++ [event]) =
      r.resolutions events ++ (r.takeAll events).resolvedBy event := by
  induction events generalizing r with
  | nil => simp [resolutions, takeAll]
  | cons first rest ih =>
      rw [List.cons_append, resolutions, resolutions, ih, List.append_assoc]
      rfl

theorem mem_resolutions_iff {entry : Nat × Symbol} :
    entry ∈ r.resolutions events ↔
      ∃ before event after, events = before ++ event :: after ∧
        entry ∈ (r.takeAll before).resolvedBy event := by
  induction events generalizing r with
  | nil => simp [resolutions]
  | cons first rest ih =>
      rw [resolutions, List.mem_append, ih]
      constructor
      · rintro (hfirst | ⟨before, event, after, rfl, hentry⟩)
        · exact ⟨[], first, rest, rfl, hfirst⟩
        · exact ⟨first :: before, event, after, rfl, hentry⟩
      · rintro ⟨before, event, after, hevents, hentry⟩
        cases before with
        | nil =>
            obtain ⟨rfl, rfl⟩ := List.cons.inj hevents
            exact Or.inl hentry
        | cons head before =>
            obtain ⟨rfl, rfl⟩ := List.cons.inj hevents
            exact Or.inr ⟨before, event, after, rfl, hentry⟩

end Recognizer

/-! ## Headers -/

structure Symbol.IsNamedBy (symbol : Symbol) (label : Occurrence) : Prop where
  text : symbol.name = label.text
  line : symbol.line = label.start.line
  startColumn : symbol.startColumn = label.start.column
  endColumn : symbol.endColumn = satAdd label.start.column label.text.length

theorem toSymbol_toLabel_eq_iff {label : Occurrence} {seq braceDepth : Nat} {kind : Kind} {symbol : Symbol} :
    (label.toLabel seq).toSymbol kind braceDepth = symbol ↔
      symbol.kind = kind ∧ symbol.braceDepth = braceDepth ∧ symbol.IsNamedBy label := by
  constructor
  · rintro rfl
    exact ⟨rfl, rfl, rfl, rfl, rfl, rfl⟩
  · rintro ⟨rfl, rfl, hnamed⟩
    obtain ⟨name, kind, line, startColumn, endColumn, braceDepth⟩ := symbol
    obtain ⟨rfl, rfl, rfl, rfl⟩ := hnamed
    rfl

/-- The events from a keyword to an event are the header of a declaration: the event is the terminator
of the keyword, nothing in between has settled the keyword, the label after it is the name of the symbol,
and all labels from the keyword on are still remembered. -/
structure IsHeader (options : ScanOptions) (keyword : Occurrence) (between : List Event) (event : Event)
    (symbol : Symbol) : Prop where
  kind : keyword.keywordKind? options.distinctInterfaces = some symbol.kind
  event_eq : event = .terminator symbol.kind.terminator symbol.braceDepth
  unsettled : ¬between.any (·.settles symbol.kind.terminator)
  named : ∃ name others, labelsOf between = name :: others ∧ isDeclaredName name.text ∧
    others.length + 2 ≤ max options.lookbackCapacity 2 ∧ symbol.IsNamedBy name

/-- The keyword and some of the events after it are the header of a declaration. -/
def Declares (options : ScanOptions) (keyword : Occurrence) (after : List Event) (symbol : Symbol) : Prop :=
  ∃ between event rest, after = between ++ event :: rest ∧ IsHeader options keyword between event symbol

/-- The label with the given number and the events around it. -/
structure StandsAt (events : List Event) (number : Nat) (before : List Event) (label : Occurrence)
    (after : List Event) : Prop where
  events_eq : events = before ++ .label label :: after
  number_eq : (labelsOf before).length = number

section StandsAt

variable {events before after before' after' : List Event} {label label' : Occurrence} {i j : Nat}

theorem StandsAt.getElem?_labelsOf (hstands : StandsAt events i before label after) (j : Nat) :
    (labelsOf events)[i + j]? = (label :: labelsOf after)[j]? := by
  rw [hstands.events_eq, labelsOf_append, labelsOf_label, ← hstands.number_eq,
    List.getElem?_append_right (Nat.le_add_right _ _), Nat.add_sub_cancel_left]

/-- Of two labels, the one with the smaller number stands first. -/
theorem StandsAt.eq_or_between (hfirst : StandsAt events i before label after)
    (hsecond : StandsAt events j before' label' after') (hle : i ≤ j) :
    (i = j ∧ label = label' ∧ after = after') ∨
      ∃ gap, j = i + 1 + (labelsOf gap).length ∧ after = gap ++ .label label' :: after' := by
  have hi := hfirst.number_eq
  have hj := hsecond.number_eq
  obtain ⟨gap, rfl, hgap⟩ | ⟨gap, rfl, hgap⟩ :=
    List.append_eq_append_iff.mp (hfirst.events_eq.symm.trans hsecond.events_eq)
  · rw [labelsOf_append, List.length_append, hi] at hj
    cases gap with
    | nil =>
        obtain ⟨hlabel, hafter⟩ := List.cons.inj hgap
        exact Or.inl ⟨hj, Event.label.inj hlabel, hafter⟩
    | cons head gap =>
        obtain ⟨rfl, hafter⟩ := List.cons.inj hgap
        rw [labelsOf_label, List.length_cons] at hj
        exact Or.inr ⟨gap, by omega, hafter⟩
  · rw [labelsOf_append, List.length_append, hj] at hi
    cases gap with
    | nil =>
        obtain ⟨hlabel, hafter⟩ := List.cons.inj hgap
        exact Or.inl ⟨hi.symm, (Event.label.inj hlabel).symm, hafter.symm⟩
    | cons head gap =>
        obtain ⟨rfl, -⟩ := List.cons.inj hgap
        rw [labelsOf_label, List.length_cons] at hi
        omega

theorem StandsAt.unique (hfirst : StandsAt events i before label after)
    (hsecond : StandsAt events i before' label' after') : label = label' ∧ after = after' := by
  obtain ⟨-, hsame⟩ | ⟨gap, hnumber, -⟩ := hfirst.eq_or_between hsecond le_rfl
  · exact hsame
  · omega

/-- Between a label and the next one there is no other. -/
theorem StandsAt.next (hfirst : StandsAt events i before label after)
    (hsecond : StandsAt events (i + 1) before' label' after') :
    ∃ gap, labelsOf gap = [] ∧ after = gap ++ .label label' :: after' := by
  obtain ⟨hnumber, -⟩ | ⟨gap, hnumber, hafter⟩ := hfirst.eq_or_between hsecond (Nat.le_succ i)
  · omega
  · exact ⟨gap, List.eq_nil_of_length_eq_zero (by omega), hafter⟩

theorem StandsAt.append (hstands : StandsAt events i before label after) (more : List Event) :
    StandsAt (events ++ more) i before label (after ++ more) := by
  refine ⟨?_, hstands.number_eq⟩
  rw [hstands.events_eq, List.append_assoc, List.cons_append]

end StandsAt

/-! ## What is resolved -/

section Outstanding

variable {options : ScanOptions} {events : List Event}

theorem mem_outstanding_iff {intent : Intent} :
    intent ∈ outstanding options events ↔
      ∃ before keyword after, StandsAt events intent.keyword before keyword after ∧
        keyword.keywordKind? options.distinctInterfaces = some intent.kind ∧
        ¬after.any (·.settles intent.terminator) := by
  rw [outstanding, List.mem_filterMap]
  constructor
  · rintro ⟨suffix, hsuffix, hwaiting⟩
    obtain ⟨before, rfl⟩ := (List.mem_tails _ _).mp hsuffix
    unfold waiting? at hwaiting
    split at hwaiting
    · rename_i keyword after
      split at hwaiting
      · rename_i kind hkind
        split_ifs at hwaiting with hsettled
        obtain rfl := Option.some.inj hwaiting
        refine ⟨before, keyword, after, ⟨rfl, ?_⟩, hkind, hsettled⟩
        simp
      · cases hwaiting
    · cases hwaiting
  · rintro ⟨before, keyword, after, hstands, hkind, hopen⟩
    refine ⟨.label keyword :: after, ?_, ?_⟩
    · rw [List.mem_tails, hstands.events_eq]
      exact List.suffix_append _ _
    · have hnumber : (labelsOf events).length - ((labelsOf after).length + 1) = intent.keyword := by
        simp [hstands.events_eq, ← hstands.number_eq]
      rw [waiting?, hkind]
      dsimp only
      rw [hnumber]
      exact if_neg hopen

theorem nodup_outstanding (options : ScanOptions) (events : List Event) :
    ((outstanding options events).map Intent.keyword).Nodup := by
  induction events using List.reverseRecOn with
  | nil => exact List.nodup_nil
  | append_singleton events event ih =>
      cases event with
      | semicolon =>
          rw [outstanding_concat_semicolon]
          exact List.nodup_nil
      | terminator terminator braceDepth =>
          rw [outstanding_concat_terminator]
          exact ih.sublist (List.filter_sublist.map _)
      | label occurrence =>
          rw [outstanding_concat_label]
          cases occurrence.keywordKind? options.distinctInterfaces with
          | none => simpa using ih
          | some kind =>
              -- The keywords that wait already have smaller numbers.
              have hnew : (labelsOf events).length ∉ (outstanding options events).map Intent.keyword := by
                intro hmem
                obtain ⟨intent, hintent, hnumber⟩ := List.mem_map.mp hmem
                obtain ⟨before, keyword, after, hstands, -⟩ := mem_outstanding_iff.mp hintent
                have hlength := congrArg (fun l => (labelsOf l).length) hstands.events_eq
                simp only [labelsOf_append, labelsOf_label, List.length_append, List.length_cons,
                  hstands.number_eq] at hlength
                omega
              rw [Option.toList_some, List.map_singleton, List.map_append, List.map_singleton]
              exact (List.perm_append_singleton _ _).nodup_iff.mpr (List.nodup_cons.mpr ⟨hnew, ih⟩)

end Outstanding

namespace Recognizer

variable {r : Recognizer} {options : ScanOptions} {events : List Event} {i : Nat} {symbol : Symbol}

theorem Tracks.declared?_eq_some_iff {before after : List Event} {keyword : Occurrence}
    (htracks : r.Tracks options events) (hstands : StandsAt events i before keyword after) (kind : Kind)
    (braceDepth : Nat) :
    declared? r.lookback braceDepth ⟨kind, i⟩ = some symbol ↔
      symbol.kind = kind ∧ symbol.braceDepth = braceDepth ∧
        ∃ name others, labelsOf after = name :: others ∧ isDeclaredName name.text ∧
          others.length + 2 ≤ max options.lookbackCapacity 2 ∧ symbol.IsNamedBy name := by
  obtain ⟨rfl, rfl⟩ := hstands
  rw [declared?, htracks.nameAfter_eq]
  simp only [Option.map_eq_some_iff, Option.filter_eq_some_iff, Option.ite_none_right_eq_some]
  constructor
  · rintro ⟨_, ⟨⟨hreach, name, hhead, rfl⟩, hname⟩, hsymbol⟩
    obtain ⟨others, hlabels⟩ := List.head?_eq_some_iff.mp hhead
    obtain ⟨hkind, hdepth, hnamed⟩ := toSymbol_toLabel_eq_iff.mp hsymbol
    rw [hlabels] at hreach
    exact ⟨hkind, hdepth, name, others, hlabels, hname, hreach, hnamed⟩
  · rintro ⟨hkind, hdepth, name, others, hlabels, hname, hreach, hnamed⟩
    rw [hlabels]
    exact ⟨_, ⟨⟨hreach, name, rfl, rfl⟩, hname⟩, toSymbol_toLabel_eq_iff.mpr ⟨hkind, hdepth, hnamed⟩⟩

/-- **One event.** What it resolves are the declarations whose headers end with it. -/
theorem Tracks.mem_resolvedBy_iff (htracks : r.Tracks options events) {event : Event} :
    (i, symbol) ∈ r.resolvedBy event ↔
      ∃ before keyword between, StandsAt events i before keyword between ∧
        IsHeader options keyword between event symbol := by
  constructor
  · intro hmem
    cases event with
    | label _ => cases hmem
    | semicolon => cases hmem
    | terminator terminator braceDepth =>
        obtain ⟨intent, hintent, hentry⟩ := List.mem_filterMap.mp hmem
        obtain ⟨declared, hdeclared, hentry⟩ := Option.map_eq_some_iff.mp hentry
        obtain ⟨rfl, rfl⟩ := Prod.mk.inj hentry
        obtain ⟨hwaiting, hterminator⟩ := List.mem_filter.mp hintent
        rw [htracks.waiting_eq] at hwaiting
        obtain ⟨before, keyword, between, hstands, hkind, hopen⟩ := mem_outstanding_iff.mp hwaiting
        obtain ⟨hsame, hdepth, hnamed⟩ :=
          (htracks.declared?_eq_some_iff hstands intent.kind braceDepth).mp hdeclared
        refine ⟨before, keyword, between, hstands, ?_, ?_, ?_, hnamed⟩
        · rw [hkind, hsame]
        · rw [hsame, hdepth, ← beq_iff_eq.mp hterminator]
          rfl
        · rw [hsame]
          exact hopen
  · rintro ⟨before, keyword, between, hstands, hheader⟩
    have hwaiting : ⟨symbol.kind, i⟩ ∈ r.intents.waiting := by
      rw [htracks.waiting_eq, mem_outstanding_iff]
      exact ⟨before, keyword, between, hstands, hheader.kind, hheader.unsettled⟩
    have hdeclared := (htracks.declared?_eq_some_iff hstands symbol.kind symbol.braceDepth).mpr
      ⟨rfl, rfl, hheader.named⟩
    rw [hheader.event_eq]
    refine List.mem_filterMap.mpr ⟨⟨symbol.kind, i⟩, List.mem_filter.mpr ⟨hwaiting, ?_⟩, ?_⟩
    · exact beq_self_eq_true _
    · rw [hdeclared]
      rfl

/-- **A whole trace.** What it resolves are the declarations that its keywords begin. -/
theorem mem_resolutions_start_iff :
    (i, symbol) ∈ (start options).resolutions events ↔
      ∃ before keyword after, StandsAt events i before keyword after ∧
        Declares options keyword after symbol := by
  rw [mem_resolutions_iff]
  constructor
  · rintro ⟨read, event, rest, rfl, hmem⟩
    obtain ⟨before, keyword, between, hstands, hheader⟩ :=
      (tracks_takeAll options read).mem_resolvedBy_iff.mp hmem
    exact ⟨before, keyword, _, hstands.append (event :: rest), between, event, rest, rfl, hheader⟩
  · rintro ⟨before, keyword, after, ⟨rfl, rfl⟩, between, event, rest, rfl, hheader⟩
    refine ⟨before ++ .label keyword :: between, event, rest, by simp, ?_⟩
    exact (tracks_takeAll options _).mem_resolvedBy_iff.mpr
      ⟨before, keyword, between, ⟨rfl, rfl⟩, hheader⟩

theorem Tracks.nodup_resolvedBy (htracks : r.Tracks options events) (event : Event) :
    ((r.resolvedBy event).map Prod.fst).Nodup := by
  cases event with
  | label _ => exact List.nodup_nil
  | semicolon => exact List.nodup_nil
  | terminator terminator braceDepth =>
      have hwaiting := nodup_outstanding options events
      rw [← htracks.waiting_eq, List.Nodup, List.pairwise_map] at hwaiting
      rw [List.Nodup, List.pairwise_map, resolvedBy, List.pairwise_filterMap]
      refine (hwaiting.filter _).imp fun {a b} hne entry hentry entry' hentry' => ?_
      obtain ⟨_, -, rfl⟩ := Option.map_eq_some_iff.mp hentry
      obtain ⟨_, -, rfl⟩ := Option.map_eq_some_iff.mp hentry'
      exact hne

/-- A keyword is resolved only once. -/
theorem nodup_resolutions_start (options : ScanOptions) (events : List Event) :
    (((start options).resolutions events).map Prod.fst).Nodup := by
  induction events using List.reverseRecOn with
  | nil => exact List.nodup_nil
  | append_singleton events event ih =>
      have htracks := tracks_takeAll options events
      rw [resolutions_concat, List.map_append]
      refine List.nodup_append.mpr ⟨ih, htracks.nodup_resolvedBy event, ?_⟩
      intro i hi j hj hij
      obtain ⟨⟨_, symbol⟩, hearlier, rfl⟩ := List.mem_map.mp hi
      obtain ⟨⟨_, symbol'⟩, hlater, rfl⟩ := List.mem_map.mp hj
      obtain rfl : _ = _ := hij
      obtain ⟨before, keyword, after, hstands, between, terminator, rest, rfl, hheader⟩ :=
        mem_resolutions_start_iff.mp hearlier
      obtain ⟨before', keyword', between', hstands', hheader'⟩ := htracks.mem_resolvedBy_iff.mp hlater
      obtain ⟨rfl, rfl⟩ := hstands.unique hstands'
      -- The keyword cannot wait past the terminator that has settled it.
      have hkind : symbol.kind = symbol'.kind :=
        Option.some.inj (hheader.kind.symm.trans hheader'.kind)
      refine hheader'.unsettled ?_
      rw [hheader.event_eq, hkind]
      simp

end Recognizer

/-! ## Labels in two roles -/

section Roles

variable {options : ScanOptions} {events : List Event} {i : Nat} {symbol first second : Symbol}

open Recognizer

theorem labels_of_mem_resolutions (hmem : (i, symbol) ∈ (start options).resolutions events) :
    ∃ keyword name, (labelsOf events)[i]? = some keyword ∧ (labelsOf events)[i + 1]? = some name ∧
      keyword.keywordKind? options.distinctInterfaces = some symbol.kind ∧ symbol.IsNamedBy name := by
  obtain ⟨before, keyword, after, hstands, between, event, rest, rfl, hheader⟩ :=
    mem_resolutions_start_iff.mp hmem
  obtain ⟨name, others, hlabels, -, -, hnamed⟩ := hheader.named
  refine ⟨keyword, name, hstands.getElem?_labelsOf 0, ?_, hheader.kind, hnamed⟩
  rw [hstands.getElem?_labelsOf 1, labelsOf_append, hlabels]
  rfl

theorem resolved_twice_iff :
    (i, first) ∈ (start options).resolutions events ∧ (i + 1, second) ∈ (start options).resolutions events ↔
      ∃ before keyword gap name after, StandsAt events i before keyword (gap ++ .label name :: after) ∧
        labelsOf gap = [] ∧ Declares options keyword (gap ++ .label name :: after) first ∧
        Declares options name after second := by
  constructor
  · rintro ⟨hfirst, hsecond⟩
    obtain ⟨before, keyword, after, hstands, hdeclares⟩ := mem_resolutions_start_iff.mp hfirst
    obtain ⟨_, name, after', hstands', hdeclares'⟩ := mem_resolutions_start_iff.mp hsecond
    obtain ⟨gap, hgap, rfl⟩ := hstands.next hstands'
    exact ⟨before, keyword, gap, name, after', hstands, hgap, hdeclares, hdeclares'⟩
  · rintro ⟨before, keyword, gap, name, after, hstands, hgap, hdeclares, hdeclares'⟩
    refine ⟨mem_resolutions_start_iff.mpr ⟨_, _, _, hstands, hdeclares⟩,
      mem_resolutions_start_iff.mpr ⟨before ++ .label keyword :: gap, name, after, ⟨?_, ?_⟩, hdeclares'⟩⟩
    · rw [hstands.events_eq, List.append_assoc, List.cons_append]
    · simp [hgap, hstands.number_eq]

/-- A name that is the keyword of another symbol is spelt like a keyword. -/
theorem keywordKind?_of_resolved_twice (hfirst : (i, first) ∈ (start options).resolutions events)
    (hsecond : (i + 1, second) ∈ (start options).resolutions events) :
    keywordKind? options.distinctInterfaces first.name = some second.kind := by
  obtain ⟨_, name, -, hname, -, hnamed⟩ := labels_of_mem_resolutions hfirst
  obtain ⟨keyword, _, hkeyword, -, hkind, -⟩ := labels_of_mem_resolutions hsecond
  obtain rfl : name = keyword := Option.some.inj (hname.symm.trans hkeyword)
  rw [Occurrence.keywordKind?, Option.ite_none_right_eq_some] at hkind
  rw [hnamed.text]
  exact hkind.2

end Roles

/-- **Labels in two roles.** Each symbol is resolved from a keyword of its own, and the next label is its
name. That label is the keyword of another symbol exactly if both it and the keyword before it begin the
header of a declaration; it is then spelt like a keyword. So no label has two roles in a text in which no
symbol is named like a keyword. -/
theorem scan_label_roles (options : ScanOptions) (text : String) :
    let events := scanTrace options text
    let resolved := (Recognizer.start options).resolutions events
    (scan options text).symbols = resolved.map Prod.snd ∧
      (resolved.map Prod.fst).Nodup ∧
      (∀ i symbol, (i, symbol) ∈ resolved → ∃ keyword name,
        (labelsOf events)[i]? = some keyword ∧ (labelsOf events)[i + 1]? = some name ∧
          keyword.keywordKind? options.distinctInterfaces = some symbol.kind ∧ symbol.IsNamedBy name) ∧
      (∀ i first second, (i, first) ∈ resolved ∧ (i + 1, second) ∈ resolved ↔
        ∃ before keyword gap name after,
          StandsAt events i before keyword (gap ++ .label name :: after) ∧ labelsOf gap = [] ∧
          Declares options keyword (gap ++ .label name :: after) first ∧
          Declares options name after second) ∧
      ((∀ symbol ∈ (scan options text).symbols,
          keywordKind? options.distinctInterfaces symbol.name = none) →
        ∀ i first second, (i, first) ∈ resolved → (i + 1, second) ∉ resolved) := by
  intro events resolved
  have hsymbols : (scan options text).symbols = resolved.map Prod.snd :=
    calc (scan options text).symbols
      _ = ((Recognizer.start options).takeAll events).symbols :=
          congrArg Recognizer.symbols (recognizer_scan options text)
      _ = resolved.map Prod.snd := Recognizer.symbols_takeAll _ _
  refine ⟨hsymbols, Recognizer.nodup_resolutions_start options events,
    fun _ _ => labels_of_mem_resolutions, fun _ _ _ => resolved_twice_iff, ?_⟩
  intro hnames i first second hfirst hsecond
  have hsymbol : first ∈ (scan options text).symbols := by
    rw [hsymbols]
    exact List.mem_map_of_mem hfirst
  have hkind := keywordKind?_of_resolved_twice hfirst hsecond
  rw [hnames first hsymbol] at hkind
  cases hkind

theorem scan_label_roles_return_type :
    let source := "<?php class A \x7b function f(): Foo \x7b\x7d \x7d"
    let resolved := (Recognizer.start {}).resolutions (scanTrace {} source)
    resolved = [(0, ⟨"A", .classDecl, 1, 12, 13, 0⟩), (2, ⟨"f", .functionDecl, 1, 25, 26, 1⟩)] ∧
      (∀ symbol ∈ (scan {} source).symbols, keywordKind? true symbol.name = none) ∧
      ∀ i first second, (i, first) ∈ resolved → (i + 1, second) ∉ resolved := by
  intro source resolved
  have hnames : ∀ symbol ∈ (scan {} source).symbols, keywordKind? true symbol.name = none := by
    decide +kernel
  exact ⟨by decide +kernel, hnames, (scan_label_roles {} source).2.2.2.2 hnames⟩

/-- The fourth label is the name of a function and the keyword of a class. -/
theorem scan_method_named_class :
    let source := "<?php class A \x7b function class(): Foo \x7b\x7d \x7d"
    let events := scanTrace {} source
    (labelsOf events).map (·.text) = ["class", "A", "function", "class", "Foo"] ∧
      (Recognizer.start {}).resolutions events =
        [(0, ⟨"A", .classDecl, 1, 12, 13, 0⟩), (2, ⟨"class", .functionDecl, 1, 25, 30, 1⟩),
          (3, ⟨"Foo", .classDecl, 1, 34, 37, 1⟩)] ∧
      (scan {} source).symbols.map (·.name) = ["A", "class", "Foo"] := by
  decide +kernel

end PhpOutline
