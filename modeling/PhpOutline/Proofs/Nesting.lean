import PhpOutline.Proofs.ByteReading
import PhpOutline.Proofs.Places

/-!
# How regions nest

The scanner keeps its regions on a stack without a bound, but few stacks ever occur: the page, the
code in it, parentheses in the code, and in the code or in parentheses one string or comment. What one
character can do to the stack is said once, and the shape of the stack, the first halves that may be
remembered, and the order of the places where regions were entered are all read off from that.
-/

namespace PhpOutline

namespace Region

/-- A string or a comment: no other region is entered from it. -/
def isInnermost : Region → Bool
  | doubleQuoted | singleQuoted | lineComment | blockComment => true
  | page | code | parens _ => false

/-- The code, or parentheses in it. -/
def inCode : Region → Bool
  | code | parens _ => true
  | _ => false

/-- What may be remembered in the region of a two-character sequence. -/
def leads : Region → List (Option Char)
  | page | doubleQuoted | singleQuoted => [none]
  | code | parens _ => [none, some '/', some '?']
  | lineComment => [none, some '#', some '?']
  | blockComment => [none, some '*']

theorem none_mem_leads (region : Region) : none ∈ region.leads := by
  cases region <;> simp [leads]

theorem inCode_eq_false {region : Region} (hregion : region.isInnermost) : region.inCode = false := by
  cases region <;> first | rfl | cases hregion

end Region

/-- The stacks that occur. The page at the bottom is left implicit in all of them. -/
inductive RegionStack.Nested : RegionStack → Prop
  | page : Nested .outermost
  | code (start : Position) : Nested ⟨[⟨.code, start⟩]⟩
  | parens (nested : Nat) (start codeStart : Position) :
      Nested ⟨[⟨.parens nested, start⟩, ⟨.code, codeStart⟩]⟩
  | innermost {region : Region} (hregion : region.isInnermost) (start codeStart : Position) :
      Nested ⟨[⟨region, start⟩, ⟨.code, codeStart⟩]⟩
  | inParens {region : Region} (hregion : region.isInnermost) (nested : Nat)
      (start parensStart codeStart : Position) :
      Nested ⟨[⟨region, start⟩, ⟨.parens nested, parensStart⟩, ⟨.code, codeStart⟩]⟩

namespace RegionStack

variable {stack : RegionStack}

/-- A stack that occurs is known from its current region, up to places. -/
theorem Nested.inner_eq (hnested : stack.Nested) :
    match stack.current with
    | .page => stack.inner = []
    | .code => ∃ start, stack.inner = [⟨.code, start⟩]
    | .parens nested => ∃ start codeStart, stack.inner = [⟨.parens nested, start⟩, ⟨.code, codeStart⟩]
    | _ => stack.pop.Nested ∧ stack.pop.current.inCode := by
  cases hnested with
  | page => rfl
  | code start => exact ⟨start, rfl⟩
  | parens nested start codeStart => exact ⟨start, codeStart, rfl⟩
  | @innermost region hregion start codeStart =>
      cases region <;> first | exact ⟨.code codeStart, rfl⟩ | cases hregion
  | @inParens region hregion nested start parensStart codeStart =>
      cases region <;> first | exact ⟨.parens nested parensStart codeStart, rfl⟩ | cases hregion

theorem Nested.eq_of_page (hnested : stack.Nested) (hcurrent : stack.current = .page) :
    stack = .outermost := by
  have hinner := hnested.inner_eq
  rw [hcurrent] at hinner
  exact congrArg RegionStack.mk hinner

theorem Nested.eq_of_code (hnested : stack.Nested) (hcurrent : stack.current = .code) :
    ∃ start, stack = ⟨[⟨.code, start⟩]⟩ := by
  have hinner := hnested.inner_eq
  rw [hcurrent] at hinner
  obtain ⟨start, hstart⟩ := hinner
  exact ⟨start, congrArg RegionStack.mk hstart⟩

theorem Nested.eq_of_parens {nested : Nat} (hnested : stack.Nested)
    (hcurrent : stack.current = .parens nested) :
    ∃ start codeStart, stack = ⟨[⟨.parens nested, start⟩, ⟨.code, codeStart⟩]⟩ := by
  have hinner := hnested.inner_eq
  rw [hcurrent] at hinner
  obtain ⟨start, codeStart, hstart⟩ := hinner
  exact ⟨start, codeStart, congrArg RegionStack.mk hstart⟩

theorem Nested.push_innermost (hnested : stack.Nested) (hcurrent : stack.current.inCode)
    {region : Region} (hregion : region.isInnermost) (start : Position) :
    (stack.push ⟨region, start⟩).Nested := by
  cases hcase : stack.current with
  | code =>
      obtain ⟨codeStart, rfl⟩ := hnested.eq_of_code hcase
      exact .innermost hregion start codeStart
  | parens nested =>
      obtain ⟨parensStart, codeStart, rfl⟩ := hnested.eq_of_parens hcase
      exact .inParens hregion nested start parensStart codeStart
  | _ =>
      rw [hcase] at hcurrent
      cases hcurrent

/-- Whatever is left for the region around it, that region is code. -/
theorem Nested.pop (hnested : stack.Nested) (hpage : stack.current ≠ .page)
    (hcode : stack.current ≠ .code) : stack.pop.Nested ∧ stack.pop.current.inCode := by
  have hinner := hnested.inner_eq
  cases hcase : stack.current with
  | page => exact absurd hcase hpage
  | code => exact absurd hcase hcode
  | parens nested =>
      obtain ⟨start, codeStart, rfl⟩ := hnested.eq_of_parens hcase
      exact ⟨.code codeStart, rfl⟩
  | _ =>
      rw [hcase] at hinner
      exact hinner

end RegionStack

namespace Scanner

/-- What a character can do to the regions and to the first half of a two-character sequence. -/
inductive Transition (s : Scanner) (c : Char) : RegionStack → Option Char → Prop
  | stay {lead : Option Char} (hlead : lead ∈ s.region.leads) : Transition s c s.regions lead
  | enterCode (hregion : s.region = .page) :
      Transition s c (s.regions.push ⟨.code, s.position⟩) none
  | enterParens (hregion : s.region = .code) :
      Transition s c (s.regions.push ⟨.parens 0, s.position⟩) none
  | nest {nested : Nat} (hregion : s.region = .parens nested) (deeper : Nat) :
      Transition s c (s.regions.replace (.parens deeper)) none
  | enterInnermost {region : Region} {start : Position} {lead : Option Char}
      (hregion : s.region.inCode) (hinnermost : region.isInnermost)
      (hstart : start = s.position ∨ s.lead ≠ none ∧ start = s.position.prevColumn)
      (hlead : lead ∈ region.leads) : Transition s c (s.regions.push ⟨region, start⟩) lead
  | leave (hpage : s.region ≠ .page) (hcode : s.region ≠ .code) : Transition s c s.regions.pop none
  | leaveCode (hregion : s.region.inCode ∨ s.region = .lineComment) (hclose : s.closesTag c) :
      Transition s c .outermost none

section Step

variable {s : Scanner} {c : Char}

theorem transition_stepPage (hregion : s.region = .page) (hlead : s.lead ∈ s.region.leads) :
    s.Transition c (s.stepPage c).regions (s.stepPage c).lead := by
  obtain ⟨-, h⟩ | h | h | ⟨-, h⟩ := s.stepPage_cases c <;> rw [h]
  · exact .stay hlead
  · exact .stay hlead
  · exact .stay hlead
  · exact .enterCode hregion

/-! The code and the parentheses in it go on from a scanner that has forgotten the first half, and in
the code has completed the identifier. -/

section Ready

variable {ready : Scanner}

theorem transition_ready (hregion : s.region.inCode) (hregions : ready.regions = s.regions)
    {lead : Option Char} (hlead : lead ∈ [none, some '/', some '?']) :
    s.Transition c ready.regions lead := by
  rw [hregions]
  apply Transition.stay
  cases hcase : s.region <;> rw [hcase] at hregion <;> first | exact hlead | cases hregion

theorem transition_enter (hregion : s.region.inCode) (hregions : ready.regions = s.regions)
    (hposition : ready.position = s.position) {region : Region} (hinnermost : region.isInnermost)
    {lead : Option Char} (hlead : lead ∈ region.leads) :
    s.Transition c (ready.enter region).regions lead := by
  rw [enter, hregions, hposition]
  exact .enterInnermost hregion hinnermost (Or.inl rfl) hlead

theorem transition_stepMark (hregion : s.region = .code) (hregions : ready.regions = s.regions)
    (hposition : ready.position = s.position) (hlead : ready.lead = none) :
    s.Transition c (ready.stepMark c).regions (ready.stepMark c).lead := by
  have hcode : s.region.inCode := by rw [hregion]; rfl
  unfold stepMark
  split
  case h_3 => exact transition_enter hcode hregions hposition rfl (by simp [Region.leads, enterHash])
  case h_4 => exact transition_ready hcode hregions (by simp)
  case h_5 => exact transition_ready hcode hregions (by simp)
  case h_6 =>
    simp only [enter, confirm, hregions, hposition, hlead]
    exact .enterParens hregion
  all_goals simp only [enter, confirm, openBrace, closeBrace, cancel, hlead]
  case h_1 => exact transition_enter hcode hregions hposition rfl (Region.none_mem_leads _)
  case h_2 => exact transition_enter hcode hregions hposition rfl (Region.none_mem_leads _)
  all_goals exact transition_ready hcode hregions (by simp)

theorem transition_stepParensMark {nested : Nat} (hregion : s.region = .parens nested)
    (hregions : ready.regions = s.regions) (hposition : ready.position = s.position)
    (hlead : ready.lead = none) :
    s.Transition c (ready.stepParensMark nested c).regions (ready.stepParensMark nested c).lead := by
  have hcode : s.region.inCode := by rw [hregion]; rfl
  unfold stepParensMark
  split
  case h_5 => exact transition_enter hcode hregions hposition rfl (by simp [Region.leads, enterHash])
  case h_6 => exact transition_ready hcode hregions (by simp)
  case h_7 => exact transition_ready hcode hregions (by simp)
  case h_2 =>
    split_ifs
    · simp only [leave, hregions, hlead]
      exact .leave (by simp [hregion]) (by simp [hregion])
    · simp only [hregions, hlead]
      exact .nest hregion _
  all_goals simp only [enter, openBrace, closeBrace, hlead]
  case h_1 =>
    rw [hregions]
    exact .nest hregion _
  case h_3 => exact transition_enter hcode hregions hposition rfl (Region.none_mem_leads _)
  case h_4 => exact transition_enter hcode hregions hposition rfl (Region.none_mem_leads _)
  all_goals exact transition_ready hcode hregions (by simp)

end Ready

/-- The second half of a close tag or of the start of a comment. -/
theorem transition_stepPair? {t : Scanner} (hregion : s.region.inCode)
    (hpair : s.stepPair? c = some t) : s.Transition c t.regions t.lead := by
  obtain ⟨hclose, h⟩ | ⟨hopen, region, hcomment, h⟩ | ⟨-, -, h⟩ := s.stepPair?_cases c
  · obtain rfl := Option.some.inj (h.symm.trans hpair)
    exact .leaveCode (Or.inl hregion) hclose
  · obtain rfl := Option.some.inj (h.symm.trans hpair)
    have hinnermost : region.isInnermost := by obtain rfl | rfl := hcomment <;> rfl
    have hlead : s.lead ≠ none := by rw [hopen.1]; exact Option.some_ne_none _
    exact .enterInnermost hregion hinnermost (Or.inr ⟨hlead, rfl⟩) region.none_mem_leads
  · cases h.symm.trans hpair

theorem transition_stepCode (hregion : s.region = .code) :
    s.Transition c (s.stepCode c).regions (s.stepCode c).lead := by
  have hcode : s.region.inCode := by rw [hregion]; rfl
  unfold stepCode
  cases hpair : s.stepPair? c with
  | some t => exact transition_stepPair? hcode hpair
  | none =>
      dsimp only
      unfold stepPlain
      split_ifs
      · exact transition_ready hcode rfl (by simp [note, extend])
      · exact transition_ready hcode { s with lead := none }.regions_complete (by simp)
      · exact transition_stepMark hregion (regions_complete _) (position_complete _) (lead_complete _)

theorem transition_stepParens {nested : Nat} (hregion : s.region = .parens nested) :
    s.Transition c (s.stepParens nested c).regions (s.stepParens nested c).lead := by
  have hcode : s.region.inCode := by rw [hregion]; rfl
  have hmark : s.Transition c ({ s with lead := none }.stepParensMark nested c).regions
      ({ s with lead := none }.stepParensMark nested c).lead :=
    transition_stepParensMark hregion rfl rfl rfl
  unfold stepParens
  cases hpair : s.stepPair? c with
  | some t => exact transition_stepPair? hcode hpair
  | none =>
      dsimp only
      split_ifs <;> exact hmark

theorem transition_stepQuoted (quote : Char)
    (hregion : s.region = .doubleQuoted ∨ s.region = .singleQuoted) (hlead : s.lead ∈ s.region.leads) :
    s.Transition c (s.stepQuoted quote c).regions (s.stepQuoted quote c).lead := by
  have hnone : s.lead = none := by obtain h | h := hregion <;> simpa [h, Region.leads] using hlead
  unfold stepQuoted
  split_ifs
  · simp only [leave, note, hnone]
    apply Transition.leave
    · obtain h | h := hregion <;> simp [h]
    · obtain h | h := hregion <;> simp [h]
  · exact .stay hlead

theorem transition_stepLineComment (hregion : s.region = .lineComment) :
    s.Transition c (s.stepLineComment c).regions (s.stepLineComment c).lead := by
  unfold stepLineComment
  split
  · exact .leave (by simp [hregion]) (by simp [hregion])
  · rename_i hlead
    exact .leaveCode (Or.inr hregion) ⟨hlead, rfl⟩
  · exact .stay (by simp [hregion, Region.leads])
  · exact .stay (by simp [hregion, Region.leads])

theorem transition_stepBlockComment (hregion : s.region = .blockComment) :
    s.Transition c (s.stepBlockComment c).regions (s.stepBlockComment c).lead := by
  unfold stepBlockComment
  split
  · exact .leave (by simp [hregion]) (by simp [hregion])
  · exact .stay (by simp [hregion, Region.leads])
  · exact .stay (by simp [hregion, Region.leads])

theorem transition_stepRegion (hlead : s.lead ∈ s.region.leads) :
    s.Transition c (s.stepRegion c).regions (s.stepRegion c).lead := by
  unfold stepRegion
  cases hregion : s.region with
  | page => exact transition_stepPage hregion hlead
  | code => exact transition_stepCode hregion
  | parens nested => exact transition_stepParens hregion
  | doubleQuoted => exact transition_stepQuoted '"' (Or.inl hregion) hlead
  | singleQuoted => exact transition_stepQuoted '\'' (Or.inr hregion) hlead
  | lineComment => exact transition_stepLineComment hregion
  | blockComment => exact transition_stepBlockComment hregion

theorem transition_stepLine : s.Transition c s.stepLine.regions s.stepLine.lead := by
  unfold stepLine breakRegion
  cases hregion : s.region with
  | lineComment => exact .leave (by simp [hregion]) (by simp [hregion])
  | code =>
      dsimp only
      rw [regions_complete]
      exact .stay (Region.none_mem_leads _)
  | _ => exact .stay (Region.none_mem_leads _)

/-- **One step.** Whatever the character, the scanner does one of seven things to its regions. -/
theorem transition_step (hlead : s.lead ∈ s.region.leads) :
    s.Transition c (s.step c).regions (s.step c).lead := by
  unfold step
  split_ifs
  · exact .stay hlead
  · exact transition_stepLine
  · exact transition_stepRegion hlead

end Step

/-! ## Shapes -/

section Shapes

variable {s : Scanner} {c : Char} {stack : RegionStack} {lead : Option Char}

theorem Transition.nested (hstep : s.Transition c stack lead) (hnested : s.regions.Nested) :
    stack.Nested := by
  cases hstep with
  | stay => exact hnested
  | enterCode hregion =>
      rw [hnested.eq_of_page hregion]
      exact .code s.position
  | enterParens hregion =>
      obtain ⟨start, hstack⟩ := hnested.eq_of_code hregion
      rw [hstack]
      exact .parens 0 s.position start
  | nest hregion deeper =>
      obtain ⟨start, codeStart, hstack⟩ := hnested.eq_of_parens hregion
      rw [hstack]
      exact .parens deeper start codeStart
  | enterInnermost hregion hinnermost => exact hnested.push_innermost hregion hinnermost _
  | leave hpage hcode => exact (hnested.pop hpage hcode).1
  | leaveCode => exact .page

theorem Transition.lead_mem (hstep : s.Transition c stack lead) : lead ∈ stack.current.leads := by
  cases hstep with
  | stay hlead => exact hlead
  | enterInnermost _ _ _ hlead => exact hlead
  | _ => exact Region.none_mem_leads _

variable (options : ScanOptions) (text : List Char)

theorem lead_run : ((start options).run text).lead ∈ ((start options).run text).region.leads := by
  induction text using List.reverseRecOn with
  | nil => exact Region.none_mem_leads _
  | append_singleton text c ih =>
      rw [run_concat]
      exact (transition_step ih).lead_mem

/-- **A whole run.** -/
theorem nested_run : ((start options).run text).regions.Nested := by
  induction text using List.reverseRecOn with
  | nil => exact .page
  | append_singleton text c ih =>
      rw [run_concat]
      exact (transition_step (lead_run options text)).nested ih

end Shapes

/-! ## Strings and comments are left for where they were entered -/

/-- The innermost region around the end of the text was entered with the character after `opened`, and
has not been left since. -/
def EnteredAfter (options : ScanOptions) (opened text : List Char) : Prop :=
  ∃ c body, text = opened ++ c :: body ∧
    ((start options).run opened).regions = ((start options).run text).regions.pop ∧
    ∀ first, first <+: body →
      ((start options).run (opened ++ c :: first)).regions = ((start options).run text).regions

section Leaving

variable {s : Scanner} {options : ScanOptions} {opened text : List Char} {c : Char}

theorem regions_step_of_innermost (hlead : s.lead ∈ s.region.leads) (hregion : s.region.isInnermost) :
    (s.step c).regions = s.regions ∨ (s.step c).regions = s.regions.pop ∨
      s.region = .lineComment ∧ s.closesTag c ∧ (s.step c).regions = .outermost := by
  have hcode : ¬s.region.inCode := by rw [Region.inCode_eq_false hregion]; exact Bool.false_ne_true
  have hstep : s.Transition c (s.step c).regions (s.step c).lead := transition_step hlead
  generalize (s.step c).regions = stack at hstep ⊢
  generalize (s.step c).lead = lead at hstep
  cases hstep with
  | stay => exact Or.inl rfl
  | leave => exact Or.inr (Or.inl rfl)
  | leaveCode hcomment hclose => exact Or.inr (Or.inr ⟨hcomment.resolve_left hcode, hclose, rfl⟩)
  | enterInnermost hin => exact absurd hin hcode
  | enterCode h => simp [h, Region.isInnermost] at hregion
  | enterParens h => simp [h, Region.isInnermost] at hregion
  | nest h => simp [h, Region.isInnermost] at hregion

theorem EnteredAfter.concat (hentered : EnteredAfter options opened text)
    (hregions : ((start options).run (text ++ [c])).regions = ((start options).run text).regions) :
    EnteredAfter options opened (text ++ [c]) := by
  obtain ⟨d, body, rfl, hopened, hbody⟩ := hentered
  refine ⟨d, body ++ [c], by simp, by rw [hregions, hopened], ?_⟩
  intro first hfirst
  obtain rfl | hfirst := List.prefix_concat_iff.mp hfirst
  · simp
  · rw [hregions, hbody first hfirst]

/-- A string or comment that the scanner is in after a step was there before, or has been entered. -/
theorem Transition.eq_or_pop_eq {stack : RegionStack} {lead : Option Char}
    (hstep : s.Transition c stack lead) (hnested : s.regions.Nested)
    (hcurrent : stack.current.isInnermost) : stack = s.regions ∨ stack.pop = s.regions := by
  cases hstep with
  | stay => exact Or.inl rfl
  | enterInnermost => exact Or.inr rfl
  | nest hregion deeper =>
      obtain ⟨start, codeStart, hstack⟩ := hnested.eq_of_parens hregion
      rw [hstack] at hcurrent
      cases hcurrent
  | leave hpage hcode =>
      have hin := (hnested.pop hpage hcode).2
      rw [Region.inCode_eq_false hcurrent] at hin
      cases hin
  | _ => cases hcurrent

theorem exists_enteredAfter (hregion : ((start options).run text).region.isInnermost) :
    ∃ opened, EnteredAfter options opened text := by
  induction text using List.reverseRecOn with
  | nil => cases hregion
  | append_singleton text c ih =>
      have hstep := transition_step (c := c) (lead_run options text)
      rw [← run_concat] at hstep
      obtain hregions | hpop := hstep.eq_or_pop_eq (nested_run options text) hregion
      · have hbefore : ((start options).run text).region.isInnermost := by
          rwa [region, ← hregions]
        obtain ⟨opened, hentered⟩ := ih hbefore
        exact ⟨opened, hentered.concat hregions⟩
      · refine ⟨text, c, [], rfl, hpop.symm, ?_⟩
        intro first hfirst
        rw [List.prefix_nil.mp hfirst]

end Leaving

/-! ## Where regions were entered -/

end Scanner

/-- The places where the regions were entered, the innermost first. -/
def RegionStack.starts (stack : RegionStack) : List Position := stack.frames.map (·.start)

namespace RegionStack

variable (stack : RegionStack)

theorem starts_push (frame : Frame) : (stack.push frame).starts = frame.start :: stack.starts := rfl

theorem starts_replace (region : Region) : (stack.replace region).starts = stack.starts := by
  unfold replace
  split <;> rename_i hinner <;> simp [starts, frames, hinner]

theorem starts_pop_sublist : stack.pop.starts.Sublist stack.starts :=
  ((List.tail_sublist stack.inner).append_right _).map _

theorem starts_outermost_sublist : outermost.starts.Sublist stack.starts :=
  (List.sublist_append_right stack.inner [.page]).map _

end RegionStack

namespace Scanner

/-- Inner regions were entered later, none after the current place, and none after the first half of a
two-character sequence that is remembered. -/
structure Ordered (s : Scanner) : Prop where
  sorted : s.regions.starts.Pairwise (· ≥ ·)
  reached : ∀ start ∈ s.regions.starts, start ≤ s.position
  lead : s.lead ≠ none →
    0 < s.position.column ∧ ∀ start ∈ s.regions.starts, start ≤ s.position.prevColumn

section Ordered

variable {s : Scanner} {c : Char} {stack : RegionStack} {lead : Option Char}

theorem Ordered.push (hs : s.Ordered) {start : Position}
    (hstart : start = s.position ∨ s.lead ≠ none ∧ start = s.position.prevColumn) (region : Region) :
    (s.regions.push ⟨region, start⟩).starts.Pairwise (· ≥ ·) ∧
      ∀ other ∈ (s.regions.push ⟨region, start⟩).starts, other ≤ s.position := by
  have hprev : s.position.prevColumn ≤ s.position :=
    Position.le_iff.mpr (Or.inr ⟨rfl, Nat.sub_le _ _⟩)
  rw [RegionStack.starts_push, List.pairwise_cons, List.forall_mem_cons]
  obtain rfl | ⟨hlead, rfl⟩ := hstart
  · exact ⟨⟨hs.reached, hs.sorted⟩, le_refl _, hs.reached⟩
  · exact ⟨⟨(hs.lead hlead).2, hs.sorted⟩, hprev, hs.reached⟩

theorem Ordered.sublist (hs : s.Ordered) (hsublist : stack.starts.Sublist s.regions.starts) :
    stack.starts.Pairwise (· ≥ ·) ∧ ∀ start ∈ stack.starts, start ≤ s.position :=
  ⟨hs.sorted.sublist hsublist, fun start hstart => hs.reached start (hsublist.subset hstart)⟩

theorem Transition.ordered (hstep : s.Transition c stack lead) (hs : s.Ordered) :
    stack.starts.Pairwise (· ≥ ·) ∧ ∀ start ∈ stack.starts, start ≤ s.position := by
  cases hstep with
  | stay => exact ⟨hs.sorted, hs.reached⟩
  | enterCode => exact hs.push (Or.inl rfl) _
  | enterParens => exact hs.push (Or.inl rfl) _
  | nest _ deeper =>
      rw [RegionStack.starts_replace]
      exact ⟨hs.sorted, hs.reached⟩
  | enterInnermost _ _ hstart => exact hs.push hstart _
  | leave => exact hs.sublist s.regions.starts_pop_sublist
  | leaveCode => exact hs.sublist s.regions.starts_outermost_sublist

theorem Ordered.step (hs : s.Ordered) (hlead : s.lead ∈ s.region.leads)
    (hline : c = '\n' → s.position.line < counterMax)
    (hcolumn : c ≠ '\r' → c ≠ '\n' → s.position.column < counterMax) : (s.step c).Ordered := by
  obtain ⟨hsorted, hreached⟩ := (transition_step hlead (c := c)).ordered hs
  by_cases hreturn : c = '\r'
  · rwa [Scanner.step, if_pos hreturn]
  · have hposition := s.position_step c
    rw [if_neg hreturn] at hposition
    by_cases hnewline : c = '\n'
    · rw [if_pos hnewline] at hposition
      have hnone : (s.step c).lead = none := by rw [Scanner.step, if_neg hreturn, if_pos hnewline]; rfl
      refine ⟨hsorted, ?_, fun h => absurd hnone h⟩
      intro start hstart
      rw [hposition]
      exact (hreached start hstart).trans (Position.le_nextLine (hline hnewline))
    · have hroom := hcolumn hreturn hnewline
      rw [if_neg hnewline] at hposition
      refine ⟨hsorted, ?_, fun _ => ?_⟩
      · intro start hstart
        rw [hposition]
        exact (hreached start hstart).trans (Position.le_nextColumn hroom)
      · rw [hposition, Position.prevColumn_nextColumn hroom, Position.nextColumn, satAdd_eq_add hroom]
        exact ⟨Nat.succ_pos _, hreached⟩

theorem ordered_run (options : ScanOptions) {text : List Char} (hwithin : WithinCounters text) :
    ((start options).run text).Ordered := by
  induction text using List.reverseRecOn with
  | nil =>
      refine ⟨List.pairwise_singleton _ _, ?_, fun h => absurd rfl h⟩
      intro place hplace
      exact le_of_eq (List.mem_singleton.mp hplace)
  | append_singleton text c ih =>
      have hbefore := hwithin.of_prefix (List.prefix_append text [c])
      obtain ⟨hline, hcolumn⟩ := hwithin _ List.prefix_rfl
      rw [run_concat]
      apply (ih hbefore).step (lead_run options text)
      · rintro rfl
        rw [placeAfter_concat_newline] at hline
        rwa [hbefore.position_run]
      · intro hreturn hnewline
        rw [placeAfter_concat text hreturn hnewline] at hcolumn
        rwa [hbefore.position_run]

end Ordered

/-! ## The page -/

section Page

variable {s : Scanner} {c : Char}

/-- A beginning of an open tag that is not all of it. -/
def IsPartialTag (tag : List Char) : Prop := ∃ whole ∈ openTags, tag <+: whole ∧ tag ≠ whole

theorem isPartialTag_nil : IsPartialTag [] :=
  ⟨['<', '?', '='], by simp [openTags], List.nil_prefix, by simp⟩

theorem isPartialTag_stepPage (htag : IsPartialTag s.tag) : IsPartialTag (s.stepPage c).tag := by
  unfold stepPage
  simp only
  split_ifs with hless hnil hopen hgrows
  · exact ⟨['<', '?', '='], by simp [openTags], ⟨['?', '='], rfl⟩, by simp⟩
  · exact htag
  · exact isPartialTag_nil
  · obtain ⟨whole, hwhole, hprefix⟩ := List.any_eq_true.mp hgrows
    refine ⟨whole, hwhole, List.isPrefixOf_iff_prefix.mp hprefix, ?_⟩
    rintro rfl
    exact hopen hwhole
  · exact isPartialTag_nil

theorem Coherent.isPartialTag_step (hs : s.Coherent) (htag : IsPartialTag s.tag) :
    IsPartialTag (s.step c).tag := by
  unfold Scanner.step
  split_ifs
  · exact htag
  · change IsPartialTag s.breakRegion.tag
    rw [hs.breakRegion.1]
    exact isPartialTag_nil
  · change IsPartialTag (s.stepRegion c).tag
    by_cases hpage : s.region = .page
    · rw [Scanner.stepRegion, hpage]
      exact isPartialTag_stepPage htag
    · rw [hs.tag_stepRegion c hpage]
      exact isPartialTag_nil

theorem isPartialTag_run (options : ScanOptions) (text : List Char) :
    IsPartialTag ((start options).run text).tag := by
  induction text using List.reverseRecOn with
  | nil => exact isPartialTag_nil
  | append_singleton text c ih =>
      rw [run_concat]
      exact (coherent_run options text).isPartialTag_step ih

theorem stepRegion_of_closesTag (hregion : s.region.inCode ∨ s.region = .lineComment)
    (hclose : s.closesTag c) : s.stepRegion c = s.leaveCode := by
  have hpair : s.stepPair? c = some s.leaveCode := by
    obtain ⟨hlead, rfl⟩ := hclose
    simp [stepPair?, hlead]
  unfold stepRegion
  cases hcase : s.region with
  | code => simp only [stepCode, hpair]
  | parens nested => simp only [stepParens, hpair]
  | lineComment =>
      obtain ⟨hlead, rfl⟩ := hclose
      simp [stepLineComment, hlead]
  | _ => simp [hcase, Region.inCode] at hregion

theorem Transition.closesTag {stack : RegionStack} {lead : Option Char}
    (hstep : s.Transition c stack lead) (hnested : s.regions.Nested) (hpage : s.region ≠ .page)
    (hcurrent : stack.current = .page) :
    (s.region.inCode ∨ s.region = .lineComment) ∧ s.closesTag c := by
  cases hstep with
  | leaveCode hregion hclose => exact ⟨hregion, hclose⟩
  | stay => exact absurd hcurrent hpage
  | enterCode hregion => exact absurd hregion hpage
  | enterParens => cases hcurrent
  | nest hregion deeper =>
      obtain ⟨start, codeStart, hstack⟩ := hnested.eq_of_parens hregion
      rw [hstack] at hcurrent
      cases hcurrent
  | @enterInnermost region start lead hregion hinnermost =>
      obtain rfl : region = .page := hcurrent
      cases hinnermost
  | leave hpage hcode =>
      have hin := (hnested.pop hpage hcode).2
      rw [hcurrent] at hin
      cases hin

theorem recent_step_of_page (hpage : s.region = .page) (hrecent : s.recent = (none, none)) :
    (s.step c).recent = (none, none) := by
  unfold step
  split_ifs
  · exact hrecent
  · change s.breakRegion.recent = _
    rw [breakRegion, hpage]
    exact hrecent
  · change (s.stepRegion c).recent = _
    rw [stepRegion, hpage]
    obtain ⟨-, h⟩ | h | h | ⟨-, h⟩ := s.stepPage_cases c <;> simp only [h]
    · exact hrecent
    · exact hrecent
    · exact hrecent
    · rfl

/-- On the page, no character of the code is remembered. -/
theorem recent_run (options : ScanOptions) (text : List Char)
    (hpage : ((start options).run text).region = .page) :
    ((start options).run text).recent = (none, none) := by
  induction text using List.reverseRecOn with
  | nil => rfl
  | append_singleton text c ih =>
      rw [run_concat] at hpage ⊢
      by_cases hbefore : ((start options).run text).region = .page
      · exact recent_step_of_page hbefore (ih hbefore)
      · have hstep := transition_step (c := c) (lead_run options text)
        obtain ⟨hregion, hclose⟩ := hstep.closesTag (nested_run options text) hbefore hpage
        have hleave := stepRegion_of_closesTag hregion hclose
        obtain ⟨-, rfl⟩ := hclose
        change (((start options).run text).stepRegion '>').recent = _
        rw [hleave]
        rfl

end Page

/-! ## The invariant -/

/-- What holds of a scanner that has read the text. -/
structure Lexical (options : ScanOptions) (text : List Char) (s : Scanner) : Prop where
  nested : s.regions.Nested
  bottom : s.regions.frames.getLast? = some ⟨.page, ⟨1, 0⟩⟩
  /-- Unless a counter was to go past its largest value, inner regions were entered later. -/
  ordered : WithinCounters text →
    s.regions.starts.Pairwise (· ≥ ·) ∧ ∀ start ∈ s.regions.starts, start ≤ s.position
  pending : s.pending ≠ none → s.region = .code ∧ s.lead = none
  tag : s.tag ≠ [] → s.region = .page ∧ IsPartialTag s.tag
  lead : s.lead ∈ s.region.leads
  /-- A string or comment is left for the regions that it was entered from, except for a close tag in
  a line comment, which leaves the code. -/
  innermost : s.region.isInnermost → ∃ opened, EnteredAfter options opened text ∧
    ((start options).run opened).region.inCode ∧
    ∀ c, (s.step c).regions = s.regions ∨
      (s.step c).regions = ((start options).run opened).regions ∨
      s.region = .lineComment ∧ s.closesTag c ∧ (s.step c).regions = .outermost
  /-- Neither a line break nor the end of the text drops an identifier that is being read. -/
  dropsNothing : (s.region ≠ .code → s.breakRegion.pending = s.pending) ∧ s.close.pending = none

section Lexical

variable (options : ScanOptions)

theorem exists_enteredAfter_and_left {text : List Char}
    (hregion : ((start options).run text).region.isInnermost) :
    ∃ opened, EnteredAfter options opened text ∧ ((start options).run opened).region.inCode ∧
      ∀ c, (((start options).run text).step c).regions = ((start options).run text).regions ∨
        (((start options).run text).step c).regions = ((start options).run opened).regions ∨
        ((start options).run text).region = .lineComment ∧ ((start options).run text).closesTag c ∧
          (((start options).run text).step c).regions = .outermost := by
  obtain ⟨opened, hentered⟩ := exists_enteredAfter hregion
  have hpage : ((start options).run text).region ≠ .page := by
    intro h
    simp [h, Region.isInnermost] at hregion
  have hcode : ((start options).run text).region ≠ .code := by
    intro h
    simp [h, Region.isInnermost] at hregion
  have hopened : ((start options).run opened).regions = ((start options).run text).regions.pop := by
    obtain ⟨-, -, -, h, -⟩ := hentered
    exact h
  refine ⟨opened, hentered, ?_, fun c => ?_⟩
  · rw [region, hopened]
    exact ((nested_run options text).pop hpage hcode).2
  · rw [hopened]
    exact regions_step_of_innermost (lead_run options text) hregion

theorem lexical_run (text : List Char) : Lexical options text ((start options).run text) where
  nested := nested_run options text
  bottom := List.getLast?_concat
  ordered := fun hwithin =>
    ⟨(ordered_run options hwithin).sorted, (ordered_run options hwithin).reached⟩
  pending := by
    intro hpending
    constructor
    · by_contra hcode
      exact hpending ((coherent_run options text).pending_eq_none (Or.inl hcode))
    · by_contra hlead
      exact hpending ((coherent_run options text).pending_eq_none (Or.inr hlead))
  tag := by
    intro htag
    refine ⟨?_, isPartialTag_run options text⟩
    by_contra hpage
    exact htag ((coherent_run options text).tag_eq_nil hpage)
  lead := lead_run options text
  innermost := exists_enteredAfter_and_left options
  dropsNothing := by
    have hcoherent := coherent_run options text
    constructor
    · intro hcode
      rw [hcoherent.breakRegion.2, hcoherent.pending_eq_none (Or.inl hcode)]
    · unfold close
      split_ifs with hcode
      · exact pending_complete _
      · exact hcoherent.pending_eq_none (Or.inl hcode)

/-- **Lexical invariant.** However a text comes in pieces, the scanner's regions are nested in one of a
few ways, inner ones were entered later, and what is remembered of tags, identifiers and two-character
sequences fits the current region. A string or comment is left for the regions it was entered from. -/
theorem lexical_feed (pieces : List String) :
    Lexical options (pieces.flatMap String.toList) (pieces.foldl feed (start options)) := by
  rw [foldl_feed]
  exact lexical_run options _

end Lexical

end Scanner

end PhpOutline
