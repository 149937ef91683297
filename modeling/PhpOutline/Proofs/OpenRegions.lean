import PhpOutline.Proofs.Nesting

/-!
# Where regions were opened

The place where a region is entered is recorded once, one column back for a comment, which is known at
its second character only, and is carried along on the stack while parentheses are counted and other
regions are entered and left. What stands there in the text, for a region that has to be closed, is the
character that opened it.
-/

namespace PhpOutline

namespace Region

/-- What a region begins with that has to be closed. -/
def delimiter : Region → List Char
  | doubleQuoted => ['"']
  | singleQuoted => ['\'']
  | blockComment => ['/', '*']
  | parens _ => ['(']
  | page | code | lineComment => []

/-- What a region on the stack can become in one step: parentheses are counted. -/
inductive Continues : Region → Region → Prop
  | same (region : Region) : Continues region region
  | count {nested deeper : Nat} (hdeeper : deeper ≤ nested + 1) :
      Continues (parens nested) (parens deeper)

variable {first second : Region}

theorem Continues.delimiter_eq (hcontinues : first.Continues second) :
    first.delimiter = second.delimiter := by
  cases hcontinues <;> rfl

theorem Continues.awaitsClose_eq (hcontinues : first.Continues second) :
    first.awaitsClose = second.awaitsClose := by
  cases hcontinues <;> rfl

end Region

namespace Scanner

/-! ## What a character does to the stack -/

/-- The character enters a region that has to be closed. -/
inductive Opens (s : Scanner) : Char → Frame → Prop
  | doubleQuote : Opens s '"' ⟨.doubleQuoted, s.position⟩
  | singleQuote : Opens s '\'' ⟨.singleQuoted, s.position⟩
  | paren : Opens s '(' ⟨.parens 0, s.position⟩
  | star (hlead : s.lead = some '/') : Opens s '*' ⟨.blockComment, s.position.prevColumn⟩

/-- What a character can do to the stack. It matters here which characters open regions that have to be
closed, and how far the count of parentheses can go up. -/
inductive StackStep (s : Scanner) (c : Char) : RegionStack → Prop
  | keep : StackStep s c s.regions
  | leave : StackStep s c s.regions.pop
  | leaveCode : StackStep s c .outermost
  | nest {nested deeper : Nat} (hregion : s.region = .parens nested) (hdeeper : deeper ≤ nested + 1) :
      StackStep s c (s.regions.replace (.parens deeper))
  | opens {frame : Frame} (hopens : s.Opens c frame) : StackStep s c (s.regions.push frame)
  | enter {frame : Frame} (hfree : frame.region.awaitsClose = false) :
      StackStep s c (s.regions.push frame)

section Step

variable {s : Scanner} {c : Char}

section Ready

variable {ready : Scanner} (hregions : ready.regions = s.regions)
  (hposition : ready.position = s.position)
include hregions hposition

theorem stackStep_stepMark : s.StackStep c (ready.stepMark c).regions := by
  unfold stepMark
  split <;> simp only [enter, enterHash, confirm, openBrace, closeBrace, cancel, hregions, hposition]
  · exact .opens .doubleQuote
  · exact .opens .singleQuote
  · exact .enter rfl
  · exact .keep
  · exact .keep
  · exact .opens .paren
  all_goals exact .keep

theorem stackStep_stepParensMark {nested : Nat} (hregion : s.region = .parens nested) :
    s.StackStep c (ready.stepParensMark nested c).regions := by
  unfold stepParensMark
  split
  case h_2 =>
    split_ifs <;> simp only [Scanner.leave, hregions]
    · exact .leave
    · exact .nest hregion (by omega)
  all_goals simp only [enter, enterHash, openBrace, closeBrace, hregions, hposition]
  · exact .nest hregion (Nat.le_refl _)
  · exact .opens .doubleQuote
  · exact .opens .singleQuote
  · exact .enter rfl
  all_goals exact .keep

end Ready

theorem stackStep_stepPair? {t : Scanner} (hpair : s.stepPair? c = some t) :
    s.StackStep c t.regions := by
  unfold stepPair? at hpair
  split at hpair
  · obtain rfl := Option.some.inj hpair
    exact .leaveCode
  · obtain rfl := Option.some.inj hpair
    exact .enter rfl
  · rename_i hlead
    obtain rfl := Option.some.inj hpair
    exact .opens (.star hlead)
  · cases hpair

theorem stackStep_stepCode : s.StackStep c (s.stepCode c).regions := by
  unfold stepCode
  cases hpair : s.stepPair? c with
  | some t => exact stackStep_stepPair? hpair
  | none =>
      dsimp only
      unfold stepPlain
      split_ifs
      · exact .keep
      · rw [regions_complete]
        exact .keep
      · exact stackStep_stepMark (regions_complete _) (position_complete _)

theorem stackStep_stepParens {nested : Nat} (hregion : s.region = .parens nested) :
    s.StackStep c (s.stepParens nested c).regions := by
  have hmark : s.StackStep c ({ s with lead := none }.stepParensMark nested c).regions := by
    refine stackStep_stepParensMark ?_ ?_ hregion <;> rfl
  unfold stepParens
  cases hpair : s.stepPair? c with
  | some t => exact stackStep_stepPair? hpair
  | none =>
      dsimp only
      split_ifs <;> exact hmark

theorem stackStep_stepQuoted (quote : Char) : s.StackStep c (s.stepQuoted quote c).regions := by
  unfold stepQuoted
  split_ifs
  · exact .leave
  · exact .keep

theorem stackStep_stepRegion : s.StackStep c (s.stepRegion c).regions := by
  unfold stepRegion
  cases hregion : s.region with
  | page =>
      obtain ⟨-, h⟩ | h | h | ⟨-, h⟩ := s.stepPage_cases c <;> simp only [h]
      · exact .keep
      · exact .keep
      · exact .keep
      · exact .enter rfl
  | code => exact stackStep_stepCode
  | parens nested => exact stackStep_stepParens hregion
  | doubleQuoted => exact stackStep_stepQuoted '"'
  | singleQuoted => exact stackStep_stepQuoted '\''
  | lineComment =>
      simp only [stepLineComment]
      split
      · exact .leave
      · exact .leaveCode
      · exact .keep
      · exact .keep
  | blockComment =>
      simp only [stepBlockComment]
      split
      · exact .leave
      · exact .keep
      · exact .keep

theorem stackStep_step : s.StackStep c (s.step c).regions := by
  unfold step
  split_ifs
  · exact .keep
  · unfold stepLine breakRegion
    cases hregion : s.region with
    | lineComment => exact .leave
    | code =>
        dsimp only
        rw [regions_complete]
        exact .keep
    | _ => exact .keep
  · exact stackStep_stepRegion

/-- A frame that has to be closed was on the stack before the step, above the same frames, or the step
opened it. -/
theorem StackStep.frame {stack : RegionStack} (hstep : s.StackStep c stack) {inner outer : List Frame}
    {frame : Frame} (hstack : stack.inner = inner ++ frame :: outer)
    (hawaits : frame.region.awaitsClose) :
    (∃ above region, s.regions.inner = above ++ ⟨region, frame.start⟩ :: outer ∧
        region.Continues frame.region) ∨
      inner = [] ∧ s.regions.inner = outer ∧ s.Opens c frame := by
  cases hstep with
  | keep => exact Or.inl ⟨inner, frame.region, hstack, .same _⟩
  | leaveCode => simp [RegionStack.outermost] at hstack
  | leave =>
      left
      cases hinner : s.regions.inner with
      | nil => simp [RegionStack.pop, hinner] at hstack
      | cons top rest =>
          rw [RegionStack.pop, hinner] at hstack
          exact ⟨top :: inner, frame.region, congrArg (top :: ·) hstack, .same _⟩
  | @nest nested deeper hregion hdeeper =>
      left
      cases hinner : s.regions.inner with
      | nil => simp [region, RegionStack.current, RegionStack.top, hinner, Frame.page] at hregion
      | cons top rest =>
          have htop : top.region = .parens nested := by
            simpa [region, RegionStack.current, RegionStack.top, hinner] using hregion
          rw [RegionStack.replace, hinner] at hstack
          -- Only the frame on top has changed, and that in its count alone.
          cases inner with
          | nil =>
              obtain ⟨rfl, rfl⟩ := List.cons.inj hstack
              exact ⟨[], top.region, rfl, htop ▸ .count hdeeper⟩
          | cons _ inner =>
              obtain ⟨-, rfl⟩ := List.cons.inj hstack
              exact ⟨top :: inner, frame.region, rfl, .same _⟩
  | opens hopens =>
      cases inner with
      | nil =>
          obtain ⟨rfl, rfl⟩ := List.cons.inj hstack
          exact Or.inr ⟨rfl, rfl, hopens⟩
      | cons _ inner => exact Or.inl ⟨inner, frame.region, (List.cons.inj hstack).2, .same _⟩
  | enter hfree =>
      cases inner with
      | nil =>
          obtain ⟨rfl, rfl⟩ := List.cons.inj hstack
          simp [hfree] at hawaits
      | cons _ inner => exact Or.inl ⟨inner, frame.region, (List.cons.inj hstack).2, .same _⟩

end Step

/-! ## The first half of a comment's delimiter -/

section Slash

variable {s : Scanner} {c : Char}

/-- A slash is remembered in the code only, and does not change the stack. -/
theorem Transition.of_slash {stack : RegionStack} (hstep : s.Transition c stack (some '/')) :
    stack = s.regions ∧ s.region.inCode := by
  have hleads : ∀ region : Region, some '/' ∈ region.leads → region.inCode := by
    rintro (_ | _) h <;> simp [Region.leads, Region.inCode] at h ⊢
  cases hstep with
  | stay hlead => exact ⟨rfl, hleads _ hlead⟩
  | @enterInnermost region _ _ _ hinnermost _ hlead =>
      have hcode := hleads region hlead
      rw [Region.inCode_eq_false hinnermost] at hcode
      cases hcode

theorem lead_stepPair?_ne_slash {t : Scanner} (hpair : s.stepPair? c = some t) :
    t.lead ≠ some '/' := by
  obtain ⟨-, h⟩ | ⟨-, region, -, h⟩ | ⟨-, -, h⟩ := s.stepPair?_cases c
  · obtain rfl := Option.some.inj (h.symm.trans hpair)
    exact nofun
  · obtain rfl := Option.some.inj (h.symm.trans hpair)
    exact nofun
  · cases h.symm.trans hpair

theorem eq_slash_of_stepMark (hnone : s.lead = none) (hslash : (s.stepMark c).lead = some '/') :
    c = '/' := by
  unfold stepMark at hslash
  split at hslash <;> simp_all [enter, enterHash, confirm, openBrace, closeBrace, cancel]

theorem eq_slash_of_stepParensMark {nested : Nat} (hnone : s.lead = none)
    (hslash : (s.stepParensMark nested c).lead = some '/') : c = '/' := by
  unfold stepParensMark at hslash
  split at hslash
  case h_2 => split_ifs at hslash <;> simp [leave, hnone] at hslash
  all_goals simp_all [enter, enterHash, openBrace, closeBrace]

theorem eq_slash_of_stepRegion (hregion : s.region.inCode)
    (hslash : (s.stepRegion c).lead = some '/') : c = '/' := by
  unfold stepRegion at hslash
  cases hcase : s.region <;> simp only [hcase] at hregion hslash
  case code =>
    unfold stepCode at hslash
    cases hpair : s.stepPair? c with
    | some t =>
        rw [hpair] at hslash
        exact absurd hslash (lead_stepPair?_ne_slash hpair)
    | none =>
        simp only [hpair, stepPlain] at hslash
        split_ifs at hslash
        · cases hslash
        · simp at hslash
        · exact eq_slash_of_stepMark (lead_complete _) hslash
  case parens nested =>
    unfold stepParens at hslash
    cases hpair : s.stepPair? c with
    | some t =>
        rw [hpair] at hslash
        exact absurd hslash (lead_stepPair?_ne_slash hpair)
    | none =>
        simp only [hpair] at hslash
        split_ifs at hslash <;> exact eq_slash_of_stepParensMark rfl hslash
  all_goals cases hregion

/-- A slash is remembered across carriage returns only. -/
theorem step_of_slash (hlead : s.lead ∈ s.region.leads) (hslash : (s.step c).lead = some '/') :
    c = '\r' ∨ c = '/' ∧ (s.step c).regions = s.regions := by
  have hstep : s.Transition c (s.step c).regions (some '/') := by
    rw [← hslash]
    exact transition_step hlead
  obtain ⟨hregions, hcode⟩ := hstep.of_slash
  by_cases hreturn : c = '\r'
  · exact Or.inl hreturn
  · refine Or.inr ⟨?_, hregions⟩
    unfold step at hslash
    rw [if_neg hreturn] at hslash
    split_ifs at hslash
    · cases hslash
    · exact eq_slash_of_stepRegion hcode hslash

/-- The slash that is remembered stands last in the text, and was read within the same regions. -/
theorem exists_slash_run {options : ScanOptions} {text : List Char}
    (hslash : ((start options).run text).lead = some '/') :
    ∃ before returns, text = before ++ '/' :: returns ∧ visible returns = [] ∧
      ((start options).run before).regions = ((start options).run text).regions := by
  induction text using List.reverseRecOn with
  | nil => cases hslash
  | append_singleton text c ih =>
      rw [run_concat] at hslash ⊢
      obtain rfl | ⟨rfl, hregions⟩ := step_of_slash (lead_run options text) hslash
      · obtain ⟨before, returns, rfl, hreturns, hregions⟩ := ih hslash
        refine ⟨before, returns ++ ['\r'], by simp, ?_, hregions⟩
        rw [visible_concat_return, hreturns]
      · exact ⟨text, [], rfl, rfl, hregions.symm⟩

end Slash

end Scanner

/-! ## Where regions were opened -/

/-- The region was entered with its delimiter, which begins at the place of the frame, and has been on
the stack ever since, above the frames that were there before the delimiter. -/
def Frame.OpenedIn (frame : Frame) (options : ScanOptions) (text : List Char) (outer : List Frame) :
    Prop :=
  ∃ before delimiter body, text = before ++ delimiter ++ body ∧
    visible delimiter = frame.region.delimiter ∧ placeAfter before = frame.start ∧
    ((Scanner.start options).run before).regions.inner = outer ∧
    ∀ first, first <+: body → ∃ inner region, region.delimiter = frame.region.delimiter ∧
      ((Scanner.start options).run (before ++ delimiter ++ first)).regions.inner =
        inner ++ ⟨region, frame.start⟩ :: outer

section Opened

variable {options : ScanOptions} {text : List Char} {c : Char} {inner outer : List Frame}
  {frame : Frame}

theorem Frame.OpenedIn.concat {region : Region}
    (hopened : OpenedIn ⟨region, frame.start⟩ options text outer)
    (hcontinues : region.Continues frame.region)
    (hstack : ((Scanner.start options).run (text ++ [c])).regions.inner = inner ++ frame :: outer) :
    frame.OpenedIn options (text ++ [c]) outer := by
  obtain ⟨before, delimiter, body, rfl, hdelimiter, hplace, houter, hsince⟩ := hopened
  refine ⟨before, delimiter, body ++ [c], by simp, hdelimiter.trans hcontinues.delimiter_eq, hplace,
    houter, ?_⟩
  intro first hfirst
  obtain rfl | hfirst := List.prefix_concat_iff.mp hfirst
  · rw [← List.append_assoc]
    exact ⟨inner, frame.region, rfl, hstack⟩
  · obtain ⟨above, earlier, hsame, habove⟩ := hsince first hfirst
    exact ⟨above, earlier, hsame.trans hcontinues.delimiter_eq, habove⟩

/-- The character before the last one is a slash, except for carriage returns. -/
theorem placeAfter_slash {before returns : List Char} (hreturns : visible returns = []) :
    (placeAfter (before ++ '/' :: returns)).prevColumn = placeAfter before := by
  have hvisible : visible (before ++ '/' :: returns) = visible before ++ ['/'] := by
    rw [visible_append, ← hreturns]
    rfl
  rw [placeAfter_of_visible_append _ (by decide) hvisible]
  rfl

theorem Scanner.Opens.openedIn (hopens : ((start options).run text).Opens c frame)
    (hwithin : WithinCounters text)
    (hstack : ((start options).run (text ++ [c])).regions.inner =
      frame :: ((start options).run text).regions.inner) :
    frame.OpenedIn options (text ++ [c]) ((start options).run text).regions.inner := by
  have hposition := hwithin.position_run options
  cases hopens with
  | star hlead =>
      -- The delimiter began before the regions changed, with carriage returns in between perhaps.
      obtain ⟨before, returns, rfl, hreturns, hregions⟩ := exists_slash_run hlead
      refine ⟨before, '/' :: returns ++ ['*'], [], by simp, ?_, ?_, by rw [hregions], ?_⟩
      · rw [visible_concat _ (by decide)]
        change '/' :: visible returns ++ ['*'] = _
        rw [hreturns]
        rfl
      · rw [hposition, placeAfter_slash hreturns]
      · intro first hfirst
        rw [List.prefix_nil.mp hfirst]
        exact ⟨[], .blockComment, rfl, by simpa using hstack⟩
  | _ =>
      refine ⟨text, _, [], (List.append_nil _).symm, by rfl, hposition.symm, rfl, ?_⟩
      intro first hfirst
      rw [List.prefix_nil.mp hfirst, List.append_nil]
      exact ⟨[], _, rfl, hstack⟩

/-- **A whole run.** Each region on the stack that has to be closed was opened at its place. -/
theorem openedIn_run (hwithin : WithinCounters text)
    (hstack : ((Scanner.start options).run text).regions.inner = inner ++ frame :: outer)
    (hawaits : frame.region.awaitsClose) : frame.OpenedIn options text outer := by
  induction text using List.reverseRecOn generalizing inner outer frame with
  | nil => simp [Scanner.run, Scanner.start, RegionStack.outermost] at hstack
  | append_singleton text c ih =>
      have hbefore := hwithin.of_prefix (List.prefix_append text [c])
      have hstep : ((Scanner.start options).run text).StackStep c _ := Scanner.stackStep_step
      rw [← Scanner.run_concat] at hstep
      obtain ⟨above, region, habove, hcontinues⟩ | ⟨rfl, rfl, hopens⟩ := hstep.frame hstack hawaits
      · exact (ih hbefore habove (hcontinues.awaitsClose_eq.trans hawaits)).concat hcontinues hstack
      · exact hopens.openedIn hbefore hstack

end Opened

/-! ## How deep parentheses are nested -/

section Counts

variable {s : Scanner} {c : Char}

theorem Scanner.StackStep.nested_lt {stack : RegionStack} (hstep : s.StackStep c stack) {bound : Nat}
    (hbound : ∀ frame ∈ s.regions.inner, ∀ nested, frame.region = .parens nested → nested < bound) :
    ∀ frame ∈ stack.inner, ∀ nested, frame.region = .parens nested → nested < bound + 1 := by
  intro frame hframe nested hregion
  obtain ⟨inner, outer, hstack⟩ := List.append_of_mem hframe
  have hawaits : frame.region.awaitsClose := by rw [hregion]; rfl
  obtain ⟨above, region, habove, hcontinues⟩ | ⟨-, -, hopens⟩ := hstep.frame hstack hawaits
  · have hmem : (⟨region, frame.start⟩ : Frame) ∈ s.regions.inner := by simp [habove]
    rw [hregion] at hcontinues
    cases hcontinues with
    | same => exact Nat.lt_succ_of_lt (hbound _ hmem nested rfl)
    | @count before _ hdeeper =>
        have hless := hbound _ hmem before rfl
        omega
  · cases hopens with
    | paren =>
        obtain rfl := Region.parens.inj hregion
        exact Nat.succ_pos _
    | _ => cases hregion

theorem nested_run_lt (options : ScanOptions) (text : List Char) :
    ∀ frame ∈ ((Scanner.start options).run text).regions.inner, ∀ nested,
      frame.region = .parens nested → nested < text.length := by
  induction text using List.reverseRecOn with
  | nil => exact nofun
  | append_singleton text c ih =>
      rw [Scanner.run_concat, List.length_append]
      exact Scanner.stackStep_step.nested_lt ih

end Counts

end PhpOutline
