import PhpOutline.Proofs.ReportPlaces

/-!
# Opaque regions

Within a string, a comment or the page, the scanner only watches for what closes the region. Whatever
else stands there can change a delimiter half read and the place, and nothing else. The text that
closes the region makes up for the former, so two bodies that end at the same place lead to the same
state, and to the same report in the end.
-/

namespace PhpOutline

namespace Region

def isOpaque : Region → Bool
  | doubleQuoted | singleQuoted | blockComment | lineComment | page => true
  | code | parens _ => false

/-- The texts that close the region. -/
def closers : Region → List (List Char)
  | doubleQuoted => [['"']]
  | singleQuoted => [['\'']]
  | blockComment => [['*', '/']]
  | lineComment => [['\n'], ['?', '>']]
  | page => Scanner.openTags
  | code | parens _ => []

/-- The text that ends the region here: for a line comment the end of the line, for the page an open
tag. -/
def closer : Region → List Char
  | doubleQuoted => ['"']
  | singleQuoted => ['\'']
  | blockComment => ['*', '/']
  | lineComment => ['\n']
  | page => ['<', '?', 'p', 'h', 'p']
  | code | parens _ => []

/-- The text as far as the region tells letters apart. -/
def folded (region : Region) (text : List Char) : List Char :=
  if region = page then text.map Char.toLower else text

/-- The body does not close the region. -/
def Keeps (region : Region) (body : List Char) : Prop :=
  ∀ closer ∈ region.closers, ¬closer <:+: region.folded (visible body)

instance (region : Region) (body : List Char) : Decidable (region.Keeps body) :=
  inferInstanceAs (Decidable (∀ closer ∈ region.closers, ¬closer <:+: region.folded (visible body)))

/-- The bodies end at the same place. A line comment ends with its line, wherever that is. -/
def SameExtent (region : Region) (first second : List Char) : Prop :=
  region = lineComment ∨ placeAfter first = placeAfter second

/-- What has been read of a text that would close the region, by the tag and the lead of the scanner. -/
def halfRead (region : Region) (tag : List Char) (lead : Option Char) : List Char :=
  match region with
  | page => tag
  | blockComment => if lead = some '*' then ['*'] else []
  | lineComment => if lead = some '?' then ['?'] else []
  | _ => []

theorem folded_append (region : Region) (first second : List Char) :
    region.folded (first ++ second) = region.folded first ++ region.folded second := by
  unfold folded
  split_ifs
  · exact List.map_append
  · rfl

end Region

theorem visible_cons (c : Char) (rest : List Char) : visible (c :: rest) = visible [c] ++ visible rest :=
  visible_append [c] rest

theorem notMem_of_visible {c : Char} {body : List Char} (hreturn : c ≠ '\r')
    (hkeeps : ¬[c] <:+: visible body) : c ∉ body := by
  rw [List.singleton_infix_iff] at hkeeps
  intro hmem
  exact hkeeps (List.mem_filter.mpr ⟨hmem, by simp [hreturn]⟩)

theorem visible_singleton {c : Char} (hreturn : c ≠ '\r') : visible [c] = [c] := by
  simp [visible, hreturn]

namespace Scanner

/-- The scanner has read nothing of a text that would close its region. -/
def AtEdge (s : Scanner) : Prop :=
  match s.region with
  | .page => s.tag = []
  | .blockComment => s.lead ≠ some '*'
  | .lineComment => s.lead = none
  | _ => True

/-- What the scanner has read of a text that would close its region. -/
def halfRead (s : Scanner) : List Char := s.region.halfRead s.tag s.lead

/-- The scanner `t` is where `s` is, except for the place and for a delimiter half read. -/
def Within (s t : Scanner) : Prop :=
  t = { s with tag := t.tag, lead := t.lead, position := t.position }

section Within

variable {s t u : Scanner} {c : Char} {body : List Char}

theorem Within.region (hwithin : s.Within t) : t.region = s.region := by
  rw [hwithin]
  rfl

theorem Within.pending (hwithin : s.Within t) : t.pending = s.pending := by
  rw [hwithin]

theorem Within.symm (hwithin : s.Within t) : t.Within s := by
  unfold Within at hwithin ⊢
  rw [hwithin]

theorem Within.trans (hst : s.Within t) (htu : t.Within u) : s.Within u := by
  unfold Within at hst htu ⊢
  rw [htu, hst]

/-! ## Strings -/

theorem step_newline (hpending : s.pending = none) (hcode : s.region ≠ .code)
    (hcomment : s.region ≠ .lineComment) :
    s.step '\n' = { s with
      tag := if s.region = .page then [] else s.tag
      lead := none
      position := s.position.nextLine } := by
  change s.stepLine = _
  unfold stepLine breakRegion
  cases hregion : s.region with
  | code => exact absurd hregion hcode
  | lineComment => exact absurd hregion hcomment
  | page => simp
  | doubleQuoted => simp [hpending]
  | singleQuoted => simp [hpending]
  | blockComment => simp [hpending]
  | parens nested => simp [hpending]

theorem step_of_ne (hreturn : c ≠ '\r') (hline : c ≠ '\n') :
    s.step c = { s.stepRegion c with position := s.position.nextColumn } := by
  rw [step, if_neg hreturn, if_neg hline, stepColumn]

/-- The scanner is in a string that the quote closes. -/
def QuotedBy (s : Scanner) (quote : Char) : Prop :=
  s.region = .doubleQuoted ∧ quote = '"' ∨ s.region = .singleQuoted ∧ quote = '\''

theorem QuotedBy.notMem {quote : Char} (hquoted : s.QuotedBy quote) (hkeeps : s.region.Keeps body) :
    quote ∉ body := by
  obtain ⟨hregion, rfl⟩ | ⟨hregion, rfl⟩ := hquoted
  all_goals
    rw [hregion] at hkeeps
    exact notMem_of_visible (by decide) (hkeeps _ List.mem_cons_self)

theorem step_quoted {quote : Char} (hquoted : s.QuotedBy quote) (hpending : s.pending = none)
    (hc : c ≠ quote) :
    s.step c = { s with
      lead := if c = '\n' then none else s.lead
      position := (s.step c).position } := by
  by_cases hreturn : c = '\r'
  · subst hreturn
    rfl
  · by_cases hline : c = '\n'
    · subst hline
      obtain ⟨hregion, -⟩ | ⟨hregion, -⟩ := hquoted <;>
        simp [step_newline hpending, hregion]
    · rw [step_of_ne hreturn hline, if_neg hline]
      obtain ⟨hregion, rfl⟩ | ⟨hregion, rfl⟩ := hquoted <;>
        simp [stepRegion, hregion, stepQuoted, hc]

theorem step_closing_quote {quote : Char} (hquoted : s.QuotedBy quote) :
    s.step quote = { s.leave.note quote with position := s.position.nextColumn } := by
  obtain ⟨hregion, rfl⟩ | ⟨hregion, rfl⟩ := hquoted
  all_goals
    rw [step_of_ne (by decide) (by decide), stepRegion, hregion]
    rfl

/-- A body without the quote leaves a string as it is, except that a line feed ends whatever was half
read before it. -/
theorem run_quoted {quote : Char} (hquoted : s.QuotedBy quote) (hpending : s.pending = none)
    (hbody : quote ∉ body) :
    s.run body = { s with
      lead := if '\n' ∈ body then none else s.lead
      position := (s.run body).position } := by
  induction body generalizing s with
  | nil => rfl
  | cons c rest ih =>
      have hc : c ≠ quote := by
        rintro rfl
        exact hbody List.mem_cons_self
      have hrest : quote ∉ rest := fun hmem => hbody (List.mem_cons_of_mem c hmem)
      have hstep := step_quoted hquoted hpending hc
      have hagain : (s.step c).QuotedBy quote := by
        rw [hstep]
        exact hquoted
      have hnone : (s.step c).pending = none := by
        rw [hstep]
        exact hpending
      rw [run_cons, ih hagain hnone hrest, hstep]
      by_cases hline : c = '\n' <;> by_cases hmem : '\n' ∈ rest <;> simp [hline, hmem, eq_comm]

/-! ## Comments and the page -/

theorem stepBlockComment_cases (s : Scanner) (c : Char) :
    (s.lead = some '*' ∧ c = '/') ∨
      (c = '*' ∧ s.stepBlockComment c = { s with lead := some '*' }) ∨
      s.stepBlockComment c = { s with lead := none } := by
  unfold stepBlockComment
  split
  case h_1 hlead => exact Or.inl ⟨hlead, rfl⟩
  case h_2 => exact Or.inr (Or.inl ⟨rfl, rfl⟩)
  case h_3 => exact Or.inr (Or.inr rfl)

theorem stepLineComment_cases (s : Scanner) (c : Char) :
    (s.lead = some '#' ∧ c = '[') ∨ (s.lead = some '?' ∧ c = '>') ∨
      (c = '?' ∧ s.stepLineComment c = { s with lead := some '?' }) ∨
      s.stepLineComment c = { s with lead := none } := by
  unfold stepLineComment
  split
  case h_1 hlead => exact Or.inl ⟨hlead, rfl⟩
  case h_2 hlead => exact Or.inr (Or.inl ⟨hlead, rfl⟩)
  case h_3 => exact Or.inr (Or.inr (Or.inl ⟨rfl, rfl⟩))
  case h_4 => exact Or.inr (Or.inr (Or.inr rfl))

/-- The scanner is in a comment or on the page, and not at the start of what may be an attribute. -/
structure Watches (s : Scanner) : Prop where
  region : s.region = .page ∨ s.region = .blockComment ∨ s.region = .lineComment
  pending : s.pending = none
  lead : s.region = .lineComment → s.lead ≠ some '#'

/-- The scanner `t` follows `s` after a text that has not closed the region. -/
structure Follows (s : Scanner) (text : List Char) (t : Scanner) : Prop where
  within : s.Within t
  watches : t.Watches
  halfRead : t.halfRead <:+ s.halfRead ++ text

theorem Watches.follows (hs : s.Watches) {text tag : List Char} {lead : Option Char}
    (position : Position) (hlead : s.region = .lineComment → lead ≠ some '#')
    (hhalf : s.region.halfRead tag lead <:+ s.halfRead ++ text) :
    s.Follows text { s with tag, lead, position } :=
  ⟨rfl, ⟨hs.region, hs.pending, hlead⟩, hhalf⟩

theorem follows_step_page (hs : s.Watches) (hregion : s.region = .page) (hreturn : c ≠ '\r')
    (hline : c ≠ '\n') (hkeeps : ∀ tag ∈ openTags, ¬tag <:+: s.halfRead ++ [c.toLower]) :
    s.Follows [c.toLower] (s.step c) := by
  have hstep : s.step c = { s.stepPage c with position := s.position.nextColumn } := by
    rw [step_of_ne hreturn hline, stepRegion, hregion]
  have hhalf : s.halfRead = s.tag := by rw [halfRead, hregion, Region.halfRead]
  obtain ⟨rfl, h⟩ | h | h | ⟨hopen, -⟩ := s.stepPage_cases c
  · rw [hstep, h]
    refine hs.follows _ hs.lead ?_
    rw [hregion]
    exact List.suffix_append s.halfRead ['<']
  · rw [hstep, h]
    refine hs.follows _ hs.lead ?_
    rw [hregion]
    exact List.nil_suffix
  · rw [hstep, h]
    refine hs.follows _ hs.lead ?_
    rw [hregion, hhalf]
    exact List.suffix_rfl
  · rw [← hhalf] at hopen
    exact absurd List.infix_rfl (hkeeps _ hopen)

theorem follows_step_blockComment (hs : s.Watches) (hregion : s.region = .blockComment)
    (hreturn : c ≠ '\r') (hline : c ≠ '\n') (hkeeps : ¬['*', '/'] <:+: s.halfRead ++ [c]) :
    s.Follows [c] (s.step c) := by
  have hstep : s.step c = { s.stepBlockComment c with position := s.position.nextColumn } := by
    rw [step_of_ne hreturn hline, stepRegion, hregion]
  obtain ⟨hlead, rfl⟩ | ⟨rfl, h⟩ | h := s.stepBlockComment_cases c
  · rw [halfRead, hregion, hlead] at hkeeps
    exact absurd List.infix_rfl hkeeps
  · rw [hstep, h]
    refine hs.follows _ (by simp) ?_
    rw [hregion]
    exact List.suffix_append s.halfRead ['*']
  · rw [hstep, h]
    refine hs.follows _ (by simp) ?_
    rw [hregion]
    exact List.nil_suffix

theorem follows_step_lineComment (hs : s.Watches) (hregion : s.region = .lineComment)
    (hreturn : c ≠ '\r') (hline : c ≠ '\n') (hkeeps : ¬['?', '>'] <:+: s.halfRead ++ [c]) :
    s.Follows [c] (s.step c) := by
  have hstep : s.step c = { s.stepLineComment c with position := s.position.nextColumn } := by
    rw [step_of_ne hreturn hline, stepRegion, hregion]
  obtain ⟨hlead, -⟩ | ⟨hlead, rfl⟩ | ⟨rfl, h⟩ | h := s.stepLineComment_cases c
  · exact absurd hlead (hs.lead hregion)
  · rw [halfRead, hregion, hlead] at hkeeps
    exact absurd List.infix_rfl hkeeps
  · rw [hstep, h]
    refine hs.follows _ (by simp) ?_
    rw [hregion]
    exact List.suffix_append s.halfRead ['?']
  · rw [hstep, h]
    refine hs.follows _ (by simp) ?_
    rw [hregion]
    exact List.nil_suffix

theorem follows_step_newline (hs : s.Watches) (hcomment : s.region ≠ .lineComment)
    (text : List Char) : s.Follows text (s.step '\n') := by
  obtain hregion | hregion | hregion := hs.region
  · rw [step_newline hs.pending (by simp [hregion]) hcomment, if_pos hregion]
    refine hs.follows _ (by simp) ?_
    rw [hregion]
    exact List.nil_suffix
  · rw [step_newline hs.pending (by simp [hregion]) hcomment]
    refine hs.follows _ (by simp) ?_
    rw [hregion]
    exact List.nil_suffix
  · exact absurd hregion hcomment

/-- **One character.** As long as what is half read and the character do not make up a closer, the
scanner stays in its region, and what is half read then is the end of both. -/
theorem follows_step (hs : s.Watches)
    (hkeeps : ∀ closer ∈ s.region.closers, ¬closer <:+: s.halfRead ++ s.region.folded (visible [c])) :
    s.Follows (s.region.folded (visible [c])) (s.step c) := by
  by_cases hreturn : c = '\r'
  · subst hreturn
    have hnil : s.region.folded (visible ['\r']) = [] := by simp [visible, Region.folded]
    rw [hnil]
    exact ⟨rfl, hs, by simp [step]⟩
  · rw [visible_singleton hreturn] at hkeeps ⊢
    by_cases hline : c = '\n'
    · subst hline
      apply follows_step_newline hs
      intro hregion
      rw [hregion] at hkeeps
      apply hkeeps ['\n'] (by simp [Region.closers])
      exact (List.suffix_append s.halfRead ['\n']).isInfix
    · obtain hregion | hregion | hregion := hs.region
      · rw [hregion] at hkeeps ⊢
        exact follows_step_page hs hregion hreturn hline hkeeps
      · rw [hregion] at hkeeps ⊢
        exact follows_step_blockComment hs hregion hreturn hline (hkeeps _ (by simp [Region.closers]))
      · rw [hregion] at hkeeps ⊢
        exact follows_step_lineComment hs hregion hreturn hline (hkeeps _ (by simp [Region.closers]))

/-- **A body.** Unless it closes the region, together with what was half read before, the scanner stays
where it is. -/
theorem within_run (hs : s.Watches)
    (hkeeps : ∀ closer ∈ s.region.closers, ¬closer <:+: s.halfRead ++ s.region.folded (visible body)) :
    s.Within (s.run body) := by
  induction body generalizing s with
  | nil => rfl
  | cons c rest ih =>
      rw [visible_cons, Region.folded_append, ← List.append_assoc] at hkeeps
      have hstep : s.Follows (s.region.folded (visible [c])) (s.step c) := by
        apply follows_step hs
        intro closer hcloser hoccurs
        exact hkeeps closer hcloser (hoccurs.trans (List.prefix_append _ _).isInfix)
      have hregion := hstep.within.region
      refine hstep.within.trans (ih hstep.watches ?_)
      rw [hregion]
      intro closer hcloser hoccurs
      refine hkeeps closer hcloser (hoccurs.trans (List.IsSuffix.isInfix ?_))
      obtain ⟨before, hbefore⟩ := hstep.halfRead
      exact ⟨before, by rw [← List.append_assoc, hbefore]⟩

end Within

/-! ## Closers -/

section Closers

variable {s t : Scanner}

theorem step_star (hregion : s.region = .blockComment) :
    s.step '*' = { s with lead := some '*', position := s.position.nextColumn } := by
  rw [step_of_ne (by decide) (by decide), stepRegion, hregion]
  simp [stepBlockComment]

theorem run_closer_blockComment (hregion : s.region = .blockComment) (hwithin : s.Within t)
    (htag : s.tag = t.tag) (hposition : s.position = t.position) :
    s.run ['*', '/'] = t.run ['*', '/'] := by
  have hstep : s.step '*' = t.step '*' := by
    rw [step_star hregion, step_star (hwithin.region.trans hregion), hwithin, ← htag, ← hposition]
  change (s.step '*').run ['/'] = (t.step '*').run ['/']
  rw [hstep]

theorem run_closer_lineComment (hregion : s.region = .lineComment) (hwithin : s.Within t)
    (htag : s.tag = t.tag) (hline : s.position.line = t.position.line) :
    s.run ['\n'] = t.run ['\n'] := by
  have hnewline : ∀ u : Scanner, u.region = .lineComment →
      u.step '\n' = { u.leave with lead := none, position := ⟨satAdd u.position.line 1, 0⟩ } := by
    intro u hu
    change u.stepLine = _
    rw [stepLine, breakRegion, hu]
    rfl
  change s.step '\n' = t.step '\n'
  rw [hnewline s hregion, hnewline t (hwithin.region.trans hregion), hwithin, ← htag, ← hline]
  rfl

theorem run_openTag_page (s : Scanner) (hregion : s.regions.current = .page) :
    s.run ['<', '?', 'p', 'h', 'p'] = { s with
      regions := s.regions.push ⟨.code, s.position.nextColumn.nextColumn.nextColumn.nextColumn⟩
      tag := []
      lead := none
      recent := (none, none)
      position := s.position.nextColumn.nextColumn.nextColumn.nextColumn.nextColumn } := by
  have hquestion : '?'.toLower = '?' := by decide
  have hp : 'p'.toLower = 'p' := by decide
  have hh : 'h'.toLower = 'h' := by decide
  simp [run, step, stepColumn, stepRegion, region, stepPage, openTags, hregion, hquestion, hp, hh,
    enterCode, enter]

theorem run_closer_page (hregion : s.region = .page) (hwithin : s.Within t)
    (hposition : s.position = t.position) :
    s.run ['<', '?', 'p', 'h', 'p'] = t.run ['<', '?', 'p', 'h', 'p'] := by
  rw [s.run_openTag_page hregion, t.run_openTag_page (hwithin.region.trans hregion), hwithin,
    ← hposition]

end Closers

end Scanner

/-! ## Two bodies -/

section Bodies

variable {first second : List Char}

/-- The place after two texts is known from the first one and from the place after the second. -/
theorem placeAfter_append_congr (text : List Char) (hplace : placeAfter first = placeAfter second) :
    placeAfter (text ++ first) = placeAfter (text ++ second) := by
  simp only [placeAfter_eq, Position.mk.injEq, visible_append, List.count_append] at hplace ⊢
  obtain ⟨hcount, hlength⟩ := hplace
  refine ⟨by omega, ?_⟩
  by_cases hline : '\n' ∈ visible first
  · have hother : '\n' ∈ visible second := by
      rw [← List.count_pos_iff] at hline ⊢
      omega
    rw [lastLine_append_of_mem hline, lastLine_append_of_mem hother, hlength]
  · have hother : '\n' ∉ visible second := by
      rw [← List.count_eq_zero] at hline ⊢
      omega
    rw [lastLine_eq_self hline, lastLine_eq_self hother] at hlength
    rw [lastLine_append_of_notMem hline, lastLine_append_of_notMem hother, List.length_append,
      List.length_append, hlength]

end Bodies

namespace Scanner

section Bodies

variable {options : ScanOptions} {text first second : List Char}

/-- After two bodies that end at the same place, the scanner is at the same place. -/
theorem position_run_append_congr (hplace : placeAfter first = placeAfter second) :
    ((start options).run (text ++ first)).position =
      ((start options).run (text ++ second)).position := by
  rw [position_run_eq_heldPlace, position_run_eq_heldPlace, heldPlace, heldPlace,
    placeAfter_append_congr text hplace]

theorem line_position_run_append (hfirst : '\n' ∉ first) (hsecond : '\n' ∉ second) :
    ((start options).run (text ++ first)).position.line =
      ((start options).run (text ++ second)).position.line := by
  rw [position_run_eq_heldPlace, position_run_eq_heldPlace, heldPlace, heldPlace]
  simp [placeAfter, List.count_append, List.count_eq_zero_of_not_mem hfirst,
    List.count_eq_zero_of_not_mem hsecond]

theorem tag_run_of_ne_page (hregion : ((start options).run text).region ≠ .page) :
    ((start options).run text).tag = [] :=
  (coherent_run options text).tag_eq_nil hregion

theorem pending_run_of_ne_code (hregion : ((start options).run text).region ≠ .code) :
    ((start options).run text).pending = none :=
  (coherent_run options text).pending_eq_none (Or.inl hregion)

theorem AtEdge.halfRead {s : Scanner} (hedge : s.AtEdge) : s.halfRead = [] := by
  unfold AtEdge at hedge
  unfold Scanner.halfRead Region.halfRead
  split at hedge <;> simp_all

theorem AtEdge.watches (hedge : ((start options).run text).AtEdge)
    (hregion : ((start options).run text).region = .page ∨
      ((start options).run text).region = .blockComment ∨
      ((start options).run text).region = .lineComment) :
    ((start options).run text).Watches where
  region := hregion
  pending := by
    apply pending_run_of_ne_code
    obtain h | h | h := hregion <;> simp [h]
  lead := by
    intro hcomment
    rw [AtEdge, hcomment] at hedge
    simp [hedge]

/-- A string that holds one of two bodies of the same extent. -/
theorem run_append_quoted {quote : Char} (hquoted : ((start options).run text).QuotedBy quote)
    (hfirst : ((start options).run text).region.Keeps first)
    (hsecond : ((start options).run text).region.Keeps second)
    (hplace : placeAfter first = placeAfter second) :
    (start options).run (text ++ first) = (start options).run (text ++ second) := by
  have hpending : ((start options).run text).pending = none := by
    apply pending_run_of_ne_code
    obtain ⟨h, -⟩ | ⟨h, -⟩ := hquoted <;> simp [h]
  have hposition : ((start options).run (text ++ first)).position =
      ((start options).run (text ++ second)).position := position_run_append_congr hplace
  have hlines : '\n' ∈ first ↔ '\n' ∈ second := by
    have hcount : first.count '\n' + 1 = second.count '\n' + 1 := congrArg Position.line hplace
    rw [← List.count_pos_iff, ← List.count_pos_iff]
    omega
  rw [run_append, run_append] at hposition ⊢
  rw [run_quoted hquoted hpending (hquoted.notMem hfirst),
    run_quoted hquoted hpending (hquoted.notMem hsecond), hposition]
  simp only [hlines]

/-- A comment, or the page, that holds one of two bodies. -/
theorem within_append (hs : ((start options).run text).Watches)
    (hedge : ((start options).run text).AtEdge)
    (hfirst : ((start options).run text).region.Keeps first)
    (hsecond : ((start options).run text).region.Keeps second) :
    ((start options).run text).Within ((start options).run (text ++ first)) ∧
      ((start options).run (text ++ first)).Within ((start options).run (text ++ second)) := by
  have hwithin : ∀ body, ((start options).run text).region.Keeps body →
      ((start options).run text).Within ((start options).run (text ++ body)) := by
    intro body hkeeps
    rw [run_append]
    apply within_run hs
    rw [hedge.halfRead]
    exact hkeeps
  exact ⟨hwithin first hfirst, (hwithin first hfirst).symm.trans (hwithin second hsecond)⟩

end Bodies

end Scanner

theorem Scanner.run_append_closer {options : ScanOptions} {text first second : List Char}
    (hinside : ((start options).run text).region.isOpaque)
    (hedge : ((start options).run text).AtEdge)
    (hfirst : ((start options).run text).region.Keeps first)
    (hsecond : ((start options).run text).region.Keeps second)
    (hextent : ((start options).run text).region.SameExtent first second) :
    (start options).run (text ++ first ++ ((start options).run text).region.closer) =
      (start options).run (text ++ second ++ ((start options).run text).region.closer) := by
  rw [run_append _ (text ++ first), run_append _ (text ++ second)]
  -- Off the page nothing of a tag is remembered, whatever has been read.
  have htag : ∀ body, ((start options).run (text ++ body)).region ≠ .page →
      ((start options).run (text ++ body)).tag = [] := fun body => tag_run_of_ne_page
  cases hregion : ((start options).run text).region with
  | code => simp [hregion, Region.isOpaque] at hinside
  | parens nested => simp [hregion, Region.isOpaque] at hinside
  | doubleQuoted =>
      rw [hregion] at hextent
      rw [run_append_quoted (Or.inl ⟨hregion, rfl⟩) hfirst hsecond (hextent.resolve_left (by simp))]
  | singleQuoted =>
      rw [hregion] at hextent
      rw [run_append_quoted (Or.inr ⟨hregion, rfl⟩) hfirst hsecond (hextent.resolve_left (by simp))]
  | blockComment =>
      have hs := hedge.watches (Or.inr (Or.inl hregion))
      obtain ⟨hin, hbodies⟩ := within_append hs hedge hfirst hsecond
      have hhere := hin.region.trans hregion
      rw [hregion] at hextent
      apply run_closer_blockComment hhere hbodies
      · rw [htag first (by simp [hhere]), htag second (by simp [hbodies.region, hhere])]
      · exact position_run_append_congr (hextent.resolve_left (by simp))
  | lineComment =>
      have hs := hedge.watches (Or.inr (Or.inr hregion))
      obtain ⟨hin, hbodies⟩ := within_append hs hedge hfirst hsecond
      have hhere := hin.region.trans hregion
      rw [hregion] at hfirst hsecond
      apply run_closer_lineComment hhere hbodies
      · rw [htag first (by simp [hhere]), htag second (by simp [hbodies.region, hhere])]
      · exact line_position_run_append
          (notMem_of_visible (by decide) (hfirst _ List.mem_cons_self))
          (notMem_of_visible (by decide) (hsecond _ List.mem_cons_self))
  | page =>
      have hs := hedge.watches (Or.inl hregion)
      obtain ⟨hin, hbodies⟩ := within_append hs hedge hfirst hsecond
      rw [hregion] at hextent
      exact run_closer_page (hin.region.trans hregion) hbodies
        (position_run_append_congr (hextent.resolve_left (by simp)))

/-- **What stands in an opaque region does not matter.** Let a text end within a string, a comment or
the page, with nothing half read that would close it. Two bodies that do not close the region and end
at the same place lead, once it is closed, to the same state of the scanner in every respect, and to
the same report whatever follows. In a line comment the bodies may even end at different places. -/
theorem run_opaque_body_eq (options : ScanOptions) (text first second : List Char) (region : Region)
    (hregion : ((Scanner.start options).run text).region = region) (hinside : region.isOpaque)
    (hedge : ((Scanner.start options).run text).AtEdge) (hfirst : region.Keeps first)
    (hsecond : region.Keeps second) (hextent : region.SameExtent first second) :
    (Scanner.start options).run (text ++ first ++ region.closer) =
      (Scanner.start options).run (text ++ second ++ region.closer) ∧
    ∀ rest : List Char,
      scan options (.ofList (text ++ first ++ region.closer ++ rest)) =
        scan options (.ofList (text ++ second ++ region.closer ++ rest)) := by
  subst hregion
  have hstates := Scanner.run_append_closer hinside hedge hfirst hsecond hextent
  refine ⟨hstates, ?_⟩
  intro rest
  simp only [scan, Scanner.feed, String.toList_ofList]
  rw [Scanner.run_append, hstates, ← Scanner.run_append]

/-- Two comments that end in a star more than they need. -/
theorem run_opaque_body_eq_trailing_star :
    (∀ body ∈ ["* class A \x7b\x0d\n *", "<?php ('\"?>#\n**"], Region.blockComment.Keeps body.toList) ∧
      scan {} "<?php /** class A \x7b\x0d\n **/ class B \x7b" =
        scan {} "<?php /*<?php ('\"?>#\n***/ class B \x7b" := by
  have hkeeps : ∀ body ∈ ["* class A \x7b\x0d\n *", "<?php ('\"?>#\n**"],
      Region.blockComment.Keeps body.toList := by decide +kernel
  have hreports := (run_opaque_body_eq {} "<?php /*".toList "* class A \x7b\x0d\n *".toList
    "<?php ('\"?>#\n**".toList .blockComment (by decide +kernel) rfl
    (show _ ≠ _ by decide +kernel) (hkeeps _ (by simp)) (hkeeps _ (by simp))
    (Or.inr (by decide +kernel))).2 " class B \x7b".toList
  refine ⟨hkeeps, ?_⟩
  rwa [show String.ofList _ = "<?php /** class A \x7b\x0d\n **/ class B \x7b" by decide +kernel,
    show String.ofList _ = "<?php /*<?php ('\"?>#\n***/ class B \x7b" by decide +kernel] at hreports

end PhpOutline
