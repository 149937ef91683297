import PhpOutline.Proofs.Nesting
import PhpOutline.Proofs.OpaqueRegions

/-!
# Open tags

On the page the scanner remembers what it has read of an open tag, and nothing else. When the next
character does not go on with the tag it starts again from nothing, where a search for arbitrary texts
would have to fall back on a shorter beginning. Nothing is lost by that: an open tag begins with `<`
and has no other `<` in it, so what has been read ends with at most one beginning of an open tag.
-/

namespace PhpOutline

/-! ## Places after a place -/

/-- Neither the line nor the column is past the largest counter value. -/
def Position.IsHeld (p : Position) : Prop := p.line ≤ counterMax ∧ p.column ≤ counterMax

/-- The place that follows a text which begins at the place, as counters tell it that stay at their
largest value. -/
def Position.after (p : Position) (text : List Char) : Position where
  line := min (p.line + text.count '\n') counterMax
  column :=
    min ((if '\n' ∈ text then 0 else p.column) + (lastLine (visible text)).length) counterMax

section Places

variable {p : Position}

theorem Position.IsHeld.after_nil (hheld : p.IsHeld) : p.after [] = p := by
  have hlast : lastLine (visible []) = [] := rfl
  simp [after, hlast, Nat.min_eq_left hheld.1, Nat.min_eq_left hheld.2]

theorem Position.after_concat (p : Position) (text : List Char) (c : Char) :
    p.after (text ++ [c]) =
      if c = '\r' then p.after text
      else if c = '\n' then (p.after text).nextLine else (p.after text).nextColumn := by
  by_cases hreturn : c = '\r'
  · subst hreturn
    rw [if_pos rfl, after, visible_concat_return]
    simp [after, List.count_append]
  · rw [if_neg hreturn, after, visible_concat text hreturn, List.count_append]
    by_cases hline : c = '\n'
    · subst hline
      have hlast : lastLine (visible text ++ ['\n']) = [] := lastLine_append List.not_mem_nil _
      rw [hlast, if_pos (by simp), if_pos rfl, nextLine, satAdd, after]
      simp only [List.count_cons_self, List.count_nil, List.length_nil, Position.mk.injEq]
      omega
    · have hnotMem : '\n' ∉ [c] := by simpa using Ne.symm hline
      have hmem : '\n' ∈ text ++ [c] ↔ '\n' ∈ text := by simp [Ne.symm hline]
      rw [lastLine_append_of_notMem hnotMem, List.count_eq_zero_of_not_mem hnotMem,
        if_congr hmem rfl rfl, if_neg hline, nextColumn, satAdd, after]
      simp only [List.length_append, List.length_singleton, Nat.add_zero, Position.mk.injEq, true_and]
      omega

theorem Scanner.position_run_of_isHeld {s : Scanner} (hheld : s.position.IsHeld)
    (text : List Char) : (s.run text).position = s.position.after text := by
  induction text using List.reverseRecOn with
  | nil => exact hheld.after_nil.symm
  | append_singleton text c ih =>
      rw [run_concat, position_step, ih, Position.after_concat]

end Places

namespace Scanner

/-! ## Beginnings of open tags -/

/-- A text as open tags are looked for in it: without carriage returns, and in lower case. -/
def tagView (text : List Char) : List Char := (visible text).map Char.toLower

/-- The text ends with an open tag, in any case and with carriage returns anywhere in it. -/
def EndsInTag (text : List Char) : Prop :=
  "<?php".toList <:+ tagView text ∨ "<?=".toList <:+ tagView text

instance (text : List Char) : Decidable (EndsInTag text) := inferInstanceAs (Decidable (_ ∨ _))

theorem endsInTag_iff {text : List Char} :
    EndsInTag text ↔ ∃ tag ∈ openTags, tag <:+ tagView text := by
  simp [EndsInTag, openTags]

/-- A beginning of an open tag, or all of it, but not nothing. -/
def BeginsTag (part : List Char) : Prop := part ≠ [] ∧ ∃ whole ∈ openTags, part <+: whole

section Beginnings

variable {part before view tag : List Char} {c : Char}

theorem beginsTag_of_mem (hpart : part ∈ openTags) : BeginsTag part := by
  refine ⟨?_, part, hpart, List.prefix_rfl⟩
  rintro rfl
  exact absurd hpart (by decide)

theorem IsPartialTag.beginsTag (hpart : IsPartialTag part) (hne : part ≠ []) : BeginsTag part := by
  obtain ⟨whole, hwhole, hbegins, -⟩ := hpart
  exact ⟨hne, whole, hwhole, hbegins⟩

/-- The only `<` of an open tag is its first character. -/
theorem openTag_eq_cons {whole : List Char} (hwhole : whole ∈ openTags) :
    ∃ rest, whole = '<' :: rest ∧ '<' ∉ rest := by
  simp only [openTags, List.mem_cons, List.not_mem_nil, or_false] at hwhole
  obtain rfl | rfl := hwhole
  · exact ⟨_, rfl, by decide⟩
  · exact ⟨_, rfl, by decide⟩

theorem newline_notMem_openTag {whole : List Char} (hwhole : whole ∈ openTags) : '\n' ∉ whole := by
  simp only [openTags, List.mem_cons, List.not_mem_nil, or_false] at hwhole
  obtain rfl | rfl := hwhole <;> decide

theorem BeginsTag.eq_cons (hpart : BeginsTag part) :
    ∃ rest, part = '<' :: rest ∧ '<' ∉ rest := by
  obtain ⟨hne, whole, hwhole, hbegins⟩ := hpart
  obtain ⟨rest, rfl, hless⟩ := openTag_eq_cons hwhole
  obtain ⟨c, part, rfl⟩ := List.exists_cons_of_ne_nil hne
  obtain ⟨rfl, hrest⟩ := List.cons_prefix_cons.mp hbegins
  exact ⟨part, rfl, fun h => hless (hrest.subset h)⟩

/-- A beginning that ends with another character than `<` goes on with a shorter beginning. -/
theorem BeginsTag.of_concat (hpart : BeginsTag (before ++ [c])) (hless : c ≠ '<') :
    before ≠ [] ∧ IsPartialTag before := by
  obtain ⟨rest, hrest, -⟩ := hpart.eq_cons
  obtain ⟨-, whole, hwhole, hbegins⟩ := hpart
  constructor
  · rintro rfl
    exact hless (List.cons.inj hrest).1
  · refine ⟨whole, hwhole, (List.prefix_append _ _).trans hbegins, ?_⟩
    rintro rfl
    have hlength := hbegins.length_le
    rw [List.length_append, List.length_singleton] at hlength
    omega

/-- Of all beginnings of open tags, the tag is the one that a text ends with. If the tag is empty, the
text ends with none. -/
structure HoldsTag (view tag : List Char) : Prop where
  isPartial : IsPartialTag tag
  unique : ∀ part, IsPartialTag part → part ≠ [] → (part <:+ view ↔ part = tag)

theorem holdsTag_nil : HoldsTag [] [] where
  isPartial := isPartialTag_nil
  unique := fun _ _ _ => List.suffix_nil

theorem HoldsTag.suffix (hholds : HoldsTag view tag) : tag <:+ view := by
  by_cases hne : tag = []
  · rw [hne]
    exact List.nil_suffix
  · exact (hholds.unique tag hholds.isPartial hne).mpr rfl

/-- One character more: only the tag that is held can go on. -/
theorem HoldsTag.suffix_concat_iff (hholds : HoldsTag view tag) (hless : c ≠ '<')
    (hpart : BeginsTag part) : part <:+ view ++ [c] ↔ tag ≠ [] ∧ part = tag ++ [c] := by
  constructor
  · intro hsuffix
    obtain hnil | ⟨before, rfl, hbefore⟩ := List.suffix_concat_iff.mp hsuffix
    · exact absurd hnil hpart.1
    · obtain ⟨hne, hpartial⟩ := hpart.of_concat hless
      obtain rfl := (hholds.unique before hpartial hne).mp hbefore
      exact ⟨hne, rfl⟩
  · rintro ⟨-, rfl⟩
    exact List.suffix_append_inj_of_length_eq rfl |>.mpr ⟨hholds.suffix, rfl⟩

theorem suffix_concat_less_iff (hpart : BeginsTag part) :
    part <:+ view ++ ['<'] ↔ part = ['<'] := by
  constructor
  · intro hsuffix
    obtain ⟨rest, rfl, hless⟩ := hpart.eq_cons
    obtain hnil | ⟨before, heq, -⟩ := List.suffix_concat_iff.mp hsuffix
    · cases hnil
    · cases before with
      | nil => exact heq
      | cons d before =>
          obtain ⟨rfl, rfl⟩ := List.cons.inj heq
          exact absurd (List.mem_append_right before (List.mem_singleton_self '<')) hless
  · rintro rfl
    exact List.suffix_append view ['<']

theorem IsPartialTag.newline_notMem (hpart : IsPartialTag part) : '\n' ∉ part := by
  obtain ⟨whole, hwhole, hbegins, -⟩ := hpart
  exact fun hmem => newline_notMem_openTag hwhole (hbegins.subset hmem)

end Beginnings

/-! ## One character of the page -/

section Page

variable {s : Scanner} {text : List Char} {c : Char}

theorem toLower_ne_less (hless : c ≠ '<') : c.toLower ≠ '<' :=
  fun h => hless (eq_of_toLower_eq (by decide) h)

theorem tagView_concat_return (text : List Char) : tagView (text ++ ['\r']) = tagView text := by
  rw [tagView, visible_concat_return, tagView]

theorem tagView_concat (text : List Char) (hreturn : c ≠ '\r') :
    tagView (text ++ [c]) = tagView text ++ [c.toLower] := by
  rw [tagView, visible_concat text hreturn, List.map_append, tagView]
  rfl

/-- A text that the page goes on with ends in an open tag exactly if the character completes the tag
that is held. -/
theorem endsInTag_concat_iff (hholds : HoldsTag (tagView text) s.tag) (hreturn : c ≠ '\r') :
    EndsInTag (text ++ [c]) ↔ c ≠ '<' ∧ s.tag ≠ [] ∧ s.tag ++ [c.toLower] ∈ openTags := by
  rw [endsInTag_iff, tagView_concat text hreturn]
  constructor
  · rintro ⟨whole, hwhole, hsuffix⟩
    have hbegins := beginsTag_of_mem hwhole
    by_cases hless : c = '<'
    · subst hless
      rw [show '<'.toLower = '<' by decide, suffix_concat_less_iff hbegins] at hsuffix
      rw [hsuffix] at hwhole
      exact absurd hwhole (by decide)
    · obtain ⟨hne, rfl⟩ := (hholds.suffix_concat_iff (toLower_ne_less hless) hbegins).mp hsuffix
      exact ⟨hless, hne, hwhole⟩
  · rintro ⟨hless, hne, hwhole⟩
    refine ⟨_, hwhole, ?_⟩
    exact (hholds.suffix_concat_iff (toLower_ne_less hless) (beginsTag_of_mem hwhole)).mpr ⟨hne, rfl⟩

theorem stepPage_of_endsInTag (hholds : HoldsTag (tagView text) s.tag) (hreturn : c ≠ '\r')
    (hends : EndsInTag (text ++ [c])) : s.stepPage c = s.enterCode := by
  obtain ⟨hless, hne, hopen⟩ := (endsInTag_concat_iff hholds hreturn).mp hends
  simp only [stepPage, if_neg hless, if_neg hne, if_pos hopen]

/-- As long as the text does not end in an open tag, the scanner holds what it ends with of one. -/
theorem holdsTag_stepPage (hholds : HoldsTag (tagView text) s.tag) (hreturn : c ≠ '\r')
    (hends : ¬EndsInTag (text ++ [c])) :
    s.stepPage c = { s with tag := (s.stepPage c).tag } ∧
      HoldsTag (tagView (text ++ [c])) (s.stepPage c).tag := by
  have hpartial : IsPartialTag (s.stepPage c).tag := isPartialTag_stepPage hholds.isPartial
  rw [endsInTag_concat_iff hholds hreturn] at hends
  rw [tagView_concat text hreturn]
  by_cases hless : c = '<'
  · subst hless
    have hstep : s.stepPage '<' = { s with tag := ['<'] } := by rw [stepPage, if_pos rfl]
    rw [hstep] at hpartial ⊢
    exact ⟨rfl, hpartial, fun part hpart hne => suffix_concat_less_iff (hpart.beginsTag hne)⟩
  · have hgoesOn : ∀ part, IsPartialTag part → part ≠ [] →
        (part <:+ tagView text ++ [c.toLower] ↔ s.tag ≠ [] ∧ part = s.tag ++ [c.toLower]) :=
      fun part hpart hne =>
        hholds.suffix_concat_iff (toLower_ne_less hless) (hpart.beginsTag hne)
    unfold stepPage at hpartial ⊢
    simp only [if_neg hless] at hpartial ⊢
    split_ifs at hpartial ⊢ with hnil hopen hgrows
    · refine ⟨rfl, hpartial, fun part hpart hne => ?_⟩
      rw [hgoesOn part hpart hne]
      simp [hnil, hne]
    · exact absurd ⟨hless, hnil, hopen⟩ hends
    · refine ⟨rfl, hpartial, fun part hpart hne => ?_⟩
      rw [hgoesOn part hpart hne, and_iff_right hnil]
    · -- Nothing that goes on with the tag is the beginning of one.
      refine ⟨rfl, hpartial, fun part hpart hne => ?_⟩
      rw [hgoesOn part hpart hne, iff_false_right hne]
      rintro ⟨-, rfl⟩
      obtain ⟨whole, hwhole, hbegins, -⟩ := hpart
      exact hgrows (List.any_eq_true.mpr ⟨whole, hwhole, List.isPrefixOf_iff_prefix.mpr hbegins⟩)

end Page

/-! ## The page -/

section Run

variable {s : Scanner} {text : List Char} {c : Char}

/-- A character of the page that does not complete an open tag leaves the scanner where it is. -/
theorem within_step_page (hpage : s.region = .page) (hholds : HoldsTag (tagView text) s.tag)
    (hends : ¬EndsInTag (text ++ [c])) :
    s.Within (s.step c) ∧ HoldsTag (tagView (text ++ [c])) (s.step c).tag := by
  by_cases hreturn : c = '\r'
  · subst hreturn
    rw [tagView_concat_return]
    exact ⟨rfl, hholds⟩
  · by_cases hline : c = '\n'
    · subst hline
      have hstep : s.step '\n' = { s with tag := [], lead := none, position := s.position.nextLine } := by
        change s.stepLine = _
        rw [stepLine, breakRegion, hpage]
      rw [hstep, tagView_concat text hreturn]
      refine ⟨rfl, isPartialTag_nil, fun part hpart hne => iff_of_false ?_ hne⟩
      intro hsuffix
      obtain hnil | ⟨before, rfl, -⟩ := List.suffix_concat_iff.mp hsuffix
      · exact hne hnil
      · exact hpart.newline_notMem (List.mem_append_right before (List.mem_singleton_self _))
    · obtain ⟨hstep, hnext⟩ := holdsTag_stepPage hholds hreturn hends
      have hpageStep : s.step c = { s.stepPage c with position := s.position.nextColumn } := by
        rw [step_of_ne hreturn hline, stepRegion, hpage]
      rw [hpageStep]
      refine ⟨?_, hnext⟩
      rw [hstep]
      rfl

/-- The character that completes an open tag enters the code. -/
theorem step_page_of_endsInTag (hpage : s.region = .page) (hholds : HoldsTag (tagView text) s.tag)
    (hbefore : ¬EndsInTag text) (hends : EndsInTag (text ++ [c])) :
    s.step c = { s.enterCode with position := s.position.nextColumn } := by
  have hreturn : c ≠ '\r' := by
    rintro rfl
    rw [EndsInTag, tagView_concat_return] at hends
    exact hbefore hends
  have hline : c ≠ '\n' := by
    rintro rfl
    obtain ⟨-, -, hopen⟩ := (endsInTag_concat_iff hholds hreturn).mp hends
    exact newline_notMem_openTag hopen (List.mem_append_right _ (List.mem_singleton_self _))
  rw [step_of_ne hreturn hline, stepRegion, hpage]
  simp only [stepPage_of_endsInTag hholds hreturn hends]

/-- **A stretch of the page.** A text in which no open tag ends leaves the scanner where it is. -/
theorem within_run_page (hpage : s.region = .page) (htag : s.tag = [])
    (hends : ∀ first, first <+: text → ¬EndsInTag first) :
    s.Within (s.run text) ∧ HoldsTag (tagView text) (s.run text).tag := by
  induction text using List.reverseRecOn with
  | nil =>
      refine ⟨rfl, ?_⟩
      rw [run, List.foldl_nil, htag]
      exact holdsTag_nil
  | append_singleton text c ih =>
      obtain ⟨hwithin, hholds⟩ := ih fun first hfirst => hends first (hfirst.trans (List.prefix_append _ _))
      obtain ⟨hstep, hnext⟩ :=
        within_step_page (hwithin.region.trans hpage) hholds (hends _ List.prefix_rfl)
      rw [run_concat]
      exact ⟨hwithin.trans hstep, hnext⟩

/-- The text ends with an open tag, and no shorter beginning of it does. -/
def IsFirstTag (text : List Char) : Prop :=
  EndsInTag text ∧ ∀ first, first <+: text → first ≠ text → ¬EndsInTag first

/-- The scanner `t` has found what `s` has found, and reads the same identifier. -/
structure SameFindings (s t : Scanner) : Prop where
  symbols : t.symbols = s.symbols
  intents : t.intents = s.intents
  lookback : t.lookback = s.lookback
  braceDepth : t.braceDepth = s.braceDepth
  pending : t.pending = s.pending

theorem Within.sameFindings {t : Scanner} (hwithin : s.Within t) : s.SameFindings t := by
  rw [hwithin]
  exact ⟨rfl, rfl, rfl, rfl, rfl⟩

theorem SameFindings.enterCode {t : Scanner} (hsame : s.SameFindings t) (place : Position) :
    s.SameFindings { t.enterCode with position := place } :=
  ⟨hsame.symbols, hsame.intents, hsame.lookback, hsame.braceDepth, hsame.pending⟩

theorem IsFirstTag.exists_concat (hfirst : IsFirstTag text) :
    ∃ before c, text = before ++ [c] ∧ ∀ first, first <+: before → ¬EndsInTag first := by
  cases text using List.reverseRecOn with
  | nil => exact absurd hfirst.1 (by decide)
  | append_singleton before c =>
      refine ⟨before, c, rfl, fun first hbegins => ?_⟩
      apply hfirst.2 first (hbegins.trans (List.prefix_append _ _))
      rintro rfl
      have hlength := hbegins.length_le
      rw [List.length_append, List.length_singleton] at hlength
      omega

/-- **The whole tag.** The first open tag is entered with its last character. -/
theorem run_isFirstTag (hpage : s.region = .page) (htag : s.tag = []) {before : List Char}
    (hbefore : ∀ first, first <+: before → ¬EndsInTag first) (hends : EndsInTag (before ++ [c])) :
    s.run (before ++ [c]) =
      { (s.run before).enterCode with position := (s.run before).position.nextColumn } := by
  obtain ⟨hwithin, hholds⟩ := within_run_page hpage htag hbefore
  rw [run_concat]
  exact step_page_of_endsInTag (hwithin.region.trans hpage) hholds (hbefore _ List.prefix_rfl) hends

end Run

/-- **Open tags are found where they occur.** Take any scanner that is on the page and in the middle of
no tag, and any text. Up to the first place where the text, without its carriage returns and in any
case, ends with an open tag, the scanner stays on the page; there it enters the code, and the code
begins at the place of the tag's last character. If there is no such place, the scanner stays on the
page throughout. All the while what it has found stays as it is. -/
theorem run_finds_openTag (s : Scanner) (text : List Char) (hpage : s.region = .page)
    (htag : s.tag = []) (hheld : s.position.IsHeld) :
    (∀ opened, opened <+: text → IsFirstTag opened →
      (∀ first, first <+: opened → first ≠ opened →
        (s.run first).region = .page ∧ s.SameFindings (s.run first)) ∧
      (s.run opened).region = .code ∧
      (s.run opened).regions = s.regions.push ⟨.code, s.position.after opened.dropLast⟩ ∧
      s.SameFindings (s.run opened)) ∧
    ((∀ first, first <+: text → ¬EndsInTag first) → ∀ first, first <+: text →
      (s.run first).region = .page ∧ s.SameFindings (s.run first)) := by
  have hstays : ∀ first, (∀ shorter, shorter <+: first → ¬EndsInTag shorter) →
      (s.run first).region = .page ∧ s.SameFindings (s.run first) := by
    intro first hnone
    have hwithin := (within_run_page hpage htag hnone).1
    exact ⟨hwithin.region.trans hpage, hwithin.sameFindings⟩
  refine ⟨fun opened _ hfirst => ?_, fun hnone first hbegins => ?_⟩
  · obtain ⟨before, c, rfl, hbefore⟩ := hfirst.exists_concat
    have hwithin := (within_run_page hpage htag hbefore).1
    have hrun := run_isFirstTag hpage htag hbefore hfirst.1
    have hregions : (s.run before).regions = s.regions := by rw [hwithin]
    refine ⟨fun first hbegins hne => hstays first ?_, ?_, ?_, ?_⟩
    · have hshort := (List.prefix_concat_iff.mp hbegins).resolve_left hne
      exact fun shorter hshorter => hbefore shorter (hshorter.trans hshort)
    · rw [hrun]
      rfl
    · rw [List.dropLast_concat, ← position_run_of_isHeld hheld, ← hregions, hrun]
      rfl
    · rw [hrun]
      exact hwithin.sameFindings.enterCode _
  · exact hstays first fun shorter hshorter => hnone shorter (hshorter.trans hbegins)

/-- A page that goes on after some code, with beginnings of tags that come to nothing, and then a tag
with capital letters and a carriage return in it. -/
theorem run_finds_openTag_after_false_starts :
    let s := (start {}).run "<?= class A \x7b ?>\n ".toList
    let opened := "<<?<?P\x0dHp".toList
    s.region = .page ∧ s.tag = [] ∧ s.position.IsHeld ∧ IsFirstTag opened ∧
      (s.run opened).regions = s.regions.push ⟨.code, ⟨2, 8⟩⟩ ∧ s.SameFindings (s.run opened) ∧
      (s.run "<<?<?P\x0dH".toList).region = .page := by
  intro s opened
  have hpage : s.region = .page := by decide +kernel
  have htag : s.tag = [] := by decide +kernel
  have hheld : s.position.IsHeld := ⟨by decide +kernel, by decide +kernel⟩
  have hshorter : ∀ first ∈ opened.inits, first ≠ opened → ¬EndsInTag first := by decide +kernel
  have hfirst : IsFirstTag opened :=
    ⟨by decide +kernel, fun first hbegins => hshorter first ((List.mem_inits _ _).mpr hbegins)⟩
  have hplace : s.position.after opened.dropLast = ⟨2, 8⟩ := by decide +kernel
  obtain ⟨hstays, -, hregions, hsame⟩ :=
    (run_finds_openTag s opened hpage htag hheld).1 opened List.prefix_rfl hfirst
  rw [hplace] at hregions
  exact ⟨hpage, htag, hheld, hfirst, hregions, hsame,
    (hstays "<<?<?P\x0dH".toList ⟨['p'], by decide +kernel⟩ (by decide +kernel)).1⟩

end Scanner

end PhpOutline
