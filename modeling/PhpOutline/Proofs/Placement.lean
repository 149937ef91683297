import PhpOutline.Proofs.Places

/-!
# Where labels stand

Every label of a trace is a stretch of the text without its carriage returns: the identifier was begun
where no label could be going on, it was read without a gap, and it was completed at a character that
is not part of a label.
-/

namespace PhpOutline

/-! ## The identifier that is being read -/

/-- The text ends with an open tag `<?php`: its last character leads from the page into the code. -/
def EndsOpenTag (options : ScanOptions) (text : List Char) : Prop :=
  ∃ before c, text = before ++ [c] ∧
    ((Scanner.start options).run before).region = .page ∧
    ((Scanner.start options).run text).region = .code ∧
    ∃ page tag, visible text = page ++ tag ∧ tag.map Char.toLower = ['<', '?', 'p', 'h', 'p']

/-- No label goes on after the text: it does not end with a character that is part of a label, except
for an open tag. -/
def EndsLabels (options : ScanOptions) (text : List Char) : Prop :=
  ∀ c, (visible text).getLast? = some c → isLabelChar c →
    ∃ opened, opened <+: text ∧ visible opened = visible text ∧ EndsOpenTag options opened

/-- The text ends with the identifier, and there is nothing of a label before it. -/
structure EndsWith (options : ScanOptions) (text : List Char) (ident : Identifier) : Prop where
  ne_nil : ident.text ≠ []
  label : ∀ c ∈ ident.text, isLabelChar c
  placed : ∃ before, before <+: text ∧ visible text = visible before ++ ident.text ∧
    ident.start = ((Scanner.start options).run before).position ∧ EndsLabels options before

section Sited

variable {options : ScanOptions} {text : List Char} {c : Char}

theorem endsLabels_of_not_label (hreturn : c ≠ '\r') (hlabel : isLabelChar c = false) :
    EndsLabels options (text ++ [c]) := by
  intro last hlast hlastLabel
  rw [visible_concat text hreturn, List.getLast?_concat] at hlast
  obtain rfl := Option.some.inj hlast
  simp [hlabel] at hlastLabel

theorem EndsLabels.concat_return (hends : EndsLabels options text) :
    EndsLabels options (text ++ ['\r']) := by
  intro last hlast hlabel
  rw [visible_concat_return] at hlast
  obtain ⟨opened, hprefix, hvisible, htag⟩ := hends last hlast hlabel
  exact ⟨opened, hprefix.trans (List.prefix_append _ _), by rw [hvisible, visible_concat_return],
    htag⟩

theorem EndsWith.concat_return {ident : Identifier} (hends : EndsWith options text ident) :
    EndsWith options (text ++ ['\r']) ident := by
  obtain ⟨before, hprefix, hvisible, hstart, hbefore⟩ := hends.placed
  refine ⟨hends.ne_nil, hends.label, before, hprefix.trans (List.prefix_append _ _), ?_, hstart,
    hbefore⟩
  rw [visible_concat_return, hvisible]

theorem EndsWith.concat_label {ident : Identifier} (hends : EndsWith options text ident)
    (hreturn : c ≠ '\r') (hlabel : isLabelChar c) :
    EndsWith options (text ++ [c]) { ident with text := ident.text ++ [c] } := by
  obtain ⟨before, hprefix, hvisible, hstart, hbefore⟩ := hends.placed
  refine ⟨by simp, ?_, before, hprefix.trans (List.prefix_append _ _), ?_, hstart, hbefore⟩
  · intro d hd
    obtain hd | hd := List.mem_append.mp hd
    · exact hends.label d hd
    · rwa [List.mem_singleton.mp hd]
  · rw [visible_concat text hreturn, hvisible, List.append_assoc]

theorem EndsLabels.concat_label (hends : EndsLabels options text) (hreturn : c ≠ '\r')
    (hlabel : isLabelChar c) (recent : Option Char × Option Char) :
    EndsWith options (text ++ [c]) ⟨[c], ((Scanner.start options).run text).position, recent⟩ where
  ne_nil := by simp
  label := by simpa using hlabel
  placed := ⟨text, List.prefix_append _ _, visible_concat text hreturn, rfl, hends⟩

/-- The scanner's partial findings are where it thinks they are. -/
structure Sited (options : ScanOptions) (text : List Char) (s : Scanner) : Prop where
  tag : s.region = .page →
    ∃ page tag, visible text = page ++ tag ∧ tag.map Char.toLower = s.tag
  pending : ∀ ident, s.pending = some ident → EndsWith options text ident
  code : s.region = .code → s.pending = none → EndsLabels options text

theorem sited_of_not_label {s : Scanner} (hreturn : c ≠ '\r') (hlabel : isLabelChar c = false)
    (htag : s.tag = []) (hpending : s.pending = none) : Sited options (text ++ [c]) s where
  tag := fun _ => ⟨visible (text ++ [c]), [], by simp, by simp [htag]⟩
  pending := fun ident hident => by simp [hpending] at hident
  code := fun _ _ => endsLabels_of_not_label hreturn hlabel

theorem eq_of_toLower_eq {c d : Char} (hlower : d.isLower = false) (hd : c.toLower = d) : c = d := by
  unfold Char.toLower at hd
  split at hd
  · rename_i hupper
    have hge : 65 ≤ c.val.toNat := hupper.1
    have hle : c.val.toNat ≤ 90 := hupper.2
    have hval : d.val.toNat = c.val.toNat + 32 := by
      rw [← hd]
      change (c.val + 32).toNat = _
      rw [UInt32.toNat_add]
      change (c.val.toNat + 32) % 2 ^ 32 = _
      omega
    change (decide _ && decide _) = false at hlower
    simp only [Bool.and_eq_false_iff, decide_eq_false_iff_not, ge_iff_le,
      UInt32.le_iff_toNat_le, hval] at hlower
    change ¬97 ≤ _ ∨ ¬_ ≤ 122 at hlower
    omega
  · exact hd

variable {s : Scanner}

/-- A character that may complete an open tag: only `<?php` ends with a label character. -/
theorem endsLabels_enterCode (hs : s = (Scanner.start options).run text)
    (hsited : Sited options text s) (hpage : s.region = .page) (hreturn : c ≠ '\r')
    (hline : c ≠ '\n') (hopen : s.tag ++ [c.toLower] ∈ Scanner.openTags)
    (hstep : s.stepPage c = s.enterCode) : EndsLabels options (text ++ [c]) := by
  intro last hlast hlabel
  rw [visible_concat text hreturn, List.getLast?_concat] at hlast
  obtain rfl := Option.some.inj hlast
  obtain ⟨page, tag, hvisible, htag⟩ := hsited.tag hpage
  have htags : (tag ++ [c]).map Char.toLower ∈ Scanner.openTags := by simpa [htag] using hopen
  have hrun : (Scanner.start options).run (text ++ [c]) = { s.enterCode with
      position := s.position.nextColumn } := by
    rw [Scanner.run_concat, ← hs, Scanner.step, if_neg hreturn, if_neg hline, Scanner.stepColumn,
      Scanner.stepRegion, hpage]
    simp only [hstep]
  simp only [Scanner.openTags, List.mem_cons, List.not_mem_nil, or_false] at htags
  obtain hphp | hecho := htags
  · refine ⟨text ++ [c], List.prefix_rfl, rfl, text, c, rfl, by rw [← hs]; exact hpage, ?_,
      page, tag ++ [c], ?_, hphp⟩
    · rw [hrun]
      rfl
    · rw [visible_concat text hreturn, hvisible, List.append_assoc]
  · have hequals : c.toLower = '=' := by
      have hend := congrArg List.getLast? hecho
      simpa using hend
    rw [eq_of_toLower_eq (by decide) hequals] at hlabel
    exact absurd hlabel (by decide)

theorem Sited.stepPage (hs : s = (Scanner.start options).run text) (hsited : Sited options text s)
    (hcoherent : s.Coherent) (hpage : s.region = .page) (hreturn : c ≠ '\r') (hline : c ≠ '\n') :
    Sited options (text ++ [c]) (s.stepPage c) := by
  have hnone : s.pending = none := hcoherent.pending_eq_none (by simp [hpage])
  have hcode : s.region ≠ .code := by simp [hpage]
  obtain ⟨page, tag, hvisible, htag⟩ := hsited.tag hpage
  have hpending : ∀ ident, (s.stepPage c).pending = some ident →
      EndsWith options (text ++ [c]) ident := by
    intro ident hident
    rw [Scanner.pending_stepPage, hnone] at hident
    cases hident
  refine ⟨fun hregion => ?_, hpending, fun hregion _ => ?_⟩
  · obtain ⟨rfl, h⟩ | h | h | ⟨-, h⟩ := s.stepPage_cases c <;> rw [h] at hregion ⊢
    · exact ⟨visible text, ['<'], visible_concat text hreturn, rfl⟩
    · exact ⟨visible (text ++ [c]), [], (List.append_nil _).symm, rfl⟩
    · exact ⟨page, tag ++ [c], by rw [visible_concat text hreturn, hvisible, List.append_assoc],
        by simp [htag]⟩
    · cases hregion
  · obtain ⟨-, h⟩ | h | h | ⟨hopen, h⟩ := s.stepPage_cases c
    · rw [h] at hregion
      exact absurd hregion hcode
    · rw [h] at hregion
      exact absurd hregion hcode
    · rw [h] at hregion
      exact absurd hregion hcode
    · exact endsLabels_enterCode hs hsited hpage hreturn hline hopen h

/-- A label character outside of the page goes on with a label of the code, or does nothing. -/
theorem Sited.stepRegion_of_label (hs : s = (Scanner.start options).run text)
    (hsited : Sited options text s) (hcoherent : s.Coherent) (hpage : s.region ≠ .page)
    (hreturn : c ≠ '\r') (hlabel : isLabelChar c) :
    Sited options (text ++ [c]) (s.stepRegion c) := by
  have hregion := s.region_stepRegion_of_label c hpage hlabel
  refine ⟨fun h => absurd (hregion.symm.trans h) hpage, ?_, ?_⟩
  · intro ident hident
    by_cases hcode : s.region = .code
    · rw [Scanner.stepRegion, hcode] at hident
      simp only [s.stepCode_of_label c hlabel] at hident
      obtain rfl := Option.some.inj hident
      cases hpending : s.pending with
      | none =>
          dsimp only
          rw [hs]
          exact (hsited.code hcode hpending).concat_label hreturn hlabel _
      | some ident =>
          dsimp only
          exact (hsited.pending ident hpending).concat_label hreturn hlabel
    · cases (hcoherent.pending_stepRegion_outside c hcode).symm.trans hident
  · intro hcode hnone
    rw [hregion] at hcode
    rw [Scanner.stepRegion, hcode] at hnone
    simp only [s.stepCode_of_label c hlabel] at hnone
    cases hnone

theorem sited_run (options : ScanOptions) (text : List Char) :
    Sited options text ((Scanner.start options).run text) := by
  induction text using List.reverseRecOn with
  | nil =>
      refine ⟨fun _ => ⟨[], [], rfl, rfl⟩, ?_, ?_⟩
      · intro ident hident
        cases hident
      · intro hcode
        cases hcode
  | append_singleton text c ih =>
      have hcoherent := Scanner.coherent_run options text
      rw [Scanner.run_concat, Scanner.step]
      split_ifs with hreturn hline
      · subst hreturn
        refine ⟨?_, fun ident hident => (ih.pending ident hident).concat_return,
          fun hcode hnone => (ih.code hcode hnone).concat_return⟩
        rw [visible_concat_return]
        exact ih.tag
      · subst hline
        have hbreak := hcoherent.breakRegion
        exact sited_of_not_label hreturn (by decide) hbreak.1 hbreak.2
      · have hregion : Sited options (text ++ [c])
            (((Scanner.start options).run text).stepRegion c) := by
          by_cases hpage : ((Scanner.start options).run text).region = .page
          · rw [Scanner.stepRegion, hpage]
            exact ih.stepPage rfl hcoherent hpage hreturn hline
          · cases hlabel : isLabelChar c with
            | true => exact ih.stepRegion_of_label rfl hcoherent hpage hreturn hlabel
            | false =>
                exact sited_of_not_label hreturn hlabel (hcoherent.tag_stepRegion c hpage)
                  (hcoherent.pending_stepRegion c hlabel)
        exact ⟨hregion.tag, hregion.pending, hregion.code⟩

end Sited

/-! ## The labels of a trace -/

/-- The label stands in the text where it says: it is a stretch of label characters, with no label
character before it, except for an open tag, and none after it. -/
structure Occurrence.StandsIn (label : Occurrence) (options : ScanOptions) (text : List Char) :
    Prop where
  ne_nil : label.text.toList ≠ []
  all_label : ∀ c ∈ label.text.toList, isLabelChar c
  placed : ∃ before after, before <+: text ∧
    visible text = visible before ++ label.text.toList ++ after ∧
    label.start = ((Scanner.start options).run before).position ∧ EndsLabels options before ∧
    ∀ c, after.head? = some c → isLabelChar c = false

section Labels

variable {options : ScanOptions} {text : List Char}

theorem Occurrence.StandsIn.newline_notMem {label : Occurrence}
    (hstands : label.StandsIn options text) : '\n' ∉ label.text.toList := by
  intro hmem
  exact absurd (hstands.all_label '\n' hmem) (by decide)

theorem Scanner.label_mem_completion {s : Scanner} {label : Occurrence}
    (hlabel : .label label ∈ s.completion) :
    ∃ ident, s.pending = some ident ∧ label.text = .ofList ident.text ∧ label.start = ident.start := by
  unfold completion at hlabel
  split at hlabel
  · cases hlabel
  · rename_i ident hpending
    obtain rfl := Event.label.inj (List.mem_singleton.mp hlabel)
    exact ⟨ident, hpending, rfl, rfl⟩

theorem Scanner.label_mem_emits {s : Scanner} {c : Char} {label : Occurrence}
    (hlabel : .label label ∈ s.emits c) :
    .label label ∈ s.completion ∧ c ≠ '\r' ∧ isLabelChar c = false := by
  have hmark : .label label ∉ s.mark c := by
    unfold mark
    split <;> simp
  by_cases hreturn : c = '\r'
  · rw [emits, if_pos hreturn] at hlabel
    cases hlabel
  · have hclosing : .label label ∈ (if s.closesTag c then s.completion else []) →
        .label label ∈ s.completion ∧ c ≠ '\r' ∧ isLabelChar c = false := by
      intro hlabel
      split_ifs at hlabel with hclose
      · exact ⟨hlabel, hreturn, s.not_label_of_closesTag c hclose⟩
      · cases hlabel
    rw [emits, if_neg hreturn] at hlabel
    cases hregion : s.region <;> simp only [hregion] at hlabel
    case code =>
      split_ifs at hlabel with hends hlabelChar
      · refine ⟨hlabel, hreturn, ?_⟩
        obtain rfl | hclose := hends
        · decide
        · exact s.not_label_of_closesTag c hclose
      · cases hlabel
      · refine ⟨(List.mem_append.mp hlabel).resolve_right hmark, hreturn, ?_⟩
        simpa using fun h => hlabelChar (Or.inr h)
    case parens => exact hclosing hlabel
    case lineComment => exact hclosing hlabel
    all_goals cases hlabel

theorem standsIn_of_completion {before after : List Char} {label : Occurrence}
    (hlabel : .label label ∈ ((Scanner.start options).run before).completion)
    (hafter : ∀ c, (visible after).head? = some c → isLabelChar c = false) :
    label.StandsIn options (before ++ after) := by
  obtain ⟨ident, hpending, htext, hstart⟩ := Scanner.label_mem_completion hlabel
  have hends := (sited_run options before).pending ident hpending
  have hlist : label.text.toList = ident.text := by simp [htext]
  obtain ⟨first, hprefix, hvisible, hident, hfirst⟩ := hends.placed
  refine ⟨by rw [hlist]; exact hends.ne_nil, by rw [hlist]; exact hends.label, first, visible after,
    hprefix.trans (List.prefix_append _ _), ?_, hstart.trans hident, hfirst, hafter⟩
  rw [visible_append, hvisible, hlist]

/-- **Labels stand where they say.** -/
theorem standsIn_of_mem_scanTrace {text : String} {label : Occurrence}
    (hlabel : .label label ∈ scanTrace options text) : label.StandsIn options text.toList := by
  obtain htrace | hclosing := List.mem_append.mp hlabel
  · obtain ⟨before, c, after, htext, hemits⟩ := Scanner.mem_trace_iff.mp htrace
    obtain ⟨hcompletion, hreturn, hc⟩ := Scanner.label_mem_emits hemits
    rw [htext]
    refine standsIn_of_completion hcompletion ?_
    intro d hd
    simp only [visible, List.filter_cons, hreturn, ne_eq, not_false_eq_true, decide_true,
      if_true, List.head?_cons, Option.some.injEq] at hd
    rwa [← hd]
  · unfold Scanner.closing at hclosing
    split_ifs at hclosing
    · rw [← List.append_nil text.toList]
      exact standsIn_of_completion hclosing (by simp [visible])
    · cases hclosing

end Labels

end PhpOutline
