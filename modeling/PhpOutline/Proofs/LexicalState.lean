import Mathlib.Data.List.Induction
import PhpOutline.Proofs.Trace

/-!
# Lexical state

What a step can do to the part of the scanner that deals with characters, region by region. Two facts
hold of every scanner that has read a text: part of an open tag is remembered on the page only, and an
identifier is being read in the code only, where it is not in the way of a two-character sequence.
-/

namespace PhpOutline.Scanner

variable (s : Scanner) (c : Char)

theorem position_step :
    (s.step c).position =
      if c = '\r' then s.position
      else if c = '\n' then s.position.nextLine else s.position.nextColumn := by
  unfold step
  split_ifs <;> rfl

@[simp]
theorem position_complete : s.complete.position = s.position := by
  unfold complete
  split <;> rfl

@[simp]
theorem tag_complete : s.complete.tag = s.tag := by
  unfold complete
  split <;> rfl

@[simp]
theorem lead_complete : s.complete.lead = s.lead := by
  unfold complete
  split <;> rfl

@[simp]
theorem recent_complete : s.complete.recent = s.recent := by
  unfold complete
  split <;> rfl

theorem complete_of_pending_eq_none {s : Scanner} (hpending : s.pending = none) : s.complete = s := by
  rw [complete, hpending]

/-! ## The page -/

/-- What a character of the page can do: the part of an open tag read so far grows, begins anew, is
given up, or is a whole open tag. -/
theorem stepPage_cases :
    (c = '<' ∧ s.stepPage c = { s with tag := ['<'] }) ∨
      s.stepPage c = { s with tag := [] } ∨
      s.stepPage c = { s with tag := s.tag ++ [c.toLower] } ∨
      (s.tag ++ [c.toLower] ∈ openTags ∧ s.stepPage c = s.enterCode) := by
  unfold stepPage
  simp only
  split_ifs with hless hnil hopen hgrows
  · exact Or.inl ⟨hless, rfl⟩
  · right; left
    rw [← hnil]
  · exact Or.inr (Or.inr (Or.inr ⟨hopen, rfl⟩))
  · exact Or.inr (Or.inr (Or.inl rfl))
  · exact Or.inr (Or.inl rfl)

@[simp]
theorem pending_stepPage : (s.stepPage c).pending = s.pending := by
  obtain ⟨-, h⟩ | h | h | ⟨-, h⟩ := s.stepPage_cases c
  · rw [h]
  · rw [h]
  · rw [h]
  · rw [h]
    rfl

/-! ## The code -/

theorem not_label_of_closesTag (hclose : s.closesTag c) : isLabelChar c = false := by
  rw [hclose.2]
  decide

theorem not_label_of_opensComment (hopen : s.opensComment c) : isLabelChar c = false := by
  obtain ⟨-, rfl | rfl⟩ := hopen <;> decide

theorem stepPair?_of_label (hlabel : isLabelChar c) : s.stepPair? c = none := by
  obtain ⟨hclose, -⟩ | ⟨hopen, -⟩ | ⟨-, -, hpair⟩ := s.stepPair?_cases c
  · simp [s.not_label_of_closesTag c hclose] at hlabel
  · simp [s.not_label_of_opensComment c hopen] at hlabel
  · exact hpair

theorem stepCode_of_label (hlabel : isLabelChar c) :
    s.stepCode c = ({ s with lead := none }.extend c).note c := by
  rw [stepCode, s.stepPair?_of_label c hlabel]
  simp only [stepPlain, hlabel, if_true]

theorem tag_pending_stepMark :
    (s.stepMark c).tag = s.tag ∧ (s.stepMark c).pending = s.pending := by
  unfold stepMark
  split <;> exact ⟨rfl, rfl⟩

/-- A character of the code that is not part of a label leaves no identifier behind, unless it begins a
comment. -/
theorem stepCode_of_not_label (hlabel : isLabelChar c = false) :
    s.stepCode c = s.leaveCode ∨
      ((s.stepCode c).tag = s.tag ∧
        ((s.stepCode c).pending = none ∨ (s.lead ≠ none ∧ (s.stepCode c).pending = s.pending))) := by
  obtain ⟨-, hpair⟩ | ⟨hopen, region, -, hpair⟩ | ⟨-, -, hpair⟩ := s.stepPair?_cases c
  · left
    rw [stepCode, hpair]
  · right
    rw [stepCode, hpair]
    exact ⟨rfl, Or.inr ⟨by rw [hopen.1]; simp, rfl⟩⟩
  · right
    rw [stepCode, hpair]
    simp only [stepPlain, hlabel, Bool.false_eq_true, if_false]
    split_ifs
    · exact ⟨by simp, Or.inl (by simp)⟩
    · have hmark := { s with lead := none }.complete.tag_pending_stepMark c
      exact ⟨hmark.1.trans (by simp), Or.inl (hmark.2.trans (by simp))⟩

/-! ## The regions within the code -/

theorem tag_pending_stepParensMark (nested : Nat) :
    (s.stepParensMark nested c).tag = s.tag ∧ (s.stepParensMark nested c).pending = s.pending := by
  unfold stepParensMark
  split
  case h_2 => split_ifs <;> exact ⟨rfl, rfl⟩
  all_goals exact ⟨rfl, rfl⟩

/-- In parentheses, strings and comments a character leaves the code, or changes neither the tag nor
the identifier that is being read. -/
theorem stepRegion_inner (hpage : s.region ≠ .page) (hcode : s.region ≠ .code) :
    s.stepRegion c = s.leaveCode ∨
      ((s.stepRegion c).tag = s.tag ∧ (s.stepRegion c).pending = s.pending) := by
  unfold stepRegion
  cases hregion : s.region with
  | page => exact absurd hregion hpage
  | code => exact absurd hregion hcode
  | doubleQuoted =>
      right
      simp only [stepQuoted]
      split_ifs <;> exact ⟨rfl, rfl⟩
  | singleQuoted =>
      right
      simp only [stepQuoted]
      split_ifs <;> exact ⟨rfl, rfl⟩
  | lineComment =>
      simp only [stepLineComment]
      split
      case h_2 => exact Or.inl rfl
      all_goals exact Or.inr ⟨rfl, rfl⟩
  | blockComment =>
      right
      simp only [stepBlockComment]
      split <;> exact ⟨rfl, rfl⟩
  | parens nested =>
      simp only [stepParens]
      obtain ⟨-, hpair⟩ | ⟨-, region, -, hpair⟩ | ⟨-, -, hpair⟩ := s.stepPair?_cases c
      · rw [hpair]
        exact Or.inl rfl
      · rw [hpair]
        exact Or.inr ⟨rfl, rfl⟩
      · rw [hpair]
        right
        have hmark := { s with lead := none }.tag_pending_stepParensMark c nested
        simp only
        split_ifs <;> exact hmark

theorem region_stepRegion_of_label (hpage : s.region ≠ .page) (hlabel : isLabelChar c) :
    (s.stepRegion c).region = s.region := by
  have hmark : ∀ d, isLabelChar d = false → c ≠ d := by
    rintro d hd rfl
    simp [hd] at hlabel
  unfold stepRegion
  cases hregion : s.region with
  | page => exact absurd hregion hpage
  | code =>
      simp only [s.stepCode_of_label c hlabel]
      exact hregion
  | doubleQuoted =>
      simp only [stepQuoted, hmark '"' (by decide), if_false]
      exact hregion
  | singleQuoted =>
      simp only [stepQuoted, hmark '\'' (by decide), if_false]
      exact hregion
  | lineComment =>
      simp only [stepLineComment]
      split
      · simp [isLabelChar] at hlabel
      · simp [isLabelChar] at hlabel
      · exact hregion
      · exact hregion
  | blockComment =>
      simp only [stepBlockComment]
      split
      · simp [isLabelChar] at hlabel
      · exact hregion
      · exact hregion
  | parens nested =>
      have hparens : { s with lead := none }.stepParensMark nested c = { s with lead := none } := by
        unfold stepParensMark
        split
        case h_10 => rfl
        all_goals simp [isLabelChar] at hlabel
      simp only [stepParens, s.stepPair?_of_label c hlabel, hparens]
      split_ifs <;> exact hregion

/-! ## Coherence -/

structure Coherent : Prop where
  /-- Part of an open tag is remembered on the page only. -/
  tag_eq_nil : s.region ≠ .page → s.tag = []
  /-- An identifier is being read in the code only. -/
  pending_eq_none : s.region ≠ .code ∨ s.lead ≠ none → s.pending = none

theorem coherent_start (options : ScanOptions) : (start options).Coherent :=
  ⟨fun _ => rfl, fun _ => rfl⟩

variable {s}

theorem coherent_of_tag_pending (htag : s.tag = []) (hpending : s.pending = none) : s.Coherent :=
  ⟨fun _ => htag, fun _ => hpending⟩

theorem Coherent.breakRegion (hs : s.Coherent) :
    s.breakRegion.tag = [] ∧ s.breakRegion.pending = none := by
  unfold Scanner.breakRegion
  cases hregion : s.region with
  | page => exact ⟨rfl, hs.pending_eq_none (by simp [hregion])⟩
  | code => exact ⟨s.tag_complete.trans (hs.tag_eq_nil (by simp [hregion])), s.pending_complete⟩
  | lineComment =>
      exact ⟨hs.tag_eq_nil (by simp [hregion]), hs.pending_eq_none (by simp [hregion])⟩
  | parens nested => exact ⟨hs.tag_eq_nil (by simp [hregion]), rfl⟩
  | doubleQuoted => exact ⟨hs.tag_eq_nil (by simp [hregion]), rfl⟩
  | singleQuoted => exact ⟨hs.tag_eq_nil (by simp [hregion]), rfl⟩
  | blockComment => exact ⟨hs.tag_eq_nil (by simp [hregion]), rfl⟩

theorem Coherent.pending_stepRegion_outside (hs : s.Coherent) (hcode : s.region ≠ .code) :
    (s.stepRegion c).pending = none := by
  have hnone : s.pending = none := hs.pending_eq_none (Or.inl hcode)
  by_cases hpage : s.region = .page
  · have hstep : s.stepRegion c = s.stepPage c := by rw [stepRegion, hpage]
    rw [hstep, pending_stepPage, hnone]
  · obtain h | ⟨-, h⟩ := s.stepRegion_inner c hpage hcode
    · rw [h]
      exact s.pending_complete
    · rw [h, hnone]

theorem Coherent.pending_stepRegion (hs : s.Coherent) (hlabel : isLabelChar c = false) :
    (s.stepRegion c).pending = none := by
  by_cases hcode : s.region = .code
  · have hstep : s.stepRegion c = s.stepCode c := by rw [stepRegion, hcode]
    rw [hstep]
    obtain h | ⟨-, h | ⟨hlead, h⟩⟩ := s.stepCode_of_not_label c hlabel
    · rw [h]
      exact s.pending_complete
    · exact h
    · rw [h]
      exact hs.pending_eq_none (Or.inr hlead)
  · exact hs.pending_stepRegion_outside c hcode

theorem Coherent.tag_stepRegion (hs : s.Coherent) (hpage : s.region ≠ .page) :
    (s.stepRegion c).tag = [] := by
  have htag : s.tag = [] := hs.tag_eq_nil hpage
  by_cases hcode : s.region = .code
  · have hstep : s.stepRegion c = s.stepCode c := by rw [Scanner.stepRegion, hcode]
    rw [hstep]
    cases hlabel : isLabelChar c with
    | true =>
        rw [s.stepCode_of_label c hlabel]
        exact htag
    | false =>
        obtain h | ⟨h, -⟩ := s.stepCode_of_not_label c hlabel
        · rw [h]
          rfl
        · rw [h, htag]
  · obtain h | ⟨h, -⟩ := s.stepRegion_inner c hpage hcode
    · rw [h]
      rfl
    · rw [h, htag]

theorem Coherent.stepRegion (hs : s.Coherent) : (s.stepRegion c).Coherent := by
  by_cases hpage : s.region = .page
  · have hstep : s.stepRegion c = s.stepPage c := by rw [Scanner.stepRegion, hpage]
    have hnone : s.pending = none := hs.pending_eq_none (by simp [hpage])
    rw [hstep]
    obtain ⟨-, h⟩ | h | h | ⟨-, h⟩ := s.stepPage_cases c <;> rw [h]
    · exact ⟨fun h => absurd hpage h, fun _ => hnone⟩
    · exact ⟨fun h => absurd hpage h, fun _ => hnone⟩
    · exact ⟨fun h => absurd hpage h, fun _ => hnone⟩
    · exact coherent_of_tag_pending rfl hnone
  · have htag := hs.tag_stepRegion c hpage
    cases hlabel : isLabelChar c with
    | false => exact coherent_of_tag_pending htag (hs.pending_stepRegion c hlabel)
    | true =>
        by_cases hcode : s.region = .code
        · have hstep : s.stepRegion c = s.stepCode c := by rw [Scanner.stepRegion, hcode]
          rw [hstep, s.stepCode_of_label c hlabel] at htag ⊢
          exact ⟨fun _ => htag, fun h => h.elim (absurd hcode) (absurd rfl)⟩
        · exact coherent_of_tag_pending htag (hs.pending_stepRegion_outside c hcode)

theorem Coherent.step (hs : s.Coherent) : (s.step c).Coherent := by
  unfold Scanner.step
  split_ifs
  · exact hs
  · exact coherent_of_tag_pending hs.breakRegion.1 hs.breakRegion.2
  · have hregion := hs.stepRegion c
    exact ⟨hregion.tag_eq_nil, hregion.pending_eq_none⟩

theorem coherent_run (options : ScanOptions) (text : List Char) :
    ((start options).run text).Coherent := by
  induction text using List.reverseRecOn with
  | nil => exact coherent_start options
  | append_singleton text c ih =>
      rw [run_concat]
      exact ih.step c

end PhpOutline.Scanner
