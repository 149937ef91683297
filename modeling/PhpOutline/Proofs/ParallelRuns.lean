import PhpOutline.Proofs.LexicalState

/-!
# Parallel runs

Two scanners often read the same text and differ in one respect only: in places, in an option, in what
they remember of earlier characters. That such a difference stays what it is follows step by step, and
the steps are the same whatever the difference. Here it is said once which operations have to respect
a relation between scanners; the steps, and whole runs, then respect it too.
-/

namespace PhpOutline.Scanner

/-- A relation between scanners that are in the same region, with the same characters half read. It is
kept by each operation that a step is made of, except for those that look at the place. -/
structure IsParallel (R : Scanner → Scanner → Prop) : Prop where
  region_eq {s t : Scanner} (hst : R s t) : t.region = s.region
  tag_eq {s t : Scanner} (hst : R s t) : t.tag = s.tag
  lead_eq {s t : Scanner} (hst : R s t) : t.lead = s.lead
  withTag {s t : Scanner} (hst : R s t) (tag : List Char) : R { s with tag } { t with tag }
  withLead {s t : Scanner} (hst : R s t) (lead : Option Char) : R { s with lead } { t with lead }
  withoutPending {s t : Scanner} (hst : R s t) :
    R { s with pending := none } { t with pending := none }
  enter {s t : Scanner} (hst : R s t) (region : Region) : R (s.enter region) (t.enter region)
  leave {s t : Scanner} (hst : R s t) : R s.leave t.leave
  replace {s t : Scanner} (hst : R s t) (region : Region) :
    R { s with regions := s.regions.replace region } { t with regions := t.regions.replace region }
  note {s t : Scanner} (hst : R s t) (c : Char) : R (s.note c) (t.note c)
  openBrace {s t : Scanner} (hst : R s t) : R s.openBrace t.openBrace
  closeBrace {s t : Scanner} (hst : R s t) : R s.closeBrace t.closeBrace
  extend {s t : Scanner} (hst : R s t) (c : Char) : R (s.extend c) (t.extend c)
  complete {s t : Scanner} (hst : R s t) : R s.complete t.complete
  confirm {s t : Scanner} (hst : R s t) (terminator : Terminator) :
    R (s.confirm terminator) (t.confirm terminator)
  cancel {s t : Scanner} (hst : R s t) : R s.cancel t.cancel
  enterCode {s t : Scanner} (hst : R s t) : R s.enterCode t.enterCode
  leaveCode {s t : Scanner} (hst : R s t) : R s.leaveCode t.leaveCode

/-- Entering a comment at its first character keeps the relation. -/
def CommentsParallel (R : Scanner → Scanner → Prop) (s t : Scanner) : Prop :=
  s.lead ≠ none → ∀ region,
    R ({ s with lead := none }.enterAtLead region) ({ t with lead := none }.enterAtLead region)

namespace IsParallel

variable {R : Scanner → Scanner → Prop} {s t : Scanner} {c : Char}

theorem enterHash (hR : IsParallel R) (hst : R s t) : R s.enterHash t.enterHash :=
  hR.withLead (hR.enter hst .lineComment) (some '#')

theorem stepPage (hR : IsParallel R) (hst : R s t) : R (s.stepPage c) (t.stepPage c) := by
  simp only [Scanner.stepPage, hR.tag_eq hst]
  split_ifs
  · exact hR.withTag hst _
  · exact hst
  · exact hR.enterCode hst
  · exact hR.withTag hst _
  · exact hR.withTag hst _

theorem stepPair? (hR : IsParallel R) (hst : R s t) (hcomments : CommentsParallel R s t) :
    (s.stepPair? c = none ∧ t.stepPair? c = none) ∨
      ∃ s' t', s.stepPair? c = some s' ∧ t.stepPair? c = some t' ∧ R s' t' := by
  unfold Scanner.stepPair?
  rw [hR.lead_eq hst]
  split
  · exact Or.inr ⟨_, _, rfl, rfl, hR.leaveCode hst⟩
  · rename_i hlead
    exact Or.inr ⟨_, _, rfl, rfl, hcomments (by simp [hlead]) _⟩
  · rename_i hlead
    exact Or.inr ⟨_, _, rfl, rfl, hcomments (by simp [hlead]) _⟩
  · exact Or.inl ⟨rfl, rfl⟩

theorem stepMark (hR : IsParallel R) (hst : R s t) : R (s.stepMark c) (t.stepMark c) := by
  unfold Scanner.stepMark
  split
  · exact hR.enter hst .doubleQuoted
  · exact hR.enter hst .singleQuoted
  · exact hR.enterHash hst
  · exact hR.withLead hst _
  · exact hR.withLead hst _
  · exact hR.enter (hR.confirm hst .paren) _
  · exact hR.openBrace (hR.confirm hst .brace)
  · exact hR.closeBrace hst
  · exact hR.cancel hst
  · exact hst

theorem stepPlain (hR : IsParallel R) (hst : R s t) : R (s.stepPlain c) (t.stepPlain c) := by
  unfold Scanner.stepPlain
  split_ifs
  · exact hR.note (hR.extend hst c) c
  · exact hR.complete hst
  · exact hR.note (hR.stepMark (hR.complete hst)) c

theorem stepCode (hR : IsParallel R) (hst : R s t) (hcomments : CommentsParallel R s t) :
    R (s.stepCode c) (t.stepCode c) := by
  unfold Scanner.stepCode
  obtain ⟨hs, ht⟩ | ⟨s', t', hs, ht, hpair⟩ := hR.stepPair? hst hcomments (c := c)
  · rw [hs, ht]
    exact hR.stepPlain (hR.withLead hst none)
  · rw [hs, ht]
    exact hpair

theorem stepParensMark (hR : IsParallel R) (hst : R s t) (nested : Nat) :
    R (s.stepParensMark nested c) (t.stepParensMark nested c) := by
  unfold Scanner.stepParensMark
  split
  · exact hR.replace hst _
  · split_ifs
    · exact hR.leave hst
    · exact hR.replace hst _
  · exact hR.enter hst .doubleQuoted
  · exact hR.enter hst .singleQuoted
  · exact hR.enterHash hst
  · exact hR.withLead hst _
  · exact hR.withLead hst _
  · exact hR.openBrace hst
  · exact hR.closeBrace hst
  · exact hst

theorem stepParens (hR : IsParallel R) (hst : R s t) (hcomments : CommentsParallel R s t)
    (nested : Nat) : R (s.stepParens nested c) (t.stepParens nested c) := by
  unfold Scanner.stepParens
  obtain ⟨hs, ht⟩ | ⟨s', t', hs, ht, hpair⟩ := hR.stepPair? hst hcomments (c := c)
  · have hmark := hR.stepParensMark (hR.withLead hst none) nested (c := c)
    rw [hs, ht]
    dsimp only
    split_ifs
    · exact hmark
    · exact hR.note hmark c
  · rw [hs, ht]
    exact hpair

theorem stepQuoted (hR : IsParallel R) (hst : R s t) (quote : Char) :
    R (s.stepQuoted quote c) (t.stepQuoted quote c) := by
  unfold Scanner.stepQuoted
  split_ifs
  · exact hR.note (hR.leave hst) c
  · exact hst

theorem stepLineComment (hR : IsParallel R) (hst : R s t) :
    R (s.stepLineComment c) (t.stepLineComment c) := by
  unfold Scanner.stepLineComment
  rw [hR.lead_eq hst]
  split
  · exact hR.leave (hR.withLead hst none)
  · exact hR.leaveCode hst
  · exact hR.withLead hst _
  · exact hR.withLead hst _

theorem stepBlockComment (hR : IsParallel R) (hst : R s t) :
    R (s.stepBlockComment c) (t.stepBlockComment c) := by
  unfold Scanner.stepBlockComment
  rw [hR.lead_eq hst]
  split
  · exact hR.leave (hR.withLead hst none)
  · exact hR.withLead hst _
  · exact hR.withLead hst _

theorem stepRegion (hR : IsParallel R) (hst : R s t) (hcomments : CommentsParallel R s t) :
    R (s.stepRegion c) (t.stepRegion c) := by
  unfold Scanner.stepRegion
  rw [hR.region_eq hst]
  cases s.region with
  | page => exact hR.stepPage hst
  | code => exact hR.stepCode hst hcomments
  | parens nested => exact hR.stepParens hst hcomments nested
  | doubleQuoted => exact hR.stepQuoted hst '"'
  | singleQuoted => exact hR.stepQuoted hst '\''
  | lineComment => exact hR.stepLineComment hst
  | blockComment => exact hR.stepBlockComment hst

theorem breakRegion (hR : IsParallel R) (hst : R s t) : R s.breakRegion t.breakRegion := by
  unfold Scanner.breakRegion
  rw [hR.region_eq hst]
  cases s.region with
  | page => exact hR.withTag hst []
  | code => exact hR.complete hst
  | lineComment => exact hR.leave hst
  | _ => exact hR.withoutPending hst

/-- **One step of two scanners.** They stay related, provided that their places do. -/
theorem step (hR : IsParallel R) (hst : R s t) (hcomments : CommentsParallel R s t)
    (hplace : ∀ s' t', R s' t' → R { s' with position := (s.step c).position }
      { t' with position := (t.step c).position }) : R (s.step c) (t.step c) := by
  simp only [position_step] at hplace
  unfold Scanner.step
  split_ifs at hplace ⊢
  · exact hst
  · exact hplace _ _ (hR.withLead (hR.breakRegion hst) none)
  · exact hplace _ _ (hR.stepRegion hst hcomments)

theorem close (hR : IsParallel R) (hst : R s t) : R s.close t.close := by
  unfold Scanner.close
  rw [hR.region_eq hst]
  split_ifs
  · exact hR.complete hst
  · exact hst

end IsParallel

/-! ## Scanners at the same place -/

/-- A relation between scanners that are at the same place besides. -/
structure IsParallelInPlace (R : Scanner → Scanner → Prop) : Prop extends IsParallel R where
  position_eq {s t : Scanner} (hst : R s t) : t.position = s.position
  withPosition {s t : Scanner} (hst : R s t) (position : Position) :
    R { s with position } { t with position }
  enterAtLead {s t : Scanner} (hst : R s t) (region : Region) :
    R (s.enterAtLead region) (t.enterAtLead region)

namespace IsParallelInPlace

variable {R : Scanner → Scanner → Prop} {s t : Scanner}

theorem step (hR : IsParallelInPlace R) (hst : R s t) (c : Char) : R (s.step c) (t.step c) := by
  apply hR.toIsParallel.step hst
  · exact fun _ region => hR.enterAtLead (hR.withLead hst none) region
  · intro s' t' hst'
    rw [t.position_step, hR.position_eq hst, ← s.position_step]
    exact hR.withPosition hst' _

/-- **Two runs over a text.** -/
theorem run (hR : IsParallelInPlace R) (hst : R s t) (text : List Char) :
    R (s.run text) (t.run text) := by
  induction text generalizing s t with
  | nil => exact hst
  | cons c rest ih => exact ih (hR.step hst c)

end IsParallelInPlace

end PhpOutline.Scanner
