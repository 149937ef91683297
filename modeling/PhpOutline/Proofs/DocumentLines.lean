import Mathlib.Data.List.Forall2
import PhpOutline.Document
import PhpOutline.Proofs.ReportPlaces

/-!
# Two ways to count lines and columns

The scanner ends a line at a line feed, does not see carriage returns, and counts columns in
characters. A document knows more line breaks, and its columns are UTF-16 units. Where every break is
a line feed, with or without a carriage return before it, the lines are the same up to the break, and
a column within a line means the units of the characters before it.
-/

namespace PhpOutline

/-- Every line break is a line feed, or a carriage return right before one. -/
def PlainBreaks (text : List Char) : Prop :=
  ∀ before c after, text = before ++ c :: after → isLineBreak c →
    c = '\n' ∨ (c = '\r' ∧ after.head? = some '\n')

section Breaks

variable {c : Char} {text : List Char}

theorem plainBreaks_cons : PlainBreaks (c :: text) ↔
    (isLineBreak c → c = '\n' ∨ (c = '\r' ∧ text.head? = some '\n')) ∧ PlainBreaks text := by
  constructor
  · intro hbreaks
    refine ⟨hbreaks [] c text rfl, ?_⟩
    intro before d after htext
    exact hbreaks (c :: before) d after (by rw [htext, List.cons_append])
  · rintro ⟨hhead, htail⟩ before d after htext
    cases before with
    | nil =>
        obtain ⟨rfl, rfl⟩ := List.cons.inj htext
        exact hhead
    | cons first rest => exact htail rest d after (List.cons.inj htext).2

instance decidablePlainBreaks : (text : List Char) → Decidable (PlainBreaks text)
  | [] => isTrue fun before c after htext => by simp at htext
  | c :: text =>
    have := decidablePlainBreaks text
    decidable_of_iff _ plainBreaks_cons.symm

theorem sourceLines_newline : sourceLines ('\n' :: text) = [] :: sourceLines text := by
  change ('\n' :: visible text).splitOn '\n' = _
  rw [splitOn_cons, if_pos rfl]
  rfl

theorem sourceLines_return : sourceLines ('\r' :: text) = sourceLines text := rfl

theorem sourceLines_cons (hreturn : c ≠ '\r') (hline : c ≠ '\n') :
    sourceLines (c :: text) = (sourceLines text).modifyHead (c :: ·) := by
  have hvisible : visible (c :: text) = c :: visible text := by simp [visible, hreturn]
  rw [sourceLines, hvisible, splitOn_cons, if_neg hline]
  rfl

theorem forall₂_prefix_consLine {first second : List (List Char)}
    (hlines : List.Forall₂ (· <+: ·) first second) (hfirst : first ≠ []) (c : Char) :
    List.Forall₂ (· <+: ·) (first.modifyHead (c :: ·)) (consLine c second) := by
  cases hlines with
  | nil => exact absurd rfl hfirst
  | cons hline hrest => exact List.Forall₂.cons ((List.prefix_cons_inj c).mpr hline) hrest

theorem sourceLines_ne_nil : sourceLines text ≠ [] := by
  intro hnil
  have hlength := length_sourceLines text
  rw [hnil] at hlength
  exact absurd hlength (by simp [placeAfter])

/-- The lines of the scanner are those of the document without their breaks. -/
theorem sourceLines_prefix_splitLines (hbreaks : PlainBreaks text) :
    List.Forall₂ (· <+: ·) (sourceLines text) (splitLines text) := by
  fun_induction splitLines text with
  | case1 => exact List.Forall₂.cons List.prefix_rfl List.Forall₂.nil
  | case2 rest ih =>
      rw [plainBreaks_cons, plainBreaks_cons] at hbreaks
      rw [sourceLines_return, sourceLines_newline]
      exact List.Forall₂.cons List.nil_prefix (ih hbreaks.2.2)
  | case3 c rest hpair hbreak ih =>
      obtain ⟨hhead, htail⟩ := plainBreaks_cons.mp hbreaks
      obtain rfl | ⟨rfl, hnext⟩ := hhead hbreak
      · rw [sourceLines_newline]
        exact List.Forall₂.cons List.nil_prefix (ih htail)
      · obtain ⟨after, rfl⟩ := List.head?_eq_some_iff.mp hnext
        exact absurd rfl (hpair after rfl)
  | case4 c rest hpair hbreak ih =>
      have hreturn : c ≠ '\r' := by
        rintro rfl
        exact hbreak rfl
      have hline : c ≠ '\n' := by
        rintro rfl
        exact hbreak rfl
      rw [sourceLines_cons hreturn hline]
      exact forall₂_prefix_consLine (ih (plainBreaks_cons.mp hbreaks).2) sourceLines_ne_nil c

theorem exists_documentLine {line : Nat} {chars : List Char} (hbreaks : PlainBreaks text)
    (hline : (sourceLines text)[line]? = some chars) :
    ∃ rest, (splitLines text)[line]? = some (chars ++ rest) := by
  have hlines := sourceLines_prefix_splitLines hbreaks
  obtain ⟨hinside, hchars⟩ := List.getElem?_eq_some_iff.mp hline
  have hwhole : line < (splitLines text).length := hlines.length_eq ▸ hinside
  obtain ⟨rest, hrest⟩ := hlines.get hinside hwhole
  refine ⟨rest, ?_⟩
  rw [List.getElem?_eq_getElem hwhole, ← hchars]
  exact congrArg some hrest.symm

end Breaks

/-! ## Columns -/

theorem Utf16.one_le_width (c : Char) : 1 ≤ width c := by
  unfold width
  split_ifs <;> omega

theorem Utf16.length_le_length (chars : List Char) : chars.length ≤ length chars := by
  induction chars with
  | nil => exact Nat.le_refl 0
  | cons c rest ih =>
      have hwidth := one_le_width c
      rw [List.length_cons, length]
      omega

/-- A text has as many units as characters just if no character takes up two. -/
theorem Utf16.length_eq_length_iff (chars : List Char) :
    length chars = chars.length ↔ ∀ c ∈ chars, width c = 1 := by
  induction chars with
  | nil => simp [length]
  | cons c rest ih =>
      have hwidth := one_le_width c
      have hrest := length_le_length rest
      rw [List.forall_mem_cons, ← ih, length, List.length_cons]
      omega

/-- Within a line of the scanner, the column of a document is the number of units before it. -/
theorem Document.utf16Column_eq {document : Document} {line column : Nat} {chars : List Char}
    (hbreaks : PlainBreaks document.chars) (hline : (sourceLines document.chars)[line]? = some chars)
    (hcolumn : column ≤ chars.length) :
    document.utf16Column line column = Utf16.length (chars.take column) := by
  obtain ⟨rest, hrest⟩ := exists_documentLine hbreaks hline
  rw [utf16Column, lines, hrest]
  dsimp only
  rw [List.take_append_of_le_length hcolumn]

end PhpOutline
