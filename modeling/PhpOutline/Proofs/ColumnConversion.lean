import Mathlib.Order.Bounds.Basic
import PhpOutline.Proofs.ClientEdits
import PhpOutline.Proofs.LineEnds

/-!
# Columns in characters and in units

A column on a line of a document is a number of characters or a number of UTF-16 units, and there is a
conversion either way. From characters to units nothing is lost. From units to characters a column
within a surrogate pair has no counterpart: it becomes the start of the pair.
-/

namespace PhpOutline

namespace Utf16

/-! ## The units of a text -/

/-- The units of a character: its number, or a surrogate pair if that is too large for one unit. -/
def units (c : Char) : List Nat :=
  if c.toNat < 0x10000 then [c.toNat]
  else [0xD800 + (c.toNat - 0x10000) / 0x400, 0xDC00 + (c.toNat - 0x10000) % 0x400]

def encode (chars : List Char) : List Nat := chars.flatMap units

/-- Whether the unit is the second one of a surrogate pair. -/
def isTrailing (unit : Nat) : Bool := 0xDC00 ≤ unit && unit < 0xE000

/-- Whether a column in units lies within a surrogate pair. -/
def dividesPair (chars : List Char) (column : Nat) : Bool := (encode chars)[column]?.any isTrailing

/-- A column in units at which a character of the text starts or the text ends. -/
def IsBoundary (chars : List Char) (column : Nat) : Prop :=
  ∃ before, before <+: chars ∧ (encode before).length = column

theorem length_units (c : Char) : (units c).length = width c := by
  unfold units width
  split_ifs <;> rfl

theorem length_encode (chars : List Char) : (encode chars).length = length chars := by
  induction chars with
  | nil => rfl
  | cons c rest ih => rw [encode, List.flatMap_cons, List.length_append, length_units, length, ← ih, encode]

/-- No character has the number of a surrogate. -/
theorem isTrailing_toNat (c : Char) : isTrailing c.toNat = false := by
  have hvalid : c.toNat < 0xD800 ∨ 0xDFFF < c.toNat ∧ c.toNat < 0x110000 := c.valid
  rw [isTrailing, Bool.and_eq_false_iff, decide_eq_false_iff_not, decide_eq_false_iff_not]
  omega

theorem units_cases (c : Char) :
    (∃ unit, units c = [unit] ∧ width c = 1 ∧ isTrailing unit = false) ∨
      ∃ leading trailing, units c = [leading, trailing] ∧ width c = 2 ∧
        isTrailing leading = false ∧ isTrailing trailing = true := by
  by_cases hone : c.toNat < 0x10000
  · exact Or.inl ⟨c.toNat, if_pos hone, if_pos hone, isTrailing_toNat c⟩
  · have hvalid : c.toNat < 0xD800 ∨ 0xDFFF < c.toNat ∧ c.toNat < 0x110000 := c.valid
    refine Or.inr ⟨_, _, if_neg hone, if_neg hone, ?_, ?_⟩
    · rw [isTrailing, Bool.and_eq_false_iff, decide_eq_false_iff_not]
      omega
    · rw [isTrailing, Bool.and_eq_true, decide_eq_true_eq, decide_eq_true_eq]
      omega

theorem length_le_of_prefix {before chars : List Char} (hbefore : before <+: chars) :
    length before ≤ length chars := by
  obtain ⟨rest, rfl⟩ := hbefore
  rw [length_append]
  exact Nat.le_add_right _ _

theorem length_take_mono (chars : List Char) : Monotone fun column => length (chars.take column) :=
  fun _ _ hcolumn => length_le_of_prefix (List.take_prefix_take_left hcolumn)

/-! ## Rounding down -/

theorem dividesPair_cons_of_le {c : Char} {column : Nat} (hcolumn : width c ≤ column)
    (rest : List Char) : dividesPair (c :: rest) column = dividesPair rest (column - width c) := by
  rw [← length_units] at hcolumn ⊢
  rw [dividesPair, encode, List.flatMap_cons, List.getElem?_append_right hcolumn]
  rfl

/-- Among the columns within a character only one is past its start, and that divides a pair. -/
theorem dividesPair_cons_of_lt {c : Char} {column : Nat} (hcolumn : column < width c)
    (rest : List Char) : column = if dividesPair (c :: rest) column then 1 else 0 := by
  have hat : (encode (c :: rest))[column]? = (units c)[column]? :=
    List.getElem?_append_left (by rwa [length_units])
  rw [dividesPair, hat]
  obtain ⟨unit, hunits, hwidth, hunit⟩ | ⟨leading, trailing, hunits, hwidth, hleading, htrailing⟩ :=
    units_cases c
  · obtain rfl : column = 0 := by omega
    simp [hunits, hunit]
  · obtain rfl | rfl : column = 0 ∨ column = 1 := by omega
    · simp [hunits, hleading]
    · simp [hunits, htrailing]

/-- The characters within the first `column` units take up all of these, or all but the first unit of a
pair that is divided. -/
theorem min_length_eq (column : Nat) (chars : List Char) :
    min column (length chars) = length (chars.take (charsWithin column chars)) +
      if dividesPair chars column then 1 else 0 := by
  induction chars generalizing column with
  | nil => simp [length, charsWithin, dividesPair, encode]
  | cons c rest ih =>
      rw [charsWithin, length]
      by_cases hfits : width c ≤ column
      · have hrest := ih (column - width c)
        rw [if_pos hfits, List.take_succ_cons, length, dividesPair_cons_of_le hfits]
        omega
      · have hwithin := dividesPair_cons_of_lt (Nat.not_le.mp hfits) rest
        rw [if_neg hfits, List.take_zero, ← hwithin, length]
        omega

theorem charsWithin_length_take (column : Nat) (chars : List Char) :
    charsWithin (length (chars.take column)) chars = min column chars.length := by
  calc charsWithin (length (chars.take column)) chars
      = charsWithin (length (chars.take column)) (chars.take column ++ chars.drop column) := by
        rw [List.take_append_drop]
    _ = (chars.take column).length := charsWithin_length_append _ _
    _ = min column chars.length := List.length_take

/-- The characters within the first `column` units end at the last boundary that is not past them. -/
theorem isGreatest_length_take (column : Nat) (chars : List Char) :
    IsGreatest {bound | IsBoundary chars bound ∧ bound ≤ min column (length chars)}
      (length (chars.take (charsWithin column chars))) := by
  constructor
  · refine ⟨⟨_, List.take_prefix _ _, length_encode _⟩, ?_⟩
    rw [min_length_eq]
    exact Nat.le_add_right _ _
  · rintro bound ⟨⟨before, ⟨rest, rfl⟩, hbound⟩, hle⟩
    rw [length_encode] at hbound
    subst hbound
    have hwithin : before.length ≤ charsWithin column (before ++ rest) := by
      calc before.length = charsWithin (length before) (before ++ rest) :=
            (charsWithin_length_append before rest).symm
        _ ≤ charsWithin column (before ++ rest) := charsWithin_mono (hle.trans (min_le_left _ _)) _
    calc length before = length ((before ++ rest).take before.length) := by rw [List.take_left]
      _ ≤ length ((before ++ rest).take (charsWithin column (before ++ rest))) :=
          length_take_mono _ hwithin

end Utf16

/-! ## The columns of a document -/

namespace Document

variable {document : Document} {line : Nat} {chars : List Char}

theorem utf16Column_eq_length_take (hline : document.lines[line]? = some chars) (column : Nat) :
    document.utf16Column line column = Utf16.length (chars.take column) := by
  rw [utf16Column, hline]

theorem offset_eq_add (hline : document.lines[line]? = some chars) (column : Nat) :
    document.offset line column = document.lineStart line + Utf16.charsWithin column chars := by
  rw [offset, hline]

theorem take_drop_lineStart (hline : document.lines[line]? = some chars) :
    (document.chars.drop (document.lineStart line)).take chars.length = chars := by
  rw [chars_eq_of_getElem? hline, lineStart, List.append_assoc, List.drop_left, List.take_left]

end Document

/-- **Columns there and back.** On a line of a document:
* a column in characters means the units of the characters before it, at most those of the line with its
  break, so later columns mean no fewer units;
* the place of that column in units is as many characters after the start of the line;
* the place of any column in units lies within the line, or at its end, and the units before it are the
  last boundary that is not past the column; one unit is missing if the column divides a surrogate pair,
  and none otherwise;
* no column in units needs more than 32 bits if the length of the line does not. -/
theorem Document.columns_there_and_back (document : Document) (line : Nat) (chars : List Char)
    (hline : document.lines[line]? = some chars) :
    (document.chars.drop (document.lineStart line)).take chars.length = chars ∧
    (∀ column, document.utf16Column line column =
      (Utf16.encode (chars.take (min column chars.length))).length) ∧
    Monotone (document.utf16Column line) ∧
    (∀ column, document.offset line (document.utf16Column line column) =
      document.lineStart line + min column chars.length) ∧
    (∀ column, ∃ i ≤ chars.length, document.offset line column = document.lineStart line + i ∧
      IsGreatest {bound | Utf16.IsBoundary chars bound ∧
        bound ≤ min column (Utf16.encode chars).length} (document.utf16Column line i) ∧
      min column (Utf16.encode chars).length =
        document.utf16Column line i + if Utf16.dividesPair chars column then 1 else 0) ∧
    ((Utf16.encode chars).length ≤ counterMax →
      ∀ column, document.utf16Column line column ≤ counterMax) := by
  have hcolumn := utf16Column_eq_length_take hline
  refine ⟨take_drop_lineStart hline, ?_, ?_, ?_, ?_, ?_⟩
  · intro column
    rw [hcolumn, Utf16.length_encode, List.take_eq_take_min]
  · intro column later hlater
    rw [hcolumn, hcolumn]
    exact Utf16.length_take_mono chars hlater
  · intro column
    rw [hcolumn, offset_eq_add hline, Utf16.charsWithin_length_take]
  · intro column
    refine ⟨Utf16.charsWithin column chars, Utf16.charsWithin_le_length _ _, offset_eq_add hline _, ?_, ?_⟩
    · rw [hcolumn, Utf16.length_encode]
      exact Utf16.isGreatest_length_take column chars
    · rw [hcolumn, Utf16.length_encode]
      exact Utf16.min_length_eq column chars
  · intro hfits column
    rw [Utf16.length_encode] at hfits
    rw [hcolumn]
    exact (Utf16.length_le_of_prefix (List.take_prefix column chars)).trans hfits

/-- A column within the pair of the second character means the start of that character. -/
theorem Document.columns_there_and_back_pair :
    (Document.ofString "x\na😀\x0d\nb").lines[1]? = some ['a', '😀', '\r', '\n'] ∧
      Utf16.dividesPair ['a', '😀', '\r', '\n'] 2 ∧
      ∃ i, (Document.ofString "x\na😀\x0d\nb").offset 1 2 = 2 + i ∧
        2 = (Document.ofString "x\na😀\x0d\nb").utf16Column 1 i + 1 := by
  have hline : (Document.ofString "x\na😀\x0d\nb").lines[1]? = some ['a', '😀', '\r', '\n'] := by
    decide +kernel
  have hpair : Utf16.dividesPair ['a', '😀', '\r', '\n'] 2 := by decide +kernel
  obtain ⟨-, -, -, -, hback, -⟩ := columns_there_and_back _ _ _ hline
  obtain ⟨i, -, hoffset, -, hunits⟩ := hback 2
  refine ⟨hline, hpair, i, hoffset, ?_⟩
  rwa [if_pos hpair] at hunits

end PhpOutline
