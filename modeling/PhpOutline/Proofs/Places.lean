import Mathlib.Data.Prod.Lex
import PhpOutline.Proofs.LexicalState

/-!
# Places in a text

Carriage returns take up no place, so the place of a character is a matter of the text without them.
The scanner is at the place that follows what it has read, until a counter is asked to go past its
largest value.
-/

namespace PhpOutline

/-! ## Order -/

/-- Earlier lines come first, and on one line earlier columns. -/
instance : PartialOrder Position :=
  PartialOrder.lift (fun p => toLex (p.line, p.column)) fun p q h => by
    obtain ⟨hline, hcolumn⟩ := Prod.mk.inj (toLex.injective h)
    cases p
    cases q
    simp_all

namespace Position

variable {p q : Position}

theorem le_iff : p ≤ q ↔ p.line < q.line ∨ p.line = q.line ∧ p.column ≤ q.column :=
  Prod.Lex.toLex_le_toLex

theorem lt_iff : p < q ↔ p.line < q.line ∨ p.line = q.line ∧ p.column < q.column :=
  Prod.Lex.toLex_lt_toLex

theorem le_nextLine (hline : p.line < counterMax) : p ≤ p.nextLine := by
  rw [le_iff, nextLine, satAdd_eq_add hline]
  exact Or.inl (Nat.lt_succ_self _)

theorem le_nextColumn (hcolumn : p.column < counterMax) : p ≤ p.nextColumn := by
  rw [le_iff, nextColumn, satAdd_eq_add hcolumn]
  exact Or.inr ⟨rfl, Nat.le_succ _⟩

theorem prevColumn_nextColumn (hcolumn : p.column < counterMax) : p.nextColumn.prevColumn = p := by
  rw [nextColumn, satAdd_eq_add hcolumn]
  rfl

end Position

/-! ## The place after a text -/

/-- The characters that take up a place. -/
def visible (text : List Char) : List Char := text.filter (· ≠ '\r')

/-- The place that follows a text: the number of its lines, and the number of visible characters on
the last one. -/
def placeAfter (text : List Char) : Position :=
  ⟨text.count '\n' + 1, ((visible text).reverse.takeWhile (· ≠ '\n')).length⟩

section Places

variable (text : List Char)

@[simp]
theorem visible_append (first second : List Char) :
    visible (first ++ second) = visible first ++ visible second :=
  List.filter_append first second

theorem visible_eq_self {text : List Char} (hreturn : '\r' ∉ text) : visible text = text := by
  refine List.filter_eq_self.mpr fun c hc => decide_eq_true ?_
  rintro rfl
  exact hreturn hc

theorem visible_concat_return : visible (text ++ ['\r']) = visible text := by
  simp [visible]

theorem visible_concat {c : Char} (hreturn : c ≠ '\r') :
    visible (text ++ [c]) = visible text ++ [c] := by
  simp [visible, hreturn]

theorem placeAfter_concat_return : placeAfter (text ++ ['\r']) = placeAfter text := by
  simp [placeAfter, visible, List.count_append]

theorem placeAfter_concat_newline :
    placeAfter (text ++ ['\n']) = ⟨(placeAfter text).line + 1, 0⟩ := by
  simp [placeAfter, visible, List.count_append]

theorem placeAfter_concat {c : Char} (hreturn : c ≠ '\r') (hline : c ≠ '\n') :
    placeAfter (text ++ [c]) = ⟨(placeAfter text).line, (placeAfter text).column + 1⟩ := by
  simp [placeAfter, visible_concat text hreturn, List.count_append, hline]

theorem placeAfter_le_concat (c : Char) : placeAfter text ≤ placeAfter (text ++ [c]) := by
  rw [Position.le_iff]
  by_cases hreturn : c = '\r'
  · rw [hreturn, placeAfter_concat_return]
    exact Or.inr ⟨rfl, Nat.le_refl _⟩
  · by_cases hline : c = '\n'
    · rw [hline, placeAfter_concat_newline]
      exact Or.inl (Nat.lt_succ_self _)
    · rw [placeAfter_concat text hreturn hline]
      exact Or.inr ⟨rfl, Nat.le_succ _⟩

theorem line_placeAfter_le : (placeAfter text).line ≤ text.length + 1 :=
  Nat.succ_le_succ List.count_le_length

theorem length_visible_le : (visible text).length ≤ text.length := List.length_filter_le _ _

theorem column_placeAfter_le : (placeAfter text).column ≤ (visible text).length := by
  calc ((visible text).reverse.takeWhile (· ≠ '\n')).length
      ≤ (visible text).reverse.length := (List.takeWhile_sublist _).length_le
    _ = (visible text).length := List.length_reverse

/-- The place that follows a text, as counters tell it that stay at their largest value. -/
def heldPlace : Position :=
  ⟨min (placeAfter text).line counterMax, min (placeAfter text).column counterMax⟩

/-- No place in the text is past the largest counter value. -/
def WithinCounters : Prop :=
  ∀ before, before <+: text →
    (placeAfter before).line ≤ counterMax ∧ (placeAfter before).column ≤ counterMax

variable {text} in
theorem withinCounters_of_length (hlength : text.length < counterMax) : WithinCounters text := by
  intro before hbefore
  have hlength : before.length < counterMax := Nat.lt_of_le_of_lt hbefore.length_le hlength
  have hline := line_placeAfter_le before
  have hcolumn := Nat.le_trans (column_placeAfter_le before) (length_visible_le before)
  omega

variable {text} in
theorem WithinCounters.of_prefix {before : List Char} (hwithin : WithinCounters text)
    (hbefore : before <+: text) : WithinCounters before :=
  fun first hfirst => hwithin first (hfirst.trans hbefore)

variable {text} in
theorem WithinCounters.heldPlace_eq (hwithin : WithinCounters text) :
    heldPlace text = placeAfter text := by
  obtain ⟨hline, hcolumn⟩ := hwithin text List.prefix_rfl
  rw [heldPlace, Nat.min_eq_left hline, Nat.min_eq_left hcolumn]

theorem heldPlace_concat (c : Char) :
    heldPlace (text ++ [c]) =
      if c = '\r' then heldPlace text
      else if c = '\n' then (heldPlace text).nextLine else (heldPlace text).nextColumn := by
  have hpos : 0 < counterMax := by decide
  unfold heldPlace
  split_ifs with hreturn hnewline
  · rw [hreturn, placeAfter_concat_return]
  · rw [hnewline, placeAfter_concat_newline]
    simp only [Position.nextLine, satAdd, Position.mk.injEq]
    omega
  · rw [placeAfter_concat text hreturn hnewline]
    simp only [Position.nextColumn, satAdd, Position.mk.injEq, true_and]
    omega

/-- The scanner is at the place that follows what it has read. -/
theorem position_run_eq_heldPlace (options : ScanOptions) :
    ((Scanner.start options).run text).position = heldPlace text := by
  induction text using List.reverseRecOn with
  | nil => rfl
  | append_singleton text c ih =>
      rw [Scanner.run_concat, Scanner.position_step, ih, heldPlace_concat]

variable {text} in
theorem WithinCounters.position_run (hwithin : WithinCounters text) (options : ScanOptions) :
    ((Scanner.start options).run text).position = placeAfter text := by
  rw [position_run_eq_heldPlace, hwithin.heldPlace_eq]

theorem position_run {options : ScanOptions} (hlength : text.length < counterMax) :
    ((Scanner.start options).run text).position = placeAfter text :=
  (withinCounters_of_length hlength).position_run options

theorem count_visible : (visible text).count '\n' = text.count '\n' :=
  List.count_filter (by decide)

/-- A word after a text takes up as many columns as it has characters. -/
theorem placeAfter_of_visible_append {before word : List Char} (hline : '\n' ∉ word)
    (hvisible : visible text = visible before ++ word) :
    placeAfter text = ⟨(placeAfter before).line, (placeAfter before).column + word.length⟩ := by
  have hword : ∀ c ∈ word.reverse, decide (c ≠ '\n') = true := by
    intro c hc
    refine decide_eq_true ?_
    rintro rfl
    exact hline (List.mem_reverse.mp hc)
  rw [placeAfter, placeAfter, ← count_visible, ← count_visible before, hvisible, List.reverse_append,
    List.takeWhile_append_of_pos hword, List.count_append, List.count_eq_zero_of_not_mem hline,
    List.length_append, List.length_reverse, Nat.add_comm word.length]

end Places

end PhpOutline
