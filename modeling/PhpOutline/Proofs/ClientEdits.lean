import PhpOutline.Proofs.DocumentNotices
import PhpOutline.Proofs.SymbolEdits

/-!
# Edits of a client

A client that changes its text tells the server the stretch that it replaces: for each end the number of
line breaks before it, and the UTF-16 units between it and the start of its line. The server counts
lines and units of its own to find the stretch again. The two agree at every place of the text, also
between a carriage return and its line feed, where the break is not complete yet. So as long as the texts
are the same before a change, they are the same after it.
-/

namespace PhpOutline

/-! ## Places and lines -/

def endsLineAt (text : List Char) (place : Nat) : Bool :=
  text[place]?.any (endsLine · text[place + 1]?)

/-- The number of line breaks that are complete before a place. -/
def breaksBefore (text : List Char) (place : Nat) : Nat :=
  (List.range place).countP (endsLineAt text)

/-- The place after the last line break that is complete before a place. -/
def lineStartBefore (text : List Char) : (place : Nat) → Nat
  | 0 => 0
  | place + 1 => if endsLineAt text place then place + 1 else lineStartBefore text place

def lineBefore (text : List Char) (place : Nat) : List Char :=
  (text.take place).drop (lineStartBefore text place)

section Lines

variable {text part : List Char} {place : Nat} {ended : List (List Char)}

/-- The lines that end before a place, and the line of the place up to there, with what they add up to. -/
structure LinesBefore (text : List Char) (place : Nat) (ended : List (List Char)) (part : List Char) :
    Prop where
  breaks : ended.length = breaksBefore text place
  start : ended.flatten.length = lineStartBefore text place
  flatten : ended.flatten ++ part = text.take place
  lines : splitLines text = ended ++ (splitLines (text.drop place)).modifyHead (part ++ ·)

theorem linesBefore_zero (text : List Char) : LinesBefore text 0 [] [] where
  breaks := rfl
  start := rfl
  flatten := rfl
  lines := (congrFun List.modifyHead_id _).symm

theorem breaksBefore_succ (text : List Char) (place : Nat) :
    breaksBefore text (place + 1) =
      breaksBefore text place + if endsLineAt text place then 1 else 0 := by
  rw [breaksBefore, List.range_succ, List.countP_append, List.countP_singleton]
  rfl

/-- **One place further.** The character in between ends the line, or it belongs to it. -/
theorem LinesBefore.next (hbefore : LinesBefore text place ended part) (hplace : place < text.length) :
    ∃ ended' part', LinesBefore text (place + 1) ended' part' := by
  have hdrop : text.drop place = text[place] :: text.drop (place + 1) := List.drop_eq_getElem_cons hplace
  have htake : text.take (place + 1) = ended.flatten ++ (part ++ [text[place]]) := by
    rw [← List.take_concat_get hplace, ← hbefore.flatten, List.concat_eq_append, List.append_assoc]
  have hends : endsLine text[place] (text.drop (place + 1)).head? = endsLineAt text place := by
    rw [endsLineAt, List.getElem?_eq_getElem hplace, List.head?_drop]
    rfl
  have hlines := hbefore.lines
  rw [hdrop, splitLines_cons_eq, hends] at hlines
  by_cases hend : endsLineAt text place
  -- The line of the place is complete and joins those that end before it.
  · have hflatten : (ended ++ [part ++ [text[place]]]).flatten = text.take (place + 1) := by
      rw [List.flatten_append, List.flatten_singleton, htake]
    refine ⟨ended ++ [part ++ [text[place]]], [], ?_, ?_, ?_, ?_⟩
    · rw [breaksBefore_succ, if_pos hend, List.length_append, hbefore.breaks]
      rfl
    · rw [lineStartBefore, if_pos hend, hflatten, List.length_take_of_le hplace]
    · rw [List.append_nil, hflatten]
    · rw [hlines, if_pos hend, List.modifyHead_cons, List.append_assoc]
      exact congrArg (ended ++ (part ++ [text[place]]) :: ·) (congrFun List.modifyHead_id _).symm
  · refine ⟨ended, part ++ [text[place]], ?_, ?_, htake.symm, ?_⟩
    · rw [breaksBefore_succ, if_neg hend, hbefore.breaks]
      rfl
    · rw [lineStartBefore, if_neg hend, hbefore.start]
    · rw [hlines, if_neg hend, List.modifyHead_modifyHead]
      simp only [Function.comp_def, List.append_assoc, List.singleton_append]

/-- **Any place.** The lines of a text are those that end before the place, and then the line of the
place, which goes on with the first line of the rest. -/
theorem exists_linesBefore (hplace : place ≤ text.length) :
    ∃ ended, LinesBefore text place ended (lineBefore text place) := by
  have hexists : ∃ ended part, LinesBefore text place ended part := by
    induction place with
    | zero => exact ⟨[], [], linesBefore_zero text⟩
    | succ place ih =>
        obtain ⟨ended, part, hbefore⟩ := ih (Nat.le_of_succ_le hplace)
        exact hbefore.next hplace
  obtain ⟨ended, part, hbefore⟩ := hexists
  have hpart : lineBefore text place = part := by
    rw [lineBefore, ← hbefore.flatten, ← hbefore.start, List.drop_left]
  exact ⟨ended, hpart ▸ hbefore⟩

end Lines

/-! ## Units -/

namespace Utf16

theorem charsWithin_le_length (units : Nat) (chars : List Char) :
    charsWithin units chars ≤ chars.length := by
  induction chars generalizing units with
  | nil => exact Nat.le_refl 0
  | cons c rest ih =>
      rw [charsWithin]
      split_ifs
      · exact Nat.succ_le_succ (ih _)
      · exact Nat.zero_le _

theorem charsWithin_mono {fewer more : Nat} (hmore : fewer ≤ more) (chars : List Char) :
    charsWithin fewer chars ≤ charsWithin more chars := by
  induction chars generalizing fewer more with
  | nil => exact Nat.le_refl 0
  | cons c rest ih =>
      rw [charsWithin, charsWithin]
      by_cases hfits : width c ≤ fewer
      · rw [if_pos hfits, if_pos (hfits.trans hmore)]
        exact Nat.succ_le_succ (ih (Nat.sub_le_sub_right hmore _))
      · rw [if_neg hfits]
        exact Nat.zero_le _

end Utf16

namespace Document

/-- The stretch between two places, as a client sends it. -/
def spanBetween (document : Document) (first last : Nat) : Span where
  startLine := breaksBefore document.chars first
  startColumn := Utf16.length (lineBefore document.chars first)
  endLine := breaksBefore document.chars last
  endColumn := Utf16.length (lineBefore document.chars last)

section Offsets

variable {document : Document} {place : Nat}

theorem exists_line_of_place (hplace : place ≤ document.chars.length) :
    document.lineStart (breaksBefore document.chars place) +
        (lineBefore document.chars place).length = place ∧
      ∃ rest, document.lines[breaksBefore document.chars place]? =
        some (lineBefore document.chars place ++ rest) := by
  obtain ⟨ended, hbefore⟩ := exists_linesBefore hplace
  obtain ⟨line, others, hrest⟩ :=
    List.exists_cons_of_ne_nil (splitLines_ne_nil (document.chars.drop place))
  have hlines : document.lines = ended ++ (lineBefore document.chars place ++ line) :: others := by
    rw [lines, hbefore.lines, hrest, List.modifyHead_cons]
  rw [lineStart, hlines, ← hbefore.breaks, List.take_left, ← List.length_append, hbefore.flatten]
  refine ⟨List.length_take_of_le hplace, line, ?_⟩
  rw [List.getElem?_append_right (Nat.le_refl _), Nat.sub_self]
  rfl

/-- **There and back.** The server finds the place that the client means. -/
theorem offset_lineBefore (hplace : place ≤ document.chars.length) :
    document.offset (breaksBefore document.chars place)
      (Utf16.length (lineBefore document.chars place)) = place := by
  obtain ⟨hstart, rest, hline⟩ := exists_line_of_place hplace
  rw [offset, hline]
  dsimp only
  rw [Utf16.charsWithin_length_append, hstart]

theorem offset_eq (document : Document) (line column : Nat) :
    document.offset line column = document.lineStart line +
      Utf16.charsWithin column (document.lines[line]?.getD []) := by
  unfold offset
  cases hline : document.lines[line]? with
  | some chars => rfl
  | none =>
      rw [lineStart, List.take_of_length_le (List.getElem?_eq_none_iff.mp hline), lines,
        flatten_splitLines]
      rfl

theorem lineStart_succ (document : Document) (line : Nat) :
    document.lineStart (line + 1) =
      document.lineStart line + (document.lines[line]?.getD []).length := by
  unfold lineStart
  rw [List.take_add_one, List.flatten_append, List.length_append]
  cases document.lines[line]? <;> simp

theorem lineStart_mono {line later : Nat} (hlater : line ≤ later) :
    document.lineStart line ≤ document.lineStart later := by
  induction later, hlater using Nat.le_induction with
  | base => exact Nat.le_refl _
  | succ later _ ih =>
      rw [lineStart_succ]
      omega

theorem lineStart_le_length (document : Document) (line : Nat) :
    document.lineStart line ≤ document.chars.length := by
  calc document.lineStart line
      ≤ (document.lines.take line).flatten.length + (document.lines.drop line).flatten.length :=
        Nat.le_add_right _ _
    _ = document.lines.flatten.length := by
        rw [← List.length_append, ← List.flatten_append, List.take_append_drop]
    _ = document.chars.length := by rw [lines, flatten_splitLines]

theorem offset_le_lineStart_succ (document : Document) (line column : Nat) :
    document.offset line column ≤ document.lineStart (line + 1) := by
  rw [offset_eq, lineStart_succ]
  exact Nat.add_le_add_left (Utf16.charsWithin_le_length _ _) _

theorem offset_le_length (document : Document) (line column : Nat) :
    document.offset line column ≤ document.chars.length :=
  (document.offset_le_lineStart_succ line column).trans (document.lineStart_le_length _)

theorem offset_mono {line column line' column' : Nat}
    (hlater : line < line' ∨ (line = line' ∧ column ≤ column')) :
    document.offset line column ≤ document.offset line' column' := by
  obtain hline | ⟨rfl, hcolumn⟩ := hlater
  -- Whatever the columns, the start of the next line lies in between.
  · calc document.offset line column ≤ document.lineStart (line + 1) :=
          document.offset_le_lineStart_succ line column
      _ ≤ document.lineStart line' := lineStart_mono hline
      _ ≤ document.offset line' column' := by
          rw [offset_eq]
          exact Nat.le_add_right _ _
  · rw [offset_eq, offset_eq]
    exact Nat.add_le_add_left (Utf16.charsWithin_mono hcolumn _) _

theorem lt_of_offset_lt {line column line' column' : Nat}
    (hbefore : document.offset line column < document.offset line' column') :
    line < line' ∨ (line = line' ∧ column < column') := by
  by_contra hlater
  exact absurd (offset_mono (by omega)) (Nat.not_le.mpr hbefore)

theorem edit_spanBetween {first last : Nat} (horder : first ≤ last)
    (hlast : last ≤ document.chars.length) (text : String) :
    document.edit (document.spanBetween first last) text =
      ⟨document.chars.take first ++ text.toList ++ document.chars.drop last⟩ := by
  simp only [edit, spanBetween]
  rw [offset_lineBefore (horder.trans hlast), offset_lineBefore hlast, Nat.max_eq_right horder]

theorem FitsCounters.place_le (hfits : document.FitsCounters) (hplace : place ≤ document.chars.length) :
    breaksBefore document.chars place ≤ counterMax ∧
      Utf16.length (lineBefore document.chars place) ≤ counterMax := by
  obtain ⟨-, rest, hline⟩ := exists_line_of_place hplace
  obtain ⟨hinside, -⟩ := List.getElem?_eq_some_iff.mp hline
  constructor
  · exact hinside.le.trans hfits.lines
  · calc Utf16.length (lineBefore document.chars place)
        ≤ Utf16.length (lineBefore document.chars place ++ rest) := by
          rw [Utf16.length_append]
          exact Nat.le_add_right _ _
      _ ≤ counterMax := hfits.columns _ (List.mem_of_getElem? hline)

end Offsets

end Document

namespace Session

/-! ## Clients -/

/-- A change of the text of a client. -/
inductive ClientChange where
  /-- The whole text is replaced. -/
  | whole (text : String)
  /-- The stretch between two places is replaced. -/
  | stretch (first last : Nat) (text : String)
deriving DecidableEq, Repr

namespace ClientChange

def apply (chars : List Char) : ClientChange → List Char
  | whole text => text.toList
  | stretch first last text => chars.take first ++ text.toList ++ chars.drop last

def IsWithin (chars : List Char) : ClientChange → Prop
  | whole _ => True
  | stretch first last _ => first ≤ last ∧ last ≤ chars.length

instance (chars : List Char) : (change : ClientChange) → Decidable (change.IsWithin chars)
  | whole _ => isTrue trivial
  | stretch _ _ _ => inferInstanceAs (Decidable (_ ∧ _))

/-- The change as the client sends it. -/
def toChange (chars : List Char) : ClientChange → Change
  | whole text => ⟨none, text⟩
  | stretch first last text => ⟨some (Document.spanBetween ⟨chars⟩ first last), text⟩

end ClientChange

def textAfter (chars : List Char) (changes : List ClientChange) : List Char :=
  changes.foldl ClientChange.apply chars

/-- Each change is within the text that the changes before it have left. -/
def AllWithin : (chars : List Char) → List ClientChange → Prop
  | _, [] => True
  | chars, change :: rest => change.IsWithin chars ∧ AllWithin (change.apply chars) rest

instance decidableAllWithin :
    (chars : List Char) → (changes : List ClientChange) → Decidable (AllWithin chars changes)
  | _, [] => isTrue trivial
  | chars, change :: rest =>
    have := decidableAllWithin (change.apply chars) rest
    inferInstanceAs (Decidable (_ ∧ _))

/-- What a client sends about some changes: each with its places in the text at that time. -/
def sentChanges : (chars : List Char) → List ClientChange → List Change
  | _, [] => []
  | chars, change :: rest => change.toChange chars :: sentChanges (change.apply chars) rest

/-- The notifications of a client that tells of its changes now and then. -/
def sentNotices (uri : String) : (chars : List Char) → List (List ClientChange) → List Notification
  | _, [] => []
  | chars, changes :: rest =>
    .changed uri (sentChanges chars changes) :: sentNotices uri (textAfter chars changes) rest

section Clients

variable {chars : List Char}

/-- **One change.** The server makes of its text what the client makes of the same text. -/
theorem apply_toChange {change : ClientChange} (hwithin : change.IsWithin chars) :
    (change.toChange chars).apply ⟨chars⟩ = ⟨change.apply chars⟩ := by
  cases change with
  | whole text => rfl
  | stretch first last text => exact Document.edit_spanBetween hwithin.1 hwithin.2 text

theorem foldl_sentChanges {changes : List ClientChange} (hwithin : AllWithin chars changes) :
    (sentChanges chars changes).foldl Change.apply ⟨chars⟩ = ⟨textAfter chars changes⟩ := by
  induction changes generalizing chars with
  | nil => rfl
  | cons change rest ih =>
      obtain ⟨hchange, hrest⟩ := hwithin
      rw [sentChanges, List.foldl_cons, apply_toChange hchange, ih hrest]
      rfl

theorem textAfter_append (chars : List Char) (first second : List ClientChange) :
    textAfter chars (first ++ second) = textAfter (textAfter chars first) second :=
  List.foldl_append

theorem allWithin_append {first second : List ClientChange} :
    AllWithin chars (first ++ second) ↔
      AllWithin chars first ∧ AllWithin (textAfter chars first) second := by
  induction first generalizing chars with
  | nil => simp [AllWithin, textAfter]
  | cons change rest ih =>
      rw [List.cons_append, AllWithin, AllWithin, ih, and_assoc]
      rfl

/-- **All changes.** However the client divides them into notifications, the texts stay the same. -/
theorem documents_noticeAll_sentNotices {session : Session} (around : Surroundings) {uri : String}
    (hopen : session.documents.get? uri = some ⟨chars⟩) {edits : List (List ClientChange)}
    (hwithin : AllWithin chars edits.flatten) :
    (session.noticeAll around (sentNotices uri chars edits)).documents.get? uri =
      some ⟨textAfter chars edits.flatten⟩ := by
  induction edits generalizing session chars with
  | nil => exact hopen
  | cons changes rest ih =>
      rw [List.flatten_cons, allWithin_append] at hwithin
      have hnext : (session.notice around (.changed uri (sentChanges chars changes))).1.documents.get?
          uri = some ⟨textAfter chars changes⟩ := by
        rw [documents_notice, hopen, ← foldl_sentChanges hwithin.1]
        simp
      rw [List.flatten_cons, textAfter_append]
      exact ih hnext hwithin.2

end Clients

/-- **Client and server stay in step.** A stretch between two places of a text, sent as the line breaks
before each end and the UTF-16 units from the start of its line, is the stretch that an edit replaces;
if the lines of the text can be counted, all these numbers are counter values. Any position stands for
a place in the text, a later one for no earlier place, so that the end of a stretch is moved to its
start only if it comes before it. Therefore the text of an open document stays that of a client that
tells of all its changes. -/
theorem edits_in_step (document : Document) :
    (∀ (first last : Nat) (text : String), first ≤ last → last ≤ document.chars.length →
      document.edit (document.spanBetween first last) text =
        ⟨document.chars.take first ++ text.toList ++ document.chars.drop last⟩) ∧
    (document.FitsCounters → ∀ place ≤ document.chars.length,
      breaksBefore document.chars place ≤ counterMax ∧
        Utf16.length (lineBefore document.chars place) ≤ counterMax) ∧
    (∀ line column, document.offset line column ≤ document.chars.length) ∧
    (∀ line column line' column', line < line' ∨ (line = line' ∧ column ≤ column') →
      document.offset line column ≤ document.offset line' column') ∧
    (∀ span : Span, document.offset span.endLine span.endColumn <
        document.offset span.startLine span.startColumn →
      span.endLine < span.startLine ∨
        (span.endLine = span.startLine ∧ span.endColumn < span.startColumn)) ∧
    ∀ (session : Session) (around : Surroundings) (uri : String) (edits : List (List ClientChange)),
      session.documents.get? uri = some document → AllWithin document.chars edits.flatten →
        (session.noticeAll around (sentNotices uri document.chars edits)).documents.get? uri =
          some ⟨textAfter document.chars edits.flatten⟩ :=
  ⟨fun _ _ text horder hlast => Document.edit_spanBetween horder hlast text,
    fun hfits _ hplace => hfits.place_le hplace, document.offset_le_length,
    fun _ _ _ _ => Document.offset_mono, fun _ => Document.lt_of_offset_lt,
    fun _ around _ _ hopen hwithin => documents_noticeAll_sentNotices around hopen hwithin⟩

/-- A character of two units, and a carriage return with a line feed. -/
def wideText : String := "😀a\x0d\nb"

/-- The carriage return and the line feed are divided, then the character of two units is replaced, and
in the end the break that the line feed makes, with what stands before it on its line. -/
def dividingEdits : List (List ClientChange) :=
  [[.stretch 3 3 "x", .stretch 0 1 "é"], [], [.stretch 3 5 "\u2028"]]

theorem edits_in_step_dividing :
    (Document.ofString wideText).spanBetween 3 3 = ⟨0, 4, 0, 4⟩ ∧
      (Document.ofString wideText).edit ⟨0, 4, 0, 4⟩ "x" = .ofString "😀a\x0dx\nb" ∧
      ((Session.start.openDocument "file:///a.php" wideText).1.noticeAll ⟨.empty, false⟩
        (sentNotices "file:///a.php" wideText.toList dividingEdits)).documents.get? "file:///a.php" =
          some (.ofString "éa\x0d\u2028b") := by
  obtain ⟨hedit, -, -, -, -, hsession⟩ := edits_in_step (.ofString wideText)
  have hspan : (Document.ofString wideText).spanBetween 3 3 = ⟨0, 4, 0, 4⟩ := by decide +kernel
  refine ⟨hspan, ?_, ?_⟩
  · rw [← hspan]
    exact (hedit 3 3 "x" (by decide) (by decide +kernel)).trans (by decide +kernel)
  · refine (hsession _ ⟨.empty, false⟩ "file:///a.php" dividingEdits ?_ (by decide +kernel)).trans
      (by decide +kernel)
    exact UriMap.get?_insert_self _ _ _

end Session

end PhpOutline
