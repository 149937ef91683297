import Mathlib.Tactic.SplitIfs
import PhpOutline.Report

/-!
# The trace of a scan

A scan finds labels, terminators and semicolons in a text. What it makes of them, that is its queue
of intents, its lookback and its symbols, depends on the text through these events alone: a step of
the scanner takes the events of one character and nothing else. So whatever is to be known about
declarations is a statement about lists of events, and whatever is to be known about lexing is a
statement about which events there are.
-/

namespace PhpOutline

/-- An identifier in the code that was read to its end. -/
structure Occurrence where
  text : String
  start : Position
  braceDepth : Nat
  /-- Whether it can be a keyword, judging by what stands before it. -/
  eligible : Bool
deriving DecidableEq, Repr

def Occurrence.keywordKind? (distinctInterfaces : Bool) (occurrence : Occurrence) : Option Kind :=
  if occurrence.eligible then PhpOutline.keywordKind? distinctInterfaces occurrence.text else none

inductive Event where
  | label (occurrence : Occurrence)
  /-- A terminator in the code, and the number of braces open around it. -/
  | terminator (terminator : Terminator) (braceDepth : Nat)
  /-- A semicolon in the code. -/
  | semicolon
deriving DecidableEq, Repr

/-- The part of the scanner that deals with declarations. -/
structure Recognizer where
  options : ScanOptions
  intents : IntentQueue
  lookback : Lookback
  symbols : List Symbol
deriving DecidableEq, Repr

def Label.toSymbol (label : Label) (kind : Kind) (braceDepth : Nat) : Symbol where
  name := label.text
  kind := kind
  line := label.start.line
  startColumn := label.start.column
  endColumn := label.endColumn
  braceDepth := braceDepth

namespace Recognizer

def start (options : ScanOptions) : Recognizer :=
  ⟨options, .empty, .empty options.lookbackCapacity, []⟩

/-- The declaration that an intent stands for if it is confirmed at the depth. -/
def declared? (lookback : Lookback) (braceDepth : Nat) (intent : Intent) : Option Symbol :=
  ((lookback.nameAfter intent.keyword).filter (isDeclaredName ·.text)).map
    (·.toSymbol intent.kind braceDepth)

def take (r : Recognizer) : Event → Recognizer
  | .label occurrence =>
    { r with
      lookback := r.lookback.push occurrence.text occurrence.start occurrence.braceDepth
      intents :=
        match occurrence.keywordKind? r.options.distinctInterfaces with
        | some kind => r.intents.push ⟨kind, r.lookback.next⟩
        | none => r.intents }
  | .terminator terminator braceDepth =>
    { r with
      intents := r.intents.settle terminator
      symbols := r.symbols ++
        (r.intents.confirmedBy terminator).filterMap (declared? r.lookback braceDepth) }
  | .semicolon => { r with intents := .empty }

def takeAll (r : Recognizer) (events : List Event) : Recognizer := events.foldl take r

theorem takeAll_append (r : Recognizer) (first second : List Event) :
    r.takeAll (first ++ second) = (r.takeAll first).takeAll second :=
  List.foldl_append

end Recognizer

namespace Scanner

def recognizer (s : Scanner) : Recognizer := ⟨s.options, s.intents, s.lookback, s.symbols⟩

/-! ## Events -/

/-- The identifier that is being read, as the label it becomes when it is completed. -/
def completion (s : Scanner) : List Event :=
  match s.pending with
  | none => []
  | some ident =>
    [.label ⟨.ofList ident.text, ident.start, s.braceDepth, ident.isEligible⟩]

/-- The event that a character of the code is by itself. -/
def mark (s : Scanner) (c : Char) : List Event :=
  match c with
  | '(' => [.terminator .paren s.braceDepth]
  | '{' => [.terminator .brace s.braceDepth]
  | ';' => [.semicolon]
  | _ => []

def closesTag (s : Scanner) (c : Char) : Prop := s.lead = some '?' ∧ c = '>'

def opensComment (s : Scanner) (c : Char) : Prop := s.lead = some '/' ∧ (c = '/' ∨ c = '*')

instance (s : Scanner) (c : Char) : Decidable (s.closesTag c) :=
  inferInstanceAs (Decidable (_ ∧ _))

instance (s : Scanner) (c : Char) : Decidable (s.opensComment c) :=
  inferInstanceAs (Decidable (_ ∧ _))

/-- The events of a character. Only in the code are there any, except that a close tag also
completes an identifier from within parentheses or a line comment. -/
def emits (s : Scanner) (c : Char) : List Event :=
  if c = '\r' then []
  else
    match s.region with
    | .code =>
      if c = '\n' ∨ s.closesTag c then s.completion
      else if s.opensComment c ∨ isLabelChar c then []
      else s.completion ++ s.mark c
    | .parens _ | .lineComment => if s.closesTag c then s.completion else []
    | _ => []

def trace (s : Scanner) : List Char → List Event
  | [] => []
  | c :: rest => s.emits c ++ (s.step c).trace rest

/-- The events of the end of a text: an identifier that the code ends with is a label too. -/
def closing (s : Scanner) : List Event := if s.region = .code then s.completion else []

theorem run_cons (s : Scanner) (c : Char) (rest : List Char) :
    s.run (c :: rest) = (s.step c).run rest := rfl

theorem run_concat (s : Scanner) (text : List Char) (c : Char) :
    s.run (text ++ [c]) = (s.run text).step c := by
  rw [run_append]
  rfl

theorem trace_append (s : Scanner) (first second : List Char) :
    s.trace (first ++ second) = s.trace first ++ (s.run first).trace second := by
  induction first generalizing s with
  | nil => rfl
  | cons c rest ih =>
      simp only [List.cons_append, trace, ih, List.append_assoc]
      rfl

theorem mem_trace_iff {s : Scanner} {text : List Char} {event : Event} :
    event ∈ s.trace text ↔
      ∃ before c after, text = before ++ c :: after ∧ event ∈ (s.run before).emits c := by
  induction text generalizing s with
  | nil => simp [trace]
  | cons c rest ih =>
      simp only [trace, List.mem_append, ih]
      constructor
      · rintro (hhead | ⟨before, d, after, rfl, hevent⟩)
        · exact ⟨[], c, rest, rfl, hhead⟩
        · exact ⟨c :: before, d, after, rfl, hevent⟩
      · rintro ⟨before, d, after, htext, hevent⟩
        cases before with
        | nil =>
            obtain ⟨rfl, rfl⟩ := List.cons.inj htext
            exact Or.inl hevent
        | cons b before =>
            obtain ⟨rfl, rfl⟩ := List.cons.inj htext
            exact Or.inr ⟨before, d, after, rfl, hevent⟩

end Scanner

namespace Scanner

/-! ## A step takes the events of its character -/

section Recognizer

variable (s : Scanner) (c : Char)

@[simp]
theorem braceDepth_complete : s.complete.braceDepth = s.braceDepth := by
  unfold complete
  split <;> rfl

@[simp]
theorem symbols_complete : s.complete.symbols = s.symbols := by
  unfold complete
  split <;> rfl

@[simp]
theorem regions_complete : s.complete.regions = s.regions := by
  unfold complete
  split <;> rfl

@[simp]
theorem pending_complete : s.complete.pending = none := by
  unfold complete
  split
  · assumption
  · rfl

theorem declared?_eq : s.declared? = Recognizer.declared? s.lookback s.braceDepth := by
  funext intent
  unfold declared? Recognizer.declared?
  cases s.lookback.nameAfter intent.keyword with
  | none => rfl
  | some label =>
      by_cases hname : isDeclaredName label.text
      · simp [Option.filter_some, hname, Label.toSymbol]
      · simp [Option.filter_some, hname]

theorem recognizer_complete :
    s.complete.recognizer = s.recognizer.takeAll s.completion := by
  cases hpending : s.pending with
  | none => simp [complete, completion, hpending, Recognizer.takeAll]
  | some ident =>
      simp only [complete, completion, hpending]
      rfl

theorem recognizer_confirm (terminator : Terminator) :
    (s.confirm terminator).recognizer =
      s.recognizer.take (.terminator terminator s.braceDepth) := by
  simp only [confirm, recognizer, Recognizer.take, declared?_eq]

theorem recognizer_leaveCode :
    s.leaveCode.recognizer = s.recognizer.takeAll s.completion :=
  s.recognizer_complete

theorem recognizer_stepPage : (s.stepPage c).recognizer = s.recognizer := by
  unfold stepPage
  simp only
  split_ifs <;> rfl

theorem recognizer_stepMark :
    (s.stepMark c).recognizer = s.recognizer.takeAll (s.mark c) := by
  unfold stepMark
  split
  case h_6 => exact s.recognizer_confirm .paren
  case h_7 => exact s.recognizer_confirm .brace
  case h_10 => simp_all [mark, Recognizer.takeAll]
  all_goals rfl

theorem recognizer_stepPlain :
    (s.stepPlain c).recognizer =
      s.recognizer.takeAll
        (if isLabelChar c then [] else s.completion ++ s.mark c) := by
  unfold stepPlain
  split_ifs with hlabel hblank
  · rfl
  · have hmark : s.mark c = [] := by
      unfold mark
      split <;> simp_all [isBlank]
    rw [hmark, List.append_nil]
    exact s.recognizer_complete
  · rw [Recognizer.takeAll_append, ← recognizer_complete]
    have hmark : s.mark c = s.complete.mark c := by simp [mark]
    rw [hmark]
    exact s.complete.recognizer_stepMark c

/-- What the second half of a two-character sequence can do. -/
theorem stepPair?_cases :
    (s.closesTag c ∧ s.stepPair? c = some s.leaveCode) ∨
      (s.opensComment c ∧ ∃ region, (region = .lineComment ∨ region = .blockComment) ∧
        s.stepPair? c = some ({ s with lead := none }.enterAtLead region)) ∨
      (¬s.closesTag c ∧ ¬s.opensComment c ∧ s.stepPair? c = none) := by
  unfold stepPair? closesTag opensComment
  split
  · rename_i hlead
    exact Or.inl ⟨⟨hlead, rfl⟩, rfl⟩
  · rename_i hlead
    exact Or.inr (Or.inl ⟨⟨hlead, Or.inl rfl⟩, .lineComment, Or.inl rfl, rfl⟩)
  · rename_i hlead
    exact Or.inr (Or.inl ⟨⟨hlead, Or.inr rfl⟩, .blockComment, Or.inr rfl, rfl⟩)
  · rename_i hclose hline hblock
    refine Or.inr (Or.inr ⟨?_, ?_, rfl⟩)
    · rintro ⟨hlead, rfl⟩
      exact hclose hlead rfl
    · rintro ⟨hlead, rfl | rfl⟩
      · exact hline hlead rfl
      · exact hblock hlead rfl

theorem not_closesTag_of_opensComment (hopen : s.opensComment c) : ¬s.closesTag c := by
  rintro ⟨hlead, -⟩
  rw [hopen.1] at hlead
  exact absurd hlead (by decide)

theorem recognizer_stepCode (hline : c ≠ '\n') (hreturn : c ≠ '\r') (hregion : s.region = .code) :
    (s.stepCode c).recognizer = s.recognizer.takeAll (s.emits c) := by
  unfold stepCode emits
  rw [if_neg hreturn, hregion]
  obtain ⟨hclose, hpair⟩ | ⟨hopen, region, -, hpair⟩ | ⟨hclose, hopen, hpair⟩ := s.stepPair?_cases c
  · simp only [hpair, hclose, or_true, if_true]
    exact s.recognizer_leaveCode
  · have hclose : ¬s.closesTag c := s.not_closesTag_of_opensComment c hopen
    simp only [hpair, hline, hclose, hopen, or_self, true_or, if_true, if_false]
    rfl
  · simp only [hpair, hline, hclose, hopen, or_self, false_or, if_false]
    exact { s with lead := none }.recognizer_stepPlain c

theorem recognizer_stepParens (nested : Nat) (hreturn : c ≠ '\r')
    (hregion : s.region = .parens nested) :
    (s.stepParens nested c).recognizer = s.recognizer.takeAll (s.emits c) := by
  unfold stepParens emits
  rw [if_neg hreturn, hregion]
  obtain ⟨hclose, hpair⟩ | ⟨hopen, region, -, hpair⟩ | ⟨hclose, hopen, hpair⟩ := s.stepPair?_cases c
  · simp only [hpair, hclose, if_true]
    exact s.recognizer_leaveCode
  · have hclose : ¬s.closesTag c := s.not_closesTag_of_opensComment c hopen
    simp only [hpair, hclose, if_false]
    rfl
  · have hmark : ({ s with lead := none }.stepParensMark nested c).recognizer = s.recognizer := by
      unfold stepParensMark
      split
      case h_2 => split_ifs <;> rfl
      all_goals rfl
    simp only [hpair, hclose, if_false]
    split_ifs <;> exact hmark

theorem recognizer_stepLineComment (hreturn : c ≠ '\r') (hregion : s.region = .lineComment) :
    (s.stepLineComment c).recognizer = s.recognizer.takeAll (s.emits c) := by
  have hemits : s.emits c = if s.closesTag c then s.completion else [] := by
    rw [emits, if_neg hreturn, hregion]
  rw [hemits]
  by_cases hclose : s.closesTag c
  · rw [if_pos hclose]
    obtain ⟨hlead, rfl⟩ := hclose
    have hstep : s.stepLineComment '>' = s.leaveCode := by simp [stepLineComment, hlead]
    rw [hstep]
    exact s.recognizer_leaveCode
  · rw [if_neg hclose]
    unfold stepLineComment
    split
    case h_2 hlead => exact absurd ⟨hlead, rfl⟩ hclose
    all_goals rfl

theorem recognizer_stepBlockComment : (s.stepBlockComment c).recognizer = s.recognizer := by
  unfold stepBlockComment
  split <;> rfl

/-- **One step.** The scanner's dealings with declarations are changed by the events of the character
and by nothing else. -/
theorem recognizer_step :
    (s.step c).recognizer = s.recognizer.takeAll (s.emits c) := by
  unfold step
  split_ifs with hreturn hline
  · simp [emits, hreturn, Recognizer.takeAll]
  · subst hline
    have hclose : ¬s.closesTag '\n' := fun h => absurd h.2 (by decide)
    change s.breakRegion.recognizer = _
    unfold breakRegion emits
    cases hregion : s.region with
    | code => simpa using s.recognizer_complete
    | parens nested => simp [hclose, Recognizer.takeAll, recognizer]
    | lineComment => simp [hclose, Recognizer.takeAll, recognizer, leave]
    | page => rfl
    | doubleQuoted => rfl
    | singleQuoted => rfl
    | blockComment => rfl
  · change (s.stepRegion c).recognizer = _
    unfold stepRegion
    cases hregion : s.region with
    | code => exact s.recognizer_stepCode c hline hreturn hregion
    | parens nested => exact s.recognizer_stepParens c nested hreturn hregion
    | lineComment => exact s.recognizer_stepLineComment c hreturn hregion
    | page => simpa [emits, hreturn, hregion, Recognizer.takeAll] using s.recognizer_stepPage c
    | doubleQuoted =>
        simp only [emits, hreturn, hregion, stepQuoted, if_false]
        split_ifs <;> rfl
    | singleQuoted =>
        simp only [emits, hreturn, hregion, stepQuoted, if_false]
        split_ifs <;> rfl
    | blockComment =>
        simpa [emits, hreturn, hregion, Recognizer.takeAll] using s.recognizer_stepBlockComment c

/-- **A whole run.** What the scanner makes of a text is what it makes of the text's events. -/
theorem recognizer_run (text : List Char) :
    (s.run text).recognizer = s.recognizer.takeAll (s.trace text) := by
  induction text generalizing s with
  | nil => rfl
  | cons c rest ih =>
      rw [trace, Recognizer.takeAll_append, ← recognizer_step]
      exact ih (s.step c)

theorem recognizer_close : s.close.recognizer = s.recognizer.takeAll s.closing := by
  unfold close closing
  split_ifs
  · exact s.recognizer_complete
  · rfl

end Recognizer

theorem recognizer_start (options : ScanOptions) :
    (start options).recognizer = Recognizer.start options := rfl

end Scanner

/-- The events of a whole text, its end included. -/
def scanTrace (options : ScanOptions) (text : String) : List Event :=
  (Scanner.start options).trace text.toList ++ ((Scanner.start options).feed text).closing

theorem recognizer_scan (options : ScanOptions) (text : String) :
    ((Scanner.start options).feed text).close.recognizer =
      (Recognizer.start options).takeAll (scanTrace options text) := by
  rw [scanTrace, Recognizer.takeAll_append, Scanner.recognizer_close, Scanner.feed,
    Scanner.recognizer_run, Scanner.recognizer_start]

end PhpOutline
