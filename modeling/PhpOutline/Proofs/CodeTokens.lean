import PhpOutline.Proofs.DeclarationForest
import PhpOutline.Proofs.OpaqueRegions

/-!
# Tokens of the code

What the scanner does with a gap, a word, a mark or parameters, when it comes to them with nothing
half read. A word is known to be complete only when the next character is seen, so its lemma speaks
of the text together with what follows.
-/

namespace PhpOutline

/-- Texts between parentheses: every parenthesis has its counterpart, and there are no braces and none of
the characters that begin a comment or a close tag, except within strings, which may hold anything. -/
inductive Enclosed : List Char → Prop where
  | nil : Enclosed []
  | char {rest : List Char} (c : Char)
      (hplain : c ∉ ['(', ')', '"', '\'', '#', '/', '?', '{', '}']) (hrest : Enclosed rest) :
      Enclosed (c :: rest)
  | group {inner rest : List Char} (hinner : Enclosed inner) (hrest : Enclosed rest) :
      Enclosed ('(' :: (inner ++ ')' :: rest))
  | quoted {content rest : List Char} (quote : Char) (hquote : quote = '"' ∨ quote = '\'')
      (hcontent : quote ∉ content) (hrest : Enclosed rest) :
      Enclosed (quote :: (content ++ quote :: rest))

theorem Balanced.enclosed {text : List Char} (hbalanced : Balanced text) : Enclosed text := by
  induction hbalanced with
  | nil => exact .nil
  | char c hplain _ ih => exact .char c hplain ih
  | group _ _ ihinner ihrest => exact .group ihinner ihrest

namespace Scanner

/-- The scanner has read the text and is in the code, `depth` braces deep, with nothing half read. -/
structure AtRest (s : Scanner) (text : List Char) (depth : Nat) : Prop where
  regions : ∃ place, s.regions = ⟨[⟨.code, place⟩]⟩
  lead : s.lead = none
  pending : s.pending = none
  braceDepth : s.braceDepth = depth
  position : s.position = heldPlace text

/-- The scanner has read the text and is between parentheses, with nothing half read. -/
structure InParens (s : Scanner) (text : List Char) (nested : Nat) (place : Position)
    (outer : List Frame) : Prop where
  regions : s.regions = ⟨⟨.parens nested, place⟩ :: outer⟩
  lead : s.lead = none
  pending : s.pending = none
  position : s.position = heldPlace text

/-- The scanner further on in the text, with other significant characters behind it. -/
def moved (s : Scanner) (recent : Option Char × Option Char) (text : List Char) : Scanner :=
  { s with recent, position := heldPlace text }

/-- The text leads from one state to the other, as soon as it is seen that no label goes on. -/
def Reaches (s : Scanner) (text : List Char) (t : Scanner) : Prop :=
  ∀ c rest, isLabelChar c = false → c ≠ '\r' → s.run (text ++ c :: rest) = t.run (c :: rest)

/-- The text does not begin with a character that could go on with a label. -/
def Breaks (text : List Char) : Prop :=
  ∀ c ∈ text.head?, isLabelChar c = false ∧ c ≠ '\r'

section Tokens

variable {s t u : Scanner} {text first second : List Char} {depth : Nat}

@[simp]
theorem recognizer_moved (recent : Option Char × Option Char) :
    (s.moved recent text).recognizer = s.recognizer := rfl

theorem AtRest.region (hs : s.AtRest text depth) : s.region = .code := by
  obtain ⟨place, hregions⟩ := hs.regions
  simp [Scanner.region, hregions, RegionStack.current, RegionStack.top]

theorem AtRest.complete (hs : s.AtRest text depth) : s.complete = s :=
  complete_of_pending_eq_none hs.pending

theorem AtRest.moved (hs : s.AtRest text depth) (recent : Option Char × Option Char)
    (later : List Char) : (s.moved recent later).AtRest later depth :=
  ⟨hs.regions, hs.lead, hs.pending, hs.braceDepth, rfl⟩

theorem position_step_of_eq (hposition : s.position = heldPlace text) (c : Char) :
    (s.step c).position = heldPlace (text ++ [c]) := by
  rw [position_step, hposition, heldPlace_concat]

theorem position_run_of_eq (hposition : s.position = heldPlace text) (rest : List Char) :
    (s.run rest).position = heldPlace (text ++ rest) := by
  induction rest generalizing s text with
  | nil => rwa [List.append_nil]
  | cons c rest ih =>
      rw [run_cons, ih (position_step_of_eq hposition c), List.append_assoc]
      rfl

/-! ## Composition -/

theorem reaches_of_run (hrun : s.run text = t) : s.Reaches text t := by
  intro c rest hlabel hreturn
  rw [run_append, hrun]

theorem Reaches.run_append (hfirst : s.run first = t) (hsecond : t.Reaches second u) :
    s.Reaches (first ++ second) u := by
  intro c rest hlabel hreturn
  rw [List.append_assoc, Scanner.run_append, hfirst]
  exact hsecond c rest hlabel hreturn

theorem Reaches.append (hfirst : s.Reaches first t) (hsecond : t.Reaches second u)
    (hbreaks : Breaks second) : s.Reaches (first ++ second) u := by
  intro c rest hlabel hreturn
  rw [List.append_assoc]
  cases second with
  | nil => exact (hfirst c rest hlabel hreturn).trans (hsecond c rest hlabel hreturn)
  | cons d second =>
      obtain ⟨hd, hdreturn⟩ := hbreaks d rfl
      rw [List.cons_append, hfirst d (second ++ c :: rest) hd hdreturn]
      exact hsecond c rest hlabel hreturn

/-! ## Steps in the code -/

theorem stepPair?_of_lead_eq_none (hlead : s.lead = none) (c : Char) : s.stepPair? c = none := by
  simp [stepPair?, hlead]

theorem lead_none_eq_self (hlead : s.lead = none) : { s with lead := none } = s := by
  rw [← hlead]

theorem step_code (hregion : s.region = .code) (hlead : s.lead = none) {c : Char}
    (hline : c ≠ '\n') (hreturn : c ≠ '\r') :
    s.step c = { s.stepPlain c with position := s.position.nextColumn } := by
  have hcode : s.stepRegion c = s.stepPlain c := by
    rw [stepRegion, hregion]
    simp only [stepCode, stepPair?_of_lead_eq_none hlead c, lead_none_eq_self hlead]
  rw [step, if_neg hreturn, if_neg hline, stepColumn, hcode]

theorem step_complete (hregion : s.region = .code) (hlead : s.lead = none) {c : Char}
    (hlabel : isLabelChar c = false) (hreturn : c ≠ '\r') : s.step c = s.complete.step c := by
  have hagain : s.complete.complete = s.complete := complete_of_pending_eq_none s.pending_complete
  have hcode : s.complete.region = .code := by
    rw [region, regions_complete]
    exact hregion
  by_cases hline : c = '\n'
  · subst hline
    simp [step, stepLine, breakRegion, hregion, hcode, hagain]
  · rw [step_code hregion hlead hline hreturn,
      step_code hcode (s.lead_complete.trans hlead) hline hreturn, position_complete]
    simp [stepPlain, hlabel, hagain]

/-! ## Gaps -/

theorem isLabelChar_of_blank {c : Char} (hblank : c = ' ' ∨ c = '\t' ∨ c = '\n') :
    isLabelChar c = false ∧ c ≠ '\r' := by
  obtain rfl | rfl | rfl := hblank <;> decide

theorem AtRest.step_blank (hs : s.AtRest text depth) {c : Char}
    (hblank : c = ' ' ∨ c = '\t' ∨ c = '\n') : s.step c = s.moved s.recent (text ++ [c]) := by
  have hposition := position_step_of_eq hs.position c
  have hkeeps : s.step c = { s with position := (s.step c).position } := by
    by_cases hline : c = '\n'
    · subst hline
      simp only [step, stepLine, breakRegion, hs.region, hs.complete]
      simp [hs.lead]
    · obtain ⟨hlabel, hreturn⟩ := isLabelChar_of_blank hblank
      have hplain : s.stepPlain c = s := by
        have hskips : isBlank c := by
          obtain rfl | rfl | rfl := hblank <;> decide
        simp [stepPlain, hlabel, hskips, hs.complete]
      rw [step_code hs.region hs.lead hline hreturn, hplain]
  rw [hkeeps, hposition]
  rfl

theorem AtRest.run_gap (hs : s.AtRest text depth) (gap : Gap) :
    s.run gap.text = s.moved s.recent (text ++ gap.text) := by
  obtain ⟨chars, hblank⟩ := gap
  simp only
  induction chars generalizing s text with
  | nil =>
      rw [List.append_nil, Scanner.moved, ← hs.position]
      rfl
  | cons c rest ih =>
      have hstep := hs.step_blank (hblank c List.mem_cons_self)
      have hnext := hs.moved s.recent (text ++ [c])
      have hrest := ih hnext (fun d hd => hblank d (List.mem_cons_of_mem c hd))
      calc s.run (c :: rest) = (s.step c).run rest := rfl
        _ = (s.moved s.recent (text ++ [c])).run rest := by rw [hstep]
        _ = s.moved s.recent (text ++ c :: rest) := by
            rw [hrest, List.append_assoc]
            rfl

theorem AtRest.read_gap (hs : s.AtRest text depth) (gap : Gap) :
    ∃ t : Scanner, s.run gap.text = t ∧ t.AtRest (text ++ gap.text) depth ∧
      t.recognizer = s.recognizer ∧ t.recent = s.recent :=
  ⟨_, hs.run_gap gap, hs.moved s.recent (text ++ gap.text), rfl, rfl⟩

theorem breaks_nil : Breaks [] := by
  intro c hc
  simp at hc

theorem breaks_paren (rest : List Char) : Breaks ('(' :: rest) := by
  intro c hc
  obtain rfl : '(' = c := by simpa using hc
  decide

theorem breaks_gap (gap : Gap) (hbreaks : gap.text = [] → Breaks text) :
    Breaks (gap.text ++ text) := by
  intro c hc
  cases hgap : gap.text with
  | nil =>
      rw [hgap] at hc
      exact hbreaks hgap c hc
  | cons d rest =>
      rw [hgap] at hc
      obtain rfl : d = c := by simpa using hc
      exact isLabelChar_of_blank (gap.blank d (by simp [hgap]))

theorem breaks_gap_alone (gap : Gap) : Breaks gap.text := by
  have hbreaks := breaks_gap gap (fun _ => breaks_nil)
  rwa [List.append_nil] at hbreaks

theorem breaks_separator (separator : Separator) : Breaks (separator.text ++ text) :=
  breaks_gap separator.toGap (fun hempty => absurd hempty separator.ne_nil)

/-! ## Words -/

theorem step_label (hregion : s.region = .code) (hlead : s.lead = none)
    (hposition : s.position = heldPlace text) {c : Char} (hlabel : isLabelChar c) :
    s.step c = { s.moved (some c, s.recent.1) (text ++ [c]) with pending := (s.extend c).pending } := by
  have hline : c ≠ '\n' := by
    rintro rfl
    exact absurd hlabel (by decide)
  have hreturn : c ≠ '\r' := by
    rintro rfl
    exact absurd hlabel (by decide)
  have hplace : s.position.nextColumn = heldPlace (text ++ [c]) := by
    rw [heldPlace_concat, if_neg hreturn, if_neg hline, hposition]
  rw [step_code hregion hlead hline hreturn, hplace]
  simp only [stepPlain, hlabel, if_true]
  rfl

theorem AtRest.run_word (hs : s.AtRest text depth) {word : List Char} (hne : word ≠ [])
    (hlabel : ∀ c ∈ word, isLabelChar c) :
    ∃ recent, s.run word = { s.moved recent (text ++ word) with
      pending := some ⟨word, heldPlace text, s.recent⟩ } := by
  induction word using List.reverseRecOn with
  | nil => exact absurd rfl hne
  | append_singleton word c ih =>
      have hc : isLabelChar c := hlabel c (by simp)
      rw [run_concat]
      by_cases hfirst : word = []
      · subst hfirst
        have hextend : (s.extend c).pending = some ⟨[c], heldPlace text, s.recent⟩ := by
          simp [extend, hs.pending, hs.position]
        have hstep := step_label hs.region hs.lead hs.position hc
        rw [hextend] at hstep
        exact ⟨(some c, s.recent.1), hstep⟩
      · obtain ⟨recent, hrun⟩ := ih hfirst (fun d hd => hlabel d (List.mem_append_left [c] hd))
        have hposition : (s.run word).position = heldPlace (text ++ word) := by
          rw [hrun]
          rfl
        have hstep := step_label (by rw [hrun]; exact hs.region) (by rw [hrun]; exact hs.lead)
          hposition hc
        refine ⟨(some c, (s.run word).recent.1), ?_⟩
        rw [hstep, hrun, List.append_assoc]
        rfl

/-- A word is taken as a label as soon as it is seen to be complete. -/
theorem AtRest.read_word (hs : s.AtRest text depth) {word : List Char} (hne : word ≠ [])
    (hlabel : ∀ c ∈ word, isLabelChar c) :
    ∃ t : Scanner, t.AtRest (text ++ word) depth ∧ s.Reaches word t ∧
      t.recognizer = s.recognizer.take (.label ⟨.ofList word, heldPlace text, depth,
        Identifier.isEligible ⟨word, heldPlace text, s.recent⟩⟩) := by
  obtain ⟨recent, hrun⟩ := hs.run_word hne hlabel
  have hregion : (s.run word).region = .code := by
    rw [hrun]
    exact hs.region
  have hlead : (s.run word).lead = none := by
    rw [hrun]
    exact hs.lead
  refine ⟨(s.run word).complete, ⟨?_, ?_, ?_, ?_, ?_⟩, ?_, ?_⟩
  · rw [regions_complete, hrun]
    exact hs.regions
  · rw [lead_complete, hlead]
  · exact pending_complete _
  · rw [braceDepth_complete, hrun]
    exact hs.braceDepth
  · rw [position_complete, hrun]
    rfl
  · intro c rest hc hreturn
    rw [run_append]
    calc (s.run word).run (c :: rest) = ((s.run word).step c).run rest := rfl
      _ = ((s.run word).complete.step c).run rest := by
          rw [step_complete hregion hlead hc hreturn]
  · rw [recognizer_complete, hrun, ← hs.braceDepth]
    rfl

/-! ## Marks -/

theorem AtRest.step_mark (hs : s.AtRest text depth) {c : Char} (hlabel : isLabelChar c = false)
    (hblank : isBlank c = false) :
    s.step c = { (s.stepMark c).note c with position := heldPlace (text ++ [c]) } := by
  have hline : c ≠ '\n' := by
    rintro rfl
    exact absurd hblank (by decide)
  have hreturn : c ≠ '\r' := by
    rintro rfl
    exact absurd hblank (by decide)
  rw [step_code hs.region hs.lead hline hreturn, heldPlace_concat, if_neg hreturn, if_neg hline,
    hs.position]
  simp [stepPlain, hlabel, hblank, hs.complete]

theorem AtRest.read_mark (hs : s.AtRest text depth) {c : Char} (hc : c ∈ ['{', '}', ';', ':']) :
    (s.step c).AtRest (text ++ [c]) (s.stepMark c).braceDepth ∧
      (s.step c).recognizer = s.recognizer.takeAll (s.mark c) ∧ (s.step c).recent.1 = some c := by
  simp only [List.mem_cons, List.not_mem_nil, or_false] at hc
  have hstep : s.step c = { (s.stepMark c).note c with position := heldPlace (text ++ [c]) } := by
    apply hs.step_mark
    · obtain rfl | rfl | rfl | rfl := hc <;> decide
    · obtain rfl | rfl | rfl | rfl := hc <;> decide
  have hregions : (s.stepMark c).regions = s.regions ∧ (s.stepMark c).lead = s.lead := by
    obtain rfl | rfl | rfl | rfl := hc <;> exact ⟨rfl, rfl⟩
  rw [hstep]
  refine ⟨⟨?_, ?_, ?_, rfl, rfl⟩, s.recognizer_stepMark c, rfl⟩
  · obtain ⟨place, hplace⟩ := hs.regions
    exact ⟨place, hregions.1.trans hplace⟩
  · exact hregions.2.trans hs.lead
  · exact (s.tag_pending_stepMark c).2.trans hs.pending

/-! ## Parameters -/

section Params

variable {nested : Nat} {place : Position} {outer : List Frame}

theorem InParens.region (hs : s.InParens text nested place outer) : s.region = .parens nested := by
  simp [Scanner.region, hs.regions, RegionStack.current, RegionStack.top]

theorem InParens.moved (hs : s.InParens text nested place outer)
    (recent : Option Char × Option Char) (later : List Char) :
    (s.moved recent later).InParens later nested place outer :=
  ⟨hs.regions, hs.lead, hs.pending, rfl⟩

theorem InParens.step_mark (hs : s.InParens text nested place outer) {c : Char} (hline : c ≠ '\n')
    (hreturn : c ≠ '\r') :
    ∃ recent, (isBlank c = false → recent.1 = some c) ∧
      s.step c = (s.stepParensMark nested c).moved recent (text ++ [c]) := by
  have hplace : s.position.nextColumn = heldPlace (text ++ [c]) := by
    rw [heldPlace_concat, if_neg hreturn, if_neg hline, hs.position]
  rw [step, if_neg hreturn, if_neg hline, stepColumn, stepRegion, hs.region, hplace]
  simp only [stepParens, stepPair?_of_lead_eq_none hs.lead c, lead_none_eq_self hs.lead]
  split_ifs with hblank
  · exact ⟨_, by simp [hblank], rfl⟩
  · exact ⟨_, fun _ => rfl, rfl⟩

theorem InParens.step_plain (hs : s.InParens text nested place outer) {c : Char}
    (hplain : c ∉ ['(', ')', '"', '\'', '#', '/', '?', '{', '}']) :
    ∃ recent, s.step c = s.moved recent (text ++ [c]) := by
  by_cases hreturn : c = '\r'
  · refine ⟨s.recent, ?_⟩
    rw [step, if_pos hreturn, hreturn, Scanner.moved, heldPlace_concat, if_pos rfl, ← hs.position]
  · by_cases hline : c = '\n'
    · refine ⟨s.recent, ?_⟩
      have hplace := position_step_of_eq hs.position c
      have hkeeps : s.step c = { s with position := (s.step c).position } := by
        subst hline
        simp [step, stepLine, breakRegion, hs.region, ← hs.pending, hs.lead]
      rw [hkeeps, hplace]
      rfl
    · obtain ⟨recent, -, hstep⟩ := hs.step_mark hline hreturn
      have hmark : s.stepParensMark nested c = s := by
        unfold stepParensMark
        split <;> simp_all
      rw [hmark] at hstep
      exact ⟨recent, hstep⟩

/-- A string leaves nothing behind but its closing quote. -/
theorem InParens.run_string (hs : s.InParens text nested place outer) {quote : Char}
    (hquote : quote = '"' ∨ quote = '\'') {content : List Char} (hcontent : quote ∉ content) :
    ∃ recent, s.run (quote :: (content ++ [quote])) =
      s.moved recent (text ++ quote :: (content ++ [quote])) := by
  have hline : quote ≠ '\n' := by obtain rfl | rfl := hquote <;> decide
  have hreturn : quote ≠ '\r' := by obtain rfl | rfl := hquote <;> decide
  obtain ⟨opened, -, hopen⟩ := hs.step_mark hline hreturn
  obtain ⟨hinside, hleave⟩ : (s.step quote).QuotedBy quote ∧
      (s.step quote).leave = s.moved opened (text ++ [quote]) := by
    rw [hopen]
    obtain rfl | rfl := hquote
    · exact ⟨Or.inl ⟨rfl, rfl⟩, rfl⟩
    · exact ⟨Or.inr ⟨rfl, rfl⟩, rfl⟩
  have hlead : (s.step quote).lead = none := (congrArg Scanner.lead hleave).trans hs.lead
  have hpending : (s.step quote).pending = none := (congrArg Scanner.pending hleave).trans hs.pending
  have hbody : (s.step quote).run content =
      { s.step quote with position := ((s.step quote).run content).position } := by
    have hrun := run_quoted hinside hpending hcontent
    rwa [hlead, ite_self, ← hlead] at hrun
  have hagain : ((s.step quote).run content).QuotedBy quote := by
    rw [hbody]
    exact hinside
  have hposition := position_run_of_eq hs.position (quote :: (content ++ [quote]))
  rw [run_cons, run_concat] at hposition ⊢
  refine ⟨(some quote, opened.1), ?_⟩
  rw [Scanner.moved, ← hposition, step_closing_quote hagain, hbody]
  exact congrArg (fun u : Scanner => { u.note quote with
    position := ((s.step quote).run content).position.nextColumn }) hleave

/-- What is between parentheses is passed over. -/
theorem InParens.run_enclosed (hs : s.InParens text nested place outer) {inner : List Char}
    (hinner : Enclosed inner) : ∃ recent, s.run inner = s.moved recent (text ++ inner) := by
  induction hinner generalizing s text nested with
  | nil =>
      refine ⟨s.recent, ?_⟩
      rw [List.append_nil, Scanner.moved, ← hs.position]
      rfl
  | @char rest c hplain hrest ih =>
      obtain ⟨recent, hstep⟩ := hs.step_plain hplain
      obtain ⟨later, hrun⟩ := ih (hs.moved recent (text ++ [c]))
      refine ⟨later, ?_⟩
      calc s.run (c :: rest) = (s.step c).run rest := rfl
        _ = (s.moved recent (text ++ [c])).run rest := by rw [hstep]
        _ = s.moved later (text ++ c :: rest) := by
            rw [hrun, List.append_assoc]
            rfl
  | @group inner rest hinner hrest ihinner ihrest =>
      -- The parenthesis raises the level, and its counterpart lowers it again.
      obtain ⟨opened, -, hopen⟩ := hs.step_mark (c := '(') (by decide) (by decide)
      have hdeeper : (s.step '(').InParens (text ++ ['(']) (nested + 1) place outer := by
        rw [hopen]
        refine ⟨?_, hs.lead, hs.pending, rfl⟩
        simp [Scanner.moved, stepParensMark, RegionStack.replace, hs.regions]
      obtain ⟨between, hmiddle⟩ := ihinner hdeeper
      have hinside := hdeeper.moved between (text ++ ['('] ++ inner)
      obtain ⟨closed, -, hclose⟩ := hinside.step_mark (c := ')') (by decide) (by decide)
      have hback : ((s.step '(').run inner).step ')' =
          s.moved closed (text ++ ['('] ++ inner ++ [')']) := by
        rw [hmiddle, hclose, hopen]
        simp [Scanner.moved, stepParensMark, RegionStack.replace, hs.regions]
      obtain ⟨later, hrun⟩ := ihrest (hs.moved closed (text ++ ['('] ++ inner ++ [')']))
      refine ⟨later, ?_⟩
      calc s.run ('(' :: (inner ++ ')' :: rest))
          = (s.step '(').run (inner ++ ')' :: rest) := rfl
        _ = (((s.step '(').run inner).step ')').run rest := by
            rw [run_append]
            rfl
        _ = (s.moved closed (text ++ ['('] ++ inner ++ [')'])).run rest := by rw [hback]
        _ = s.moved later (text ++ '(' :: (inner ++ ')' :: rest)) := by
            rw [hrun]
            simp [Scanner.moved]
  | @quoted content rest quote hquote hcontent hrest ih =>
      have hsplit : quote :: (content ++ quote :: rest) = quote :: (content ++ [quote]) ++ rest := by
        simp
      obtain ⟨recent, hstring⟩ := hs.run_string hquote hcontent
      obtain ⟨later, hrun⟩ := ih (hs.moved recent (text ++ quote :: (content ++ [quote])))
      refine ⟨later, ?_⟩
      rw [hsplit, Scanner.run_append, hstring, hrun, List.append_assoc]
      rfl

end Params

/-- The opening parenthesis is a terminator, and the rest up to its counterpart is passed over. -/
theorem AtRest.run_parens (hs : s.AtRest text depth) {inner : List Char} (hinner : Enclosed inner) :
    ∃ recent, recent.1 = some ')' ∧ s.run ('(' :: (inner ++ [')'])) =
      (s.confirm .paren).moved recent (text ++ '(' :: (inner ++ [')'])) := by
  obtain ⟨place, hregions⟩ := hs.regions
  have hopen := hs.step_mark (c := '(') (by decide) (by decide)
  have hinside : (s.step '(').InParens (text ++ ['(']) 0 s.position [⟨.code, place⟩] := by
    rw [hopen]
    refine ⟨?_, hs.lead, hs.pending, rfl⟩
    simp [stepMark, note, enter, confirm, RegionStack.push, hregions]
  obtain ⟨between, hmiddle⟩ := hinside.run_enclosed hinner
  obtain ⟨closed, hlast, hclose⟩ :=
    (hinside.moved between (text ++ ['('] ++ inner)).step_mark (c := ')') (by decide) (by decide)
  refine ⟨closed, hlast (by decide), ?_⟩
  calc s.run ('(' :: (inner ++ [')'])) = (s.step '(').run (inner ++ [')']) := rfl
    _ = ((s.step '(').run inner).step ')' := run_concat _ _ _
    _ = (s.confirm .paren).moved closed (text ++ '(' :: (inner ++ [')'])) := by
        rw [hmiddle, hclose, hopen]
        simp [Scanner.moved, stepParensMark, stepMark, note, enter, leave, confirm,
          RegionStack.push, RegionStack.pop]

/-- Parameters between their parentheses. -/
theorem AtRest.read_params (hs : s.AtRest text depth) {params : List Char}
    (hparams : Balanced params) :
    (s.run ('(' :: (params ++ [')']))).AtRest (text ++ '(' :: (params ++ [')'])) depth ∧
      (s.run ('(' :: (params ++ [')']))).recognizer =
        s.recognizer.take (.terminator .paren depth) := by
  obtain ⟨recent, -, hrun⟩ := hs.run_parens hparams.enclosed
  rw [hrun]
  refine ⟨⟨hs.regions, hs.lead, hs.pending, hs.braceDepth, rfl⟩, ?_⟩
  rw [recognizer_moved, recognizer_confirm, hs.braceDepth]

end Tokens

end Scanner

end PhpOutline
