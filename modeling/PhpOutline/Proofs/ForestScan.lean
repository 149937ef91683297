import PhpOutline.Proofs.CodeTokens
import PhpOutline.Proofs.LookbackHistory
import PhpOutline.Proofs.ReportPlaces

/-!
# Scanning a forest of declarations

Between two declarations nothing waits and nothing is half read. A header leads from there to a
keyword that waits with its name within reach, and the terminator of the header confirms it. So a
scan of a forest reports its declarations, each with the depth at which it is nested, and nothing
else.
-/

namespace PhpOutline

/-! ## Keywords -/

section Keywords

variable {text : List Char} {word : String}

theorem isLabelChar_of_toLower {c : Char} (hlower : isLabelChar c.toLower) : isLabelChar c := by
  unfold Char.toLower at hlower
  split at hlower
  · rename_i hupper
    have hbig : c.isUpper := decide_eq_true hupper
    have halpha : c.isAlpha := by
      change (c.isUpper || c.isLower) = true
      rw [hbig, Bool.true_or]
    simp [isLabelChar, Char.isAlphanum, halpha]
  · exact hlower

theorem label_of_sameWord (hspelled : sameWord (.ofList text) word)
    (hword : word ∈ ["class", "interface", "trait", "function"]) :
    text ≠ [] ∧ ∀ c ∈ text, isLabelChar c := by
  have hsame : text.map Char.toLower = word.toList.map Char.toLower := by
    simpa [sameWord] using hspelled
  have hletters : word.toList.map Char.toLower ≠ [] ∧
      (word.toList.map Char.toLower).all isLabelChar := by
    simp only [List.mem_cons, List.not_mem_nil, or_false] at hword
    obtain rfl | rfl | rfl | rfl := hword <;> decide
  constructor
  · rintro rfl
    exact hletters.1 hsame.symm
  · intro c hc
    apply isLabelChar_of_toLower
    apply List.all_eq_true.1 hletters.2
    rw [← hsame]
    exact List.mem_map_of_mem hc

theorem sameWord_congr {first second : String} (hsame : sameWord first second) (third : String) :
    sameWord first third = sameWord second third := by
  have hlower : first.toList.map Char.toLower = second.toList.map Char.toLower := by
    simpa [sameWord] using hsame
  rw [sameWord, hlower, sameWord]

theorem keywordKind?_of_classForm {form : ClassForm} (hspelled : sameWord word form.keyword)
    (distinctInterfaces : Bool) :
    keywordKind? distinctInterfaces word = some (form.kind distinctInterfaces) := by
  simp only [keywordKind?, sameWord_congr hspelled]
  cases form <;> rfl

theorem keywordKind?_of_function (hspelled : sameWord word "function") (distinctInterfaces : Bool) :
    keywordKind? distinctInterfaces word = some .functionDecl := by
  simp only [keywordKind?, sameWord_congr hspelled]
  rfl

theorem Word.keywordKind?_eq_none (label : Word) (distinctInterfaces : Bool) :
    keywordKind? distinctInterfaces (.ofList label.text) = none := by
  have hplain := label.plain
  simp only [List.forall_mem_cons] at hplain
  simp [keywordKind?, hplain]

end Keywords

/-! ## Waiting for a terminator -/

namespace Recognizer

/-- Nothing waits. -/
structure Idle (r : Recognizer) (options : ScanOptions) (symbols : List Symbol) : Prop where
  options_eq : r.options = options
  symbols_eq : r.symbols = symbols
  capacity_eq : r.lookback.capacity = max options.lookbackCapacity 2
  intents_eq : r.intents = .empty
  remembers : ∃ labels, r.lookback.Remembers labels

/-- One keyword waits, and after it came a name and `extra` more labels. -/
structure Heading (r : Recognizer) (options : ScanOptions) (symbols : List Symbol) (kind : Kind)
    (name : String) (start : Position) (extra : Nat) : Prop where
  options_eq : r.options = options
  symbols_eq : r.symbols = symbols
  capacity_eq : r.lookback.capacity = max options.lookbackCapacity 2
  waits : ∃ labels seq label, r.lookback.Remembers labels ∧ r.intents = ⟨[⟨kind, seq⟩]⟩ ∧
    labels.length = seq + 2 + extra ∧ labels[seq + 1]? = some label ∧
    label.text = name ∧ label.start = start

section Header

variable {r : Recognizer} {options : ScanOptions} {symbols : List Symbol} {kind : Kind}
  {name : String} {start : Position} {extra : Nat} {occurrence keyword : Occurrence}

theorem Idle.take_plain (hr : r.Idle options symbols)
    (hplain : occurrence.keywordKind? options.distinctInterfaces = none) :
    (r.take (.label occurrence)).Idle options symbols := by
  obtain ⟨labels, hlabels⟩ := hr.remembers
  refine ⟨hr.options_eq, hr.symbols_eq, hr.capacity_eq, ?_, _, hlabels.push _ _ _⟩
  simp only [take, hr.options_eq, hplain, hr.intents_eq]

theorem Idle.take_header (hr : r.Idle options symbols)
    (hkind : keyword.keywordKind? options.distinctInterfaces = some kind)
    (hplain : occurrence.keywordKind? options.distinctInterfaces = none) :
    ((r.take (.label keyword)).take (.label occurrence)).Heading options symbols kind
      occurrence.text occurrence.start 0 := by
  obtain ⟨labels, hlabels⟩ := hr.remembers
  have hall := (hlabels.push keyword.text keyword.start keyword.braceDepth).push
    occurrence.text occurrence.start occurrence.braceDepth
  refine ⟨hr.options_eq, hr.symbols_eq, hr.capacity_eq, _, labels.length,
    ⟨labels.length + 1, occurrence.text, occurrence.start, occurrence.braceDepth⟩, hall, ?_, ?_, ?_,
    rfl, rfl⟩
  · simp only [take, hr.options_eq, hkind, hplain, hr.intents_eq, hlabels.next_eq]
    rfl
  · simp
  · simp

theorem Heading.take_plain (hr : r.Heading options symbols kind name start extra)
    (hplain : occurrence.keywordKind? options.distinctInterfaces = none) :
    (r.take (.label occurrence)).Heading options symbols kind name start (extra + 1) := by
  obtain ⟨labels, seq, label, hlabels, hintents, hlength, hlabel, hname, hstart⟩ := hr.waits
  refine ⟨hr.options_eq, hr.symbols_eq, hr.capacity_eq, _, seq, label, hlabels.push _ _ _, ?_, ?_, ?_,
    hname, hstart⟩
  · simp only [take, hr.options_eq, hplain, hintents]
  · simp [hlength]
    omega
  · rw [List.getElem?_append_left (by omega), hlabel]

/-- The terminator of a header confirms the declaration, if the name is still within reach. -/
theorem Heading.take_terminator (hr : r.Heading options symbols kind name start extra)
    (hfits : extra + 2 ≤ max options.lookbackCapacity 2) (hdeclared : isDeclaredName name)
    (depth : Nat) :
    (r.take (.terminator kind.terminator depth)).Idle options
      (symbols ++ [⟨name, kind, start.line, start.column, satAdd start.column name.length, depth⟩]) := by
  obtain ⟨labels, seq, label, hlabels, hintents, hlength, hlabel, rfl, rfl⟩ := hr.waits
  have hfound : r.lookback.nameAfter seq = some label := by
    rw [hlabels.nameAfter_eq, hr.capacity_eq, if_pos (by omega), hlabel]
  have hsymbol : declared? r.lookback depth ⟨kind, seq⟩ = some (label.toSymbol kind depth) := by
    simp [declared?, hfound, Option.filter_some, hdeclared]
  refine ⟨hr.options_eq, ?_, hr.capacity_eq, ?_, labels, hlabels⟩
  · simp only [take, hintents, hr.symbols_eq, IntentQueue.confirmedBy, Intent.terminator]
    simp [hsymbol]
    rfl
  · simp [take, hintents, IntentQueue.settle, IntentQueue.empty, Intent.terminator]

theorem Idle.take_terminator (hr : r.Idle options symbols) (terminator : Terminator) (depth : Nat) :
    (r.take (.terminator terminator depth)).Idle options symbols := by
  refine ⟨hr.options_eq, ?_, hr.capacity_eq, ?_, hr.remembers⟩
  · simp [take, hr.intents_eq, hr.symbols_eq, IntentQueue.confirmedBy, IntentQueue.empty]
  · simp [take, hr.intents_eq, IntentQueue.settle, IntentQueue.empty]

theorem Idle.take_semicolon (hr : r.Idle options symbols) :
    (r.take .semicolon).Idle options symbols :=
  ⟨hr.options_eq, hr.symbols_eq, hr.capacity_eq, rfl, hr.remembers⟩

end Header

end Recognizer

/-! ## Headers -/

namespace Scanner

/-- The scanner is between two declarations: nothing is half read, nothing waits, and a keyword that
follows counts as one. -/
structure Between (s : Scanner) (options : ScanOptions) (text : List Char) (depth : Nat)
    (symbols : List Symbol) : Prop where
  atRest : s.AtRest text depth
  fresh : ∀ c, s.recent.1 = some c → c ≠ '$' ∧ c ≠ ':' ∧ c ≠ '>'
  idle : s.recognizer.Idle options symbols

section Declarations

variable {s t : Scanner} {options : ScanOptions} {text first : List Char} {depth : Nat}
  {symbols : List Symbol} {kind : Kind} {name : String} {start : Position} {extra : Nat}

theorem Between.isEligible (hs : s.Between options text depth symbols) (word : List Char)
    (place : Position) : Identifier.isEligible ⟨word, place, s.recent⟩ := by
  have hfresh := hs.fresh
  unfold Identifier.isEligible
  split
  · rename_i heq
    simp_all
  · rename_i heq
    simp_all
  · rename_i heq
    simp_all
  · rfl

theorem Between.read_name (hs : s.Between options text depth symbols) (gap : Gap)
    {keyword : List Char} (hne : keyword ≠ []) (hlabel : ∀ c ∈ keyword, isLabelChar c)
    (hkind : keywordKind? options.distinctInterfaces (.ofList keyword) = some kind)
    (separator : Separator) (name : Name) :
    ∃ t : Scanner, t.AtRest (text ++ gap.text ++ keyword ++ separator.text ++ name.text) depth ∧
      t.recognizer.Heading options symbols kind (.ofList name.text)
        (heldPlace (text ++ gap.text ++ keyword ++ separator.text)) 0 ∧
      s.Reaches (gap.text ++ (keyword ++ (separator.text ++ name.text))) t := by
  obtain ⟨s₁, hgap, hs₁, hidle, hrecent⟩ := hs.atRest.read_gap gap
  obtain ⟨s₂, hs₂, hkeyword, htaken⟩ := hs₁.read_word hne hlabel
  obtain ⟨s₃, hseparator, hs₃, hkept, -⟩ := hs₂.read_gap separator.toGap
  obtain ⟨s₄, hs₄, hname, hnamed⟩ := hs₃.read_word name.ne_nil name.label
  refine ⟨s₄, hs₄, ?_, ?_⟩
  · rw [hnamed, hkept, htaken, hidle]
    refine hs.idle.take_header ?_ ?_
    · have heligible := hs.isEligible keyword (heldPlace (text ++ gap.text))
      rw [← hrecent] at heligible
      exact (if_pos heligible).trans hkind
    · simp [Occurrence.keywordKind?, name.keywordKind?_eq_none]
  · have hrest : s₂.Reaches (separator.text ++ name.text) s₄ :=
      Reaches.run_append hseparator hname
    exact Reaches.run_append hgap (hkeyword.append hrest (breaks_separator separator))

theorem AtRest.read_labels (hs : s.AtRest text depth) (labels : List (Separator × Word))
    (hheading : s.recognizer.Heading options symbols kind name start extra) :
    ∃ t : Scanner, t.AtRest (text ++ renderLabels labels) depth ∧
      t.recognizer.Heading options symbols kind name start (extra + labels.length) ∧
      s.Reaches (renderLabels labels) t ∧ Breaks (renderLabels labels) := by
  induction labels generalizing s text extra with
  | nil => exact ⟨s, by simpa [renderLabels] using hs, hheading, reaches_of_run rfl, breaks_nil⟩
  | cons label labels ih =>
      obtain ⟨separator, word⟩ := label
      obtain ⟨s₁, hseparator, hs₁, hkept, -⟩ := hs.read_gap separator.toGap
      obtain ⟨s₂, hs₂, hword, htaken⟩ := hs₁.read_word word.ne_nil word.label
      have hlonger : s₂.recognizer.Heading options symbols kind name start (extra + 1) := by
        rw [htaken, hkept]
        refine hheading.take_plain ?_
        simp [Occurrence.keywordKind?, word.keywordKind?_eq_none]
      obtain ⟨t, ht, hall, hreaches, hbreaks⟩ := ih hs₂ hlonger
      have hrender : renderLabels ((separator, word) :: labels) =
          separator.text ++ (word.text ++ renderLabels labels) := by
        simp [renderLabels]
      rw [hrender]
      refine ⟨t, by simpa using ht, ?_, ?_, breaks_separator separator⟩
      · rw [List.length_cons, Nat.add_comm labels.length, ← Nat.add_assoc]
        exact hall
      · exact Reaches.run_append hseparator (hword.append hreaches hbreaks)

theorem Between.read_classHeader (hs : s.Between options text depth symbols) (gap : Gap)
    (header : ClassHeader) :
    ∃ t : Scanner, t.AtRest (text ++ gap.text ++ header.render) depth ∧
      t.recognizer.Heading options symbols (header.form.kind options.distinctInterfaces)
        (.ofList header.name.text)
        (heldPlace (text ++ gap.text ++ header.keyword ++ header.separator.text))
        header.labels.length ∧
      s.Reaches (gap.text ++ header.render) t := by
  have hform : header.form.keyword ∈ ["class", "interface", "trait", "function"] := by
    cases header.form <;> decide
  obtain ⟨hne, hlabel⟩ := label_of_sameWord header.spelled hform
  have hkind := keywordKind?_of_classForm header.spelled options.distinctInterfaces
  obtain ⟨s₁, hs₁, hheading, hname⟩ := hs.read_name gap hne hlabel hkind header.separator header.name
  obtain ⟨s₂, hs₂, hlabelled, hlabels, hbreaks⟩ := hs₁.read_labels header.labels hheading
  obtain ⟨t, hgap, ht, hkept, -⟩ := hs₂.read_gap header.gap
  rw [← hkept, Nat.zero_add] at hlabelled
  have hall := (hname.append hlabels hbreaks).append (reaches_of_run hgap)
    (breaks_gap_alone header.gap)
  exact ⟨t, by simpa [ClassHeader.render] using ht, hlabelled,
    by simpa [ClassHeader.render] using hall⟩

theorem AtRest.read_result (hs : s.AtRest text depth) (hidle : s.recognizer.Idle options symbols)
    (result : Option Result) :
    ∃ t : Scanner, t.AtRest (text ++ result.elim [] Result.render) depth ∧
      t.recognizer.Idle options symbols ∧ s.Reaches (result.elim [] Result.render) t := by
  cases result with
  | none => exact ⟨s, by simpa using hs, hidle, reaches_of_run rfl⟩
  | some result =>
      obtain ⟨s₁, hgap, hs₁, hkept, -⟩ := hs.read_gap result.gap
      obtain ⟨hs₂, hcolon, -⟩ := hs₁.read_mark (c := ':') (by simp)
      obtain ⟨s₃, hblank, hs₃, hkept', -⟩ := hs₂.read_gap result.gapAfterColon
      obtain ⟨t, ht, hlabel, htaken⟩ := hs₃.read_word result.label.ne_nil result.label.label
      have hdepth : (s₁.stepMark ':').braceDepth = depth := hs₁.braceDepth
      rw [hdepth] at ht
      have hrun : s.run (result.gap.text ++ ':' :: result.gapAfterColon.text) = s₃ := by
        rw [run_append, hgap]
        exact hblank
      refine ⟨t, ?_, ?_, ?_⟩
      · simpa [Result.render] using ht
      · rw [htaken, hkept', hcolon, hkept]
        refine Recognizer.Idle.take_plain hidle ?_
        simp [Occurrence.keywordKind?, result.label.keywordKind?_eq_none]
      · simpa [Result.render] using Reaches.run_append hrun hlabel

theorem symbol_of_heldPlace (name : Name) (kind : Kind) (depth : Nat)
    (hlines : text.count '\n' < counterMax) :
    (⟨.ofList name.text, kind, (heldPlace text).line, (heldPlace text).column,
      satAdd (heldPlace text).column (String.ofList name.text).length, depth⟩ : Symbol) =
        name.symbol kind text depth := by
  have hline : (heldPlace text).line = (placeAfter text).line := Nat.min_eq_left hlines
  have hend : satAdd (heldPlace text).column (String.ofList name.text).length =
      min ((placeAfter text).column + name.text.length) counterMax := by
    rw [String.length_ofList]
    simp only [satAdd, heldPlace]
    omega
  rw [hline, hend]
  rfl

/-- The header of a function: its opening parenthesis confirms it. -/
theorem Between.read_functionHeader (hs : s.Between options text depth symbols) (gap : Gap)
    (header : FunctionHeader)
    (hlines : (text ++ gap.text ++ header.keyword ++ header.separator.text).count '\n' < counterMax) :
    ∃ t : Scanner, t.AtRest (text ++ gap.text ++ header.render) depth ∧
      t.recognizer.Idle options (symbols ++ [header.name.symbol .functionDecl
        (text ++ gap.text ++ header.keyword ++ header.separator.text) depth]) ∧
      s.Reaches (gap.text ++ header.render) t := by
  obtain ⟨hne, hlabel⟩ := label_of_sameWord header.spelled (by simp)
  have hkind := keywordKind?_of_function header.spelled options.distinctInterfaces
  obtain ⟨s₁, hs₁, hheading, hname⟩ := hs.read_name gap hne hlabel hkind header.separator header.name
  obtain ⟨s₂, hgap, hs₂, hkept, -⟩ := hs₁.read_gap header.gap
  obtain ⟨hs₃, hconfirmed⟩ := hs₂.read_params header.balanced
  have hidle := hheading.take_terminator (Nat.le_max_right _ _) header.name.declared depth
  rw [symbol_of_heldPlace header.name .functionDecl depth hlines, ← hkept] at hidle
  have hidle₃ := hconfirmed ▸ hidle
  obtain ⟨s₄, hs₄, hidle₄, hresult⟩ := hs₃.read_result hidle₃ header.result
  obtain ⟨t, hlast, ht, hkept', -⟩ := hs₄.read_gap header.gapAfter
  rw [← hkept'] at hidle₄
  have hparams : s₁.run (header.gap.text ++ '(' :: (header.params ++ [')'])) =
      s₂.run ('(' :: (header.params ++ [')'])) := by
    rw [run_append, hgap]
  have hafter := hresult.append (reaches_of_run hlast) (breaks_gap_alone header.gapAfter)
  have hall := hname.append (Reaches.run_append hparams hafter)
    (by simpa using breaks_gap header.gap (fun _ => breaks_paren _))
  exact ⟨t, by simpa [FunctionHeader.render] using ht, hidle₄,
    by simpa [FunctionHeader.render] using hall⟩

/-! ## Braces and semicolons -/

theorem fresh_of_recent {c : Char} (hrecent : s.recent.1 = some c) (hc : c ∈ ['{', '}', ';']) :
    ∀ d, s.recent.1 = some d → d ≠ '$' ∧ d ≠ ':' ∧ d ≠ '>' := by
  intro d hd
  obtain rfl : c = d := by simpa [hrecent] using hd
  simp only [List.mem_cons, List.not_mem_nil, or_false] at hc
  obtain rfl | rfl | rfl := hc <;> decide

theorem AtRest.open_brace (hs : s.AtRest text depth) (hroom : depth < counterMax)
    (hidle : (s.recognizer.take (.terminator .brace depth)).Idle options symbols) :
    (s.step '{').Between options (text ++ ['{']) (depth + 1) symbols := by
  obtain ⟨hrest, htaken, hrecent⟩ := hs.read_mark (c := '{') (by simp)
  have hdepth : (s.stepMark '{').braceDepth = depth + 1 := by
    have hopened : (s.stepMark '{').braceDepth = satAdd s.braceDepth 1 := rfl
    rw [hopened, hs.braceDepth, satAdd_eq_add hroom]
  rw [hdepth] at hrest
  have hmark : s.mark '{' = [.terminator .brace depth] := by
    rw [← hs.braceDepth]
    rfl
  refine ⟨hrest, fresh_of_recent hrecent (by simp), ?_⟩
  rw [htaken, hmark]
  exact hidle

theorem AtRest.semicolon (hs : s.AtRest text depth) (hidle : s.recognizer.Idle options symbols) :
    (s.step ';').Between options (text ++ [';']) depth symbols := by
  obtain ⟨hrest, htaken, hrecent⟩ := hs.read_mark (c := ';') (by simp)
  have hdepth : (s.stepMark ';').braceDepth = depth := hs.braceDepth
  rw [hdepth] at hrest
  refine ⟨hrest, fresh_of_recent hrecent (by simp), ?_⟩
  rw [htaken]
  exact hidle.take_semicolon

theorem Between.close_brace (hs : s.Between options text (depth + 1) symbols) :
    (s.step '}').Between options (text ++ ['}']) depth symbols := by
  obtain ⟨hrest, htaken, hrecent⟩ := hs.atRest.read_mark (c := '}') (by simp)
  have hdepth : (s.stepMark '}').braceDepth = depth := by
    have hclosed : (s.stepMark '}').braceDepth = s.braceDepth - 1 := rfl
    rw [hclosed, hs.atRest.braceDepth, Nat.add_sub_cancel]
  rw [hdepth] at hrest
  refine ⟨hrest, fresh_of_recent hrecent (by simp), ?_⟩
  rw [htaken]
  exact hs.idle

/-! ## Forests -/

theorem ClassForm.terminator_kind (form : ClassForm) (distinctInterfaces : Bool) :
    (form.kind distinctInterfaces).terminator = .brace := by
  cases form <;> cases distinctInterfaces <;> rfl

theorem run_braces (hreaches : s.Reaches first t) (body rest : List Char) :
    s.run (first ++ '{' :: (body ++ '}' :: rest)) =
      (((t.step '{').run body).step '}').run rest := by
  rw [hreaches '{' (body ++ '}' :: rest) (by decide) (by decide), run_cons, run_append, run_cons]

/-- **A forest.** Between two declarations stands another forest: afterwards its declarations have
been reported, and the scanner is between two declarations again. -/
theorem Between.run_forest (hs : s.Between options text depth symbols) (forest : Forest)
    (hfits : ∀ header ∈ forest.classHeaders, header.labels.length + 2 ≤ options.lookbackCapacity)
    (hlines : (text ++ forest.render).count '\n' < counterMax)
    (hroom : depth + forest.render.length < counterMax) :
    (s.run forest.render).Between options (text ++ forest.render) depth
      (symbols ++ forest.symbols options.distinctInterfaces text depth) := by
  induction forest generalizing s text depth symbols with
  | nil gap =>
      obtain ⟨t, hgap, ht, hkept, hrecent⟩ := hs.atRest.read_gap gap
      rw [Forest.render, hgap, Forest.symbols, List.append_nil]
      refine ⟨ht, ?_, ?_⟩
      · rw [hrecent]
        exact hs.fresh
      · rw [hkept]
        exact hs.idle
  | classLike gap header members rest ihMembers ihRest =>
      simp only [Forest.classHeaders, List.mem_cons, List.mem_append] at hfits
      simp only [Forest.render, List.length_append, List.length_cons] at hroom
      have hall : text ++ (Forest.classLike gap header members rest).render =
          text ++ gap.text ++ header.render ++ ['{'] ++ members.render ++ ['}'] ++ rest.render := by
        simp [Forest.render]
      rw [hall] at hlines ⊢
      obtain ⟨t, ht, hheading, hreaches⟩ := hs.read_classHeader gap header
      have hheader := hfits header (.inl rfl)
      have hidle := hheading.take_terminator (Nat.le_trans hheader (Nat.le_max_left _ _))
        header.name.declared depth
      rw [ClassForm.terminator_kind, symbol_of_heldPlace] at hidle
      · have hinside := ht.open_brace (by omega) hidle
        have hmembers := ihMembers hinside (fun h hh => hfits h (.inr (.inl hh)))
          (by simp only [List.count_append] at hlines ⊢; omega) (by omega)
        have hrest := ihRest hmembers.close_brace (fun h hh => hfits h (.inr (.inr hh)))
          hlines (by omega)
        rw [Forest.render, ← List.append_assoc, run_braces hreaches]
        simpa [Forest.symbols] using hrest
      · simp only [ClassHeader.render, List.count_append] at hlines ⊢
        omega
  | function gap header body rest ihBody ihRest =>
      simp only [Forest.classHeaders, List.mem_append] at hfits
      simp only [Forest.render, List.length_append, List.length_cons] at hroom
      have hall : text ++ (Forest.function gap header body rest).render =
          text ++ gap.text ++ header.render ++ ['{'] ++ body.render ++ ['}'] ++ rest.render := by
        simp [Forest.render]
      rw [hall] at hlines ⊢
      obtain ⟨t, ht, hidle, hreaches⟩ := hs.read_functionHeader gap header
        (by simp only [FunctionHeader.render, List.count_append] at hlines ⊢; omega)
      have hinside := ht.open_brace (by omega) (hidle.take_terminator .brace depth)
      have hbody := ihBody hinside (fun h hh => hfits h (.inl hh))
        (by simp only [List.count_append] at hlines ⊢; omega) (by omega)
      have hrest := ihRest hbody.close_brace (fun h hh => hfits h (.inr hh)) hlines (by omega)
      rw [Forest.render, ← List.append_assoc, run_braces hreaches]
      simpa [Forest.symbols] using hrest
  | prototype gap header rest ih =>
      simp only [Forest.render, List.length_append, List.length_cons] at hroom
      have hall : text ++ (Forest.prototype gap header rest).render =
          text ++ gap.text ++ header.render ++ [';'] ++ rest.render := by
        simp [Forest.render]
      rw [hall] at hlines ⊢
      obtain ⟨t, ht, hidle, hreaches⟩ := hs.read_functionHeader gap header
        (by simp only [FunctionHeader.render, List.count_append] at hlines ⊢; omega)
      have hrest := ih (ht.semicolon hidle) hfits hlines (by omega)
      rw [Forest.render, ← List.append_assoc, hreaches ';' rest.render (by decide) (by decide),
        run_cons]
      simpa [Forest.symbols] using hrest

theorem run_openTag (options : ScanOptions) :
    (Scanner.start options).run openTag =
      { Scanner.start options with regions := ⟨[⟨.code, ⟨1, 4⟩⟩]⟩, position := ⟨1, 6⟩ } := by
  have hquestion : '?'.toLower = '?' := by decide
  have hp : 'p'.toLower = 'p' := by decide
  have hh : 'h'.toLower = 'h' := by decide
  have hspace : isLabelChar ' ' = false := by decide
  simp [openTag, run, step, stepColumn, stepRegion, stepPage, openTags, hquestion, hp, hh, hspace,
    Scanner.start, region, enterCode, enter, RegionStack.push, RegionStack.current, RegionStack.top,
    RegionStack.outermost, Frame.page, stepCode, stepPair?, stepPlain, isBlank, complete,
    Position.nextColumn, Position.first, satAdd, counterMax]

theorem between_openTag (options : ScanOptions) :
    ((Scanner.start options).run openTag).Between options openTag 0 [] := by
  rw [run_openTag]
  refine ⟨⟨⟨⟨1, 4⟩, rfl⟩, rfl, rfl, rfl, rfl⟩, ?_, ?_⟩
  · intro c hc
    cases hc
  · exact ⟨rfl, rfl, rfl, rfl, [], Lookback.remembers_empty options.lookbackCapacity⟩

theorem Between.report_eq (hs : s.Between options text 0 symbols) :
    s.report = ⟨symbols, none, [], (heldPlace text).line⟩ := by
  have hclose : s.close = s := by
    rw [close, if_pos hs.atRest.region, hs.atRest.complete]
  obtain ⟨place, hregions⟩ := hs.atRest.regions
  have hintents : s.intents = .empty := hs.idle.intents_eq
  have hsymbols : s.symbols = symbols := hs.idle.symbols_eq
  rw [report, hclose, hsymbols, hregions, hintents, hs.atRest.position]
  rfl

end Declarations

end Scanner

/-- **A forest of declarations is reported exactly.** Its declarations are found in order, each with
its kind, the place of its name and the number of declarations around it, and there is nothing else:
no region is open at the end and no keyword waits. -/
theorem scan_forest (options : ScanOptions) (forest : Forest)
    (hfits : ∀ header ∈ forest.classHeaders, header.labels.length + 2 ≤ options.lookbackCapacity)
    (hlength : forest.render.length < counterMax) :
    scan options (.ofList (openTag ++ forest.render)) =
      { symbols := forest.symbols options.distinctInterfaces openTag 0
        openRegion := none
        unresolved := []
        lines := (sourceLines (openTag ++ forest.render)).length } := by
  have hlines : (openTag ++ forest.render).count '\n' < counterMax := by
    have hrendered : forest.render.count '\n' ≤ forest.render.length := List.count_le_length
    have htag : openTag.count '\n' = 0 := by decide
    rw [List.count_append, htag]
    omega
  have hforest := (Scanner.between_openTag options).run_forest forest hfits hlines (by omega)
  have hline : (heldPlace (openTag ++ forest.render)).line =
      (sourceLines (openTag ++ forest.render)).length := by
    rw [length_sourceLines]
    exact Nat.min_eq_left hlines
  rw [scan, Scanner.feed, String.toList_ofList, Scanner.run_append, hforest.report_eq, hline]
  rfl

def Gap.none : Gap := ⟨[], by simp⟩

def Separator.space : Separator := ⟨⟨[' '], by simp⟩, by simp⟩

/-- A trait with one more label in its header, in it a function, and in that a function without a
body. -/
def nestedSample : Forest :=
  .classLike .none
    { form := .trait
      keyword := ['t', 'R', 'a', 'i', 't']
      spelled := by decide +kernel
      separator := ⟨⟨['\n', '\t'], by simp⟩, by simp⟩
      name := ⟨⟨['Ä'], by simp, by simp [isLabelChar], by decide +kernel⟩, by decide +kernel⟩
      labels := [(.space, ⟨['o', 'f'], by simp, by simp [isLabelChar], by decide +kernel⟩)]
      gap := .none }
    (.function ⟨['\n'], by simp⟩
      { keyword := ['f', 'u', 'n', 'c', 't', 'i', 'o', 'n']
        spelled := by decide +kernel
        separator := .space
        name := ⟨⟨['f'], by simp, by simp [isLabelChar], by decide +kernel⟩, by decide +kernel⟩
        gap := .none
        params := ['$', 'a', '(', '\n', ')']
        balanced := .char '$' (by decide) (.char 'a' (by decide)
          (.group (.char '\n' (by decide) .nil) .nil))
        result := none
        gapAfter := .none }
      (.prototype .none
        { keyword := ['F', 'u', 'n', 'c', 't', 'i', 'o', 'n']
          spelled := by decide +kernel
          separator := .space
          name := ⟨⟨['g'], by simp, by simp [isLabelChar], by decide +kernel⟩, by decide +kernel⟩
          gap := Separator.space.toGap
          params := []
          balanced := .nil
          result := some ⟨.none, .none, ⟨['i', 'n', 't'], by simp, by simp [isLabelChar], by decide +kernel⟩⟩
          gapAfter := .none }
        (.nil Separator.space.toGap))
      (.nil .none))
    (.nil .none)

theorem scan_forest_nested :
    (∀ header ∈ nestedSample.classHeaders, header.labels.length + 2 ≤ 3) ∧
      nestedSample.render.length < counterMax ∧
      String.ofList (openTag ++ nestedSample.render) =
        "<?php tRait\n\tÄ of\x7b\nfunction f($a(\n))\x7bFunction g ():int; \x7d\x7d" ∧
      scan ⟨true, 3, 1⟩ (.ofList (openTag ++ nestedSample.render)) =
        ⟨[⟨"Ä", .classDecl, 2, 1, 2, 0⟩, ⟨"f", .functionDecl, 3, 9, 10, 1⟩,
          ⟨"g", .functionDecl, 4, 12, 13, 2⟩], none, [], 4⟩ := by
  have hfits : ∀ header ∈ nestedSample.classHeaders, header.labels.length + 2 ≤ 3 := by
    simp [nestedSample, Forest.classHeaders]
  have hlength : nestedSample.render.length < counterMax := by decide
  refine ⟨hfits, hlength, by decide +kernel, ?_⟩
  rw [scan_forest ⟨true, 3, 1⟩ nestedSample hfits hlength]
  decide +kernel

end PhpOutline
