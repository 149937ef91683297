import PhpOutline.Proofs.CodeTokens
import PhpOutline.Proofs.OpaqueRegions
import PhpOutline.Proofs.OptionEffects

/-!
# Comments in the code

A block comment leaves the scanner where as many blanks would leave it, except for one thing: the slash
that begins the comment counts as a significant character, and a blank does not. What the significant
characters are good for is to tell whether an identifier can be a keyword. So the comment shows exactly
where the characters before it would have denied that to an identifier after it: behind a dollar sign,
a colon, a dash or an arrow.
-/

namespace PhpOutline

/-! ## Significant characters -/

/-- Whether an identifier that begins after the characters can be a keyword. -/
def eligibleAfter (recent : Option Char × Option Char) : Bool :=
  Identifier.isEligible ⟨[], .first, recent⟩

/-- The same identifiers can be keywords after either pair of characters, at once and one significant
character later. -/
def SameOutlook (first second : Option Char × Option Char) : Prop :=
  eligibleAfter first = eligibleAfter second ∧
    ∀ c, eligibleAfter (some c, first.1) = eligibleAfter (some c, second.1)

/-- What an identifier that is being read can still become. -/
def Identifier.reading (ident : Identifier) : List Char × Position × Bool :=
  (ident.text, ident.start, eligibleAfter ident.before)

theorem Identifier.isEligible_eq (ident : Identifier) :
    ident.isEligible = eligibleAfter ident.before := rfl

theorem SameOutlook.note {first second : Option Char × Option Char}
    (houtlook : SameOutlook first second) (c : Char) :
    SameOutlook (some c, first.1) (some c, second.1) :=
  ⟨houtlook.2 c, fun _ => rfl⟩

theorem eligibleAfter_eq_false_iff {recent : Option Char × Option Char} :
    eligibleAfter recent = false ↔ recent.1 = some '$' ∨ recent = (some ':', some ':') ∨
      recent = (some '>', some '-') := by
  obtain ⟨near, far⟩ := recent
  unfold eligibleAfter Identifier.isEligible
  split <;> simp_all

theorem eligibleAfter_some_eq_iff {c : Char} {first second : Option Char} :
    eligibleAfter (some c, first) = eligibleAfter (some c, second) ↔
      (c = ':' → (first = some ':' ↔ second = some ':')) ∧
        (c = '>' → (first = some '-' ↔ second = some '-')) := by
  have hbool : ∀ a b : Bool, a = b ↔ (a = false ↔ b = false) := by decide
  rw [hbool, eligibleAfter_eq_false_iff, eligibleAfter_eq_false_iff]
  by_cases hcolon : c = ':'
  · simp [hcolon]
  · by_cases harrow : c = '>'
    · simp [harrow]
    · simp [hcolon, harrow]

theorem sameOutlook_iff {first second : Option Char × Option Char} :
    SameOutlook first second ↔ eligibleAfter first = eligibleAfter second ∧
      (first.1 = some ':' ↔ second.1 = some ':') ∧ (first.1 = some '-' ↔ second.1 = some '-') := by
  simp only [SameOutlook, eligibleAfter_some_eq_iff]
  constructor
  · rintro ⟨hnow, hlater⟩
    exact ⟨hnow, (hlater ':').1 rfl, (hlater '>').2 rfl⟩
  · rintro ⟨hnow, hcolon, hdash⟩
    exact ⟨hnow, fun c => ⟨fun _ => hcolon, fun _ => hdash⟩⟩

/-- A slash makes a difference after a dollar sign, a colon, a dash or an arrow only. -/
theorem sameOutlook_slash_iff {recent : Option Char × Option Char} :
    SameOutlook recent (some '/', recent.1) ↔
      recent.1 ≠ some '$' ∧ recent.1 ≠ some ':' ∧ recent.1 ≠ some '-' ∧
        recent ≠ (some '>', some '-') := by
  have hslash : eligibleAfter (some '/', recent.1) = true := rfl
  rw [sameOutlook_iff, hslash, ← Bool.not_eq_false, eligibleAfter_eq_false_iff]
  obtain ⟨near, far⟩ := recent
  constructor
  · rintro ⟨hnow, hcolon, hdash⟩
    refine ⟨fun h => hnow (Or.inl h), ?_, ?_, fun h => hnow (Or.inr (Or.inr h))⟩
    · simpa using hcolon
    · simpa using hdash
  · rintro ⟨hdollar, hcolon, hdash, harrow⟩
    refine ⟨?_, by simpa using hcolon, by simpa using hdash⟩
    rintro (h | h | h)
    · exact hdollar h
    · exact hcolon (congrArg Prod.fst h)
    · exact harrow h

namespace Scanner

/-! ## Scanners with the same outlook -/

/-- The scanner `t` has other significant characters behind it than `s`, and perhaps behind the
identifier that is being read, but the same identifiers can be keywords. -/
def Alike (s t : Scanner) : Prop :=
  ∃ recent pending, t = { s with recent, pending } ∧ SameOutlook s.recent recent ∧
    pending.map Identifier.reading = s.pending.map Identifier.reading

section Alike

variable {s t : Scanner}

/-- An operation that has nothing to do with significant characters and identifiers. -/
theorem Alike.map (halike : Alike s t) (f : Scanner → Scanner)
    (hf : ∀ recent pending, f { s with recent, pending } = { f s with recent, pending })
    (hrecent : (f s).recent = s.recent) (hpending : (f s).pending = s.pending) :
    Alike (f s) (f t) := by
  obtain ⟨recent, pending, rfl, houtlook, hreading⟩ := halike
  refine ⟨recent, pending, hf recent pending, ?_, ?_⟩
  · rw [hrecent]
    exact houtlook
  · rw [hpending]
    exact hreading

theorem Alike.note (halike : Alike s t) (c : Char) : Alike (s.note c) (t.note c) := by
  obtain ⟨recent, pending, rfl, houtlook, hreading⟩ := halike
  exact ⟨(some c, recent.1), pending, rfl, houtlook.note c, hreading⟩

theorem Alike.withoutPending (halike : Alike s t) :
    Alike { s with pending := none } { t with pending := none } := by
  obtain ⟨recent, pending, rfl, houtlook, -⟩ := halike
  exact ⟨recent, none, rfl, houtlook, rfl⟩

theorem Alike.extend (halike : Alike s t) (c : Char) : Alike (s.extend c) (t.extend c) := by
  obtain ⟨recent, pending, rfl, houtlook, hreading⟩ := halike
  refine ⟨recent, _, rfl, houtlook, ?_⟩
  cases hs : s.pending with
  | none =>
      obtain rfl : pending = none := by simpa [hs] using hreading
      simp [Scanner.extend, Identifier.reading, hs, houtlook.1]
  | some ident =>
      rw [hs, Option.map_some, Option.map_eq_some_iff] at hreading
      obtain ⟨other, rfl, hsame⟩ := hreading
      simp only [Identifier.reading, Prod.mk.injEq] at hsame
      simp [Scanner.extend, Identifier.reading, hs, hsame]

theorem Alike.complete (halike : Alike s t) : Alike s.complete t.complete := by
  obtain ⟨recent, pending, rfl, houtlook, hreading⟩ := halike
  cases hs : s.pending with
  | none =>
      obtain rfl : pending = none := by simpa [hs] using hreading
      refine ⟨recent, none, ?_, ?_, ?_⟩
      · simp [Scanner.complete, hs]
      · simpa using houtlook
      · simp
  | some ident =>
      rw [hs, Option.map_some, Option.map_eq_some_iff] at hreading
      obtain ⟨other, rfl, hsame⟩ := hreading
      simp only [Identifier.reading, Prod.mk.injEq] at hsame
      obtain ⟨htext, hstart, heligible⟩ := hsame
      have hkeyword : ∀ distinctInterfaces,
          other.keywordKind? distinctInterfaces = ident.keywordKind? distinctInterfaces := by
        intro distinctInterfaces
        rw [Identifier.keywordKind?, Identifier.keywordKind?, Identifier.isEligible_eq,
          Identifier.isEligible_eq, htext, heligible]
      refine ⟨recent, none, ?_, ?_, ?_⟩
      · simp [Scanner.complete, hs, htext, hstart, hkeyword]
      · simpa using houtlook
      · simp

theorem Alike.forget (halike : Alike s t) :
    Alike { s with recent := (none, none) } { t with recent := (none, none) } := by
  obtain ⟨recent, pending, rfl, -, hreading⟩ := halike
  exact ⟨(none, none), pending, rfl, ⟨rfl, fun _ => rfl⟩, hreading⟩

theorem isParallelInPlace_alike : IsParallelInPlace Alike where
  region_eq := by rintro s _ ⟨_, _, rfl, -⟩; rfl
  tag_eq := by rintro s _ ⟨_, _, rfl, -⟩; rfl
  lead_eq := by rintro s _ ⟨_, _, rfl, -⟩; rfl
  position_eq := by rintro s _ ⟨_, _, rfl, -⟩; rfl
  withTag halike tag := halike.map ({ · with tag }) (fun _ _ => rfl) rfl rfl
  withLead halike lead := halike.map ({ · with lead }) (fun _ _ => rfl) rfl rfl
  withPosition halike position := halike.map ({ · with position }) (fun _ _ => rfl) rfl rfl
  withoutPending := Alike.withoutPending
  enter halike region := halike.map (·.enter region) (fun _ _ => rfl) rfl rfl
  enterAtLead halike region := halike.map (·.enterAtLead region) (fun _ _ => rfl) rfl rfl
  leave halike := halike.map leave (fun _ _ => rfl) rfl rfl
  replace halike region :=
    halike.map (fun s => { s with regions := s.regions.replace region }) (fun _ _ => rfl) rfl rfl
  note := Alike.note
  openBrace halike := halike.map openBrace (fun _ _ => rfl) rfl rfl
  closeBrace halike := halike.map closeBrace (fun _ _ => rfl) rfl rfl
  extend := Alike.extend
  complete := Alike.complete
  confirm halike terminator := halike.map (·.confirm terminator) (fun _ _ => rfl) rfl rfl
  cancel halike := halike.map cancel (fun _ _ => rfl) rfl rfl
  enterCode halike := halike.forget.map
    (fun s => { s.enter .code with tag := [], lead := none }) (fun _ _ => rfl) rfl rfl
  leaveCode halike := halike.complete.forget.map
    ({ · with regions := .outermost, tag := [], lead := none }) (fun _ _ => rfl) rfl rfl

theorem Alike.report_eq (halike : Alike s t) : t.report = s.report := by
  obtain ⟨recent, pending, hclose, -⟩ := isParallelInPlace_alike.close halike
  unfold report
  rw [hclose]
  rfl

end Alike

end Scanner

/-! ## A difference that shows -/

/-- A keyword that the text ends with is reported, and shows by that whether it is one. -/
theorem Recognizer.unresolved_take_label (r : Recognizer) (label : Occurrence) {kind : Kind}
    (hkind : PhpOutline.keywordKind? r.options.distinctInterfaces label.text = some kind)
    (hcapacity : 0 < r.lookback.capacity) :
    (r.take (.label label)).unresolved =
      (r.take (.label { label with eligible := false })).unresolved ++
        if label.eligible then [⟨label.text, kind, label.start⟩] else [] := by
  have hnewest : (r.lookback.push label.text label.start label.braceDepth).get? r.lookback.next =
      some ⟨r.lookback.next, label.text, label.start, label.braceDepth⟩ := by
    simp [Lookback.get?, Lookback.push, hcapacity]
  cases heligible : label.eligible with
  | false => simp [take, unresolved, Occurrence.keywordKind?, heligible]
  | true =>
      simp [take, unresolved, Occurrence.keywordKind?, heligible, hkind, IntentQueue.push, hnewest]

namespace Scanner

section Shows

variable {s t : Scanner} {text : List Char} {depth : Nat}

theorem AtRest.unresolved_class (hs : s.AtRest text depth) (hcapacity : 0 < s.lookback.capacity) :
    (s.run ['c', 'l', 'a', 's', 's']).report.unresolved =
      (s.recognizer.take (.label ⟨"class", heldPlace text, depth, false⟩)).unresolved ++
        if eligibleAfter s.recent then [⟨"class", .classDecl, heldPlace text⟩] else [] := by
  have hlabel : ∀ c ∈ ['c', 'l', 'a', 's', 's'], isLabelChar c := by simp [isLabelChar]
  obtain ⟨recent, hrun⟩ := hs.run_word (by simp) hlabel
  have hrecognizer : (s.run ['c', 'l', 'a', 's', 's']).close.recognizer =
      s.recognizer.take (.label ⟨"class", heldPlace text, depth, eligibleAfter s.recent⟩) := by
    have hregion : (s.run ['c', 'l', 'a', 's', 's']).region = .code := by
      rw [hrun]
      exact hs.region
    rw [recognizer_close, closing, if_pos hregion, hrun, ← hs.braceDepth]
    rfl
  have hkind : keywordKind? s.recognizer.options.distinctInterfaces "class" = some .classDecl := by
    simp [keywordKind?, sameWord]
  calc (s.run ['c', 'l', 'a', 's', 's']).report.unresolved
      = (s.run ['c', 'l', 'a', 's', 's']).close.recognizer.unresolved := rfl
    _ = _ := by
        rw [hrecognizer]
        exact s.recognizer.unresolved_take_label ⟨"class", heldPlace text, depth, _⟩ hkind hcapacity

theorem AtRest.eligibleAfter_eq (hs : s.AtRest text depth) (ht : t.AtRest text depth)
    (hrecognizer : t.recognizer = s.recognizer) (hcapacity : 0 < s.lookback.capacity)
    (hreports : (t.run ['c', 'l', 'a', 's', 's']).report = (s.run ['c', 'l', 'a', 's', 's']).report) :
    eligibleAfter s.recent = eligibleAfter t.recent := by
  have hlookback : t.lookback = s.lookback := congrArg Recognizer.lookback hrecognizer
  have hunresolved := congrArg Report.unresolved hreports
  rw [hs.unresolved_class hcapacity, ht.unresolved_class (by rwa [hlookback]), hrecognizer,
    List.append_cancel_left_eq] at hunresolved
  cases heligible : eligibleAfter s.recent <;> cases hother : eligibleAfter t.recent <;>
    simp_all

theorem AtRest.step_punctuation (hs : s.AtRest text depth) {c : Char} (hc : c = ':' ∨ c = '>') :
    s.step c = s.moved (some c, s.recent.1) (text ++ [c]) := by
  rw [hs.step_mark (by obtain rfl | rfl := hc <;> decide) (by obtain rfl | rfl := hc <;> decide)]
  obtain rfl | rfl := hc <;> rfl

/-- **The outlook shows.** Two scanners that differ in the significant characters behind them report
the same, whatever follows, exactly if the same identifiers can be keywords. -/
theorem AtRest.reports_eq_iff (hs : s.AtRest text depth) (hcapacity : 0 < s.lookback.capacity)
    (recent : Option Char × Option Char) :
    (∀ rest, ({ s with recent }.run rest).report = (s.run rest).report) ↔
      SameOutlook s.recent recent := by
  constructor
  · intro hreports
    have ht : ({ s with recent } : Scanner).AtRest text depth :=
      ⟨hs.regions, hs.lead, hs.pending, hs.braceDepth, hs.position⟩
    refine ⟨hs.eligibleAfter_eq ht rfl hcapacity (hreports _), fun c => ?_⟩
    -- No other character looks at the one before it.
    by_cases hc : c = ':' ∨ c = '>'
    · have hagain := hreports (c :: ['c', 'l', 'a', 's', 's'])
      rw [run_cons _ c, s.run_cons c, hs.step_punctuation hc, ht.step_punctuation hc] at hagain
      exact (hs.moved _ _).eligibleAfter_eq (ht.moved _ _) rfl hcapacity hagain
    · rw [not_or] at hc
      exact eligibleAfter_some_eq_iff.mpr ⟨fun h => absurd h hc.1, fun h => absurd h hc.2⟩
  · intro houtlook rest
    exact (isParallelInPlace_alike.run ⟨recent, s.pending, rfl, houtlook, rfl⟩ rest).report_eq

end Shows

/-! ## Blanks and comments -/

def commentText (body : List Char) : List Char := ['/', '*'] ++ body ++ ['*', '/']

def blanked (text : List Char) : List Char := List.replicate text.length ' '

section Blanks

variable {s : Scanner} {body : List Char}

/-- What begins a comment is a significant character; the scanner is then in the comment, with nothing
half read. -/
theorem run_comment_start (hregion : s.region = .code) (hlead : s.lead = none) :
    s.run ['/', '*'] = { s.complete with
      regions := s.regions.push ⟨.blockComment, s.position.nextColumn.prevColumn⟩
      recent := (some '/', s.recent.1)
      position := s.position.nextColumn.nextColumn } := by
  have hslash : s.step '/' = { s.complete with
      lead := some '/'
      recent := (some '/', s.recent.1)
      position := s.position.nextColumn } := by
    rw [step_code hregion hlead (by decide) (by decide)]
    simp [stepPlain, stepMark, note, isLabelChar, isBlank]
  have hstar : s.run ['/', '*'] = (s.step '/').step '*' := rfl
  have hcode : (s.step '/').region = .code := by
    rw [hslash, region, regions_complete]
    exact hregion
  rw [hstar, step_of_ne (by decide) (by decide), stepRegion, hcode, hslash]
  simp [stepCode, stepPair?, enterAtLead, hlead]

theorem run_comment_end (hregion : s.region = .blockComment) :
    s.leave.Within (s.run ['*', '/']) ∧ (s.run ['*', '/']).lead = none := by
  have hstar := step_star hregion
  have hinside : (s.step '*').region = .blockComment := by
    rw [hstar]
    exact hregion
  have hslash : s.run ['*', '/'] = { s.leave with
      lead := none
      position := s.position.nextColumn.nextColumn } := by
    change (s.step '*').step '/' = _
    rw [step_of_ne (by decide) (by decide), stepRegion, hinside, hstar]
    rfl
  rw [hslash]
  exact ⟨rfl, rfl⟩

theorem Within.leave {t : Scanner} (hwithin : s.Within t) : s.leave.Within t.leave :=
  congrArg Scanner.leave hwithin

/-- A comment counts as a slash. -/
theorem run_comment (hregion : s.region = .code) (hlead : s.lead = none)
    (hbody : Region.blockComment.Keeps body) :
    Within { s.complete with recent := (some '/', s.recent.1) }
        (s.run (commentText body)) ∧
      (s.run (commentText body)).lead = none := by
  have hstart := run_comment_start hregion hlead
  have hinside : (s.run ['/', '*']).region = .blockComment := by
    rw [hstart]
    rfl
  have hnone : (s.run ['/', '*']).lead = none := by
    rw [hstart]
    exact s.lead_complete.trans hlead
  have hwithin : (s.run ['/', '*']).Within (s.run (['/', '*'] ++ body)) := by
    rw [run_append]
    apply within_run ⟨Or.inr (Or.inl hinside), by rw [hstart]; simp, by simp [hinside]⟩
    rw [halfRead, hinside, hnone]
    exact hbody
  -- Leaving the comment drops its frame, and the significant slash is all that stays of it.
  have houter : Within { s.complete with recent := (some '/', s.recent.1) }
      (s.run ['/', '*']).leave := by
    rw [hstart, Within]
    simp [Scanner.leave, RegionStack.pop, RegionStack.push]
  have hend := run_comment_end (hwithin.region.trans hinside)
  rw [commentText, run_append _ (['/', '*'] ++ body)]
  exact ⟨houter.trans (hwithin.leave.trans hend.1), hend.2⟩

end Blanks

/-! ## A comment for blanks -/

section Comment

variable {options : ScanOptions} {text body : List Char}

theorem placeAfter_commentText (hline : '\n' ∉ body) (hreturn : '\r' ∉ body) :
    placeAfter (commentText body) = placeAfter (blanked (commentText body)) := by
  rw [placeAfter_of_notMem (by simp [commentText, hline]) (by simp [commentText, hreturn]),
    placeAfter_of_notMem (by simp [blanked]) (by simp [blanked]), blanked, List.length_replicate]

theorem capacity_run (options : ScanOptions) (text : List Char) :
    0 < ((start options).run text).lookback.capacity := by
  have htracks := Recognizer.tracks_takeAll options ((start options).trace text)
  rw [← recognizer_start, ← recognizer_run] at htracks
  have hcapacity : ((start options).run text).lookback.capacity = _ := htracks.capacity_eq
  omega

/-- The scanner when it is seen that nothing goes on: neither the identifier that is being read nor what
is half read. -/
def settled (s : Scanner) : Scanner := { s with lead := none }.complete

theorem settled_of_lead_eq_none {s : Scanner} (hlead : s.lead = none) : s.settled = s.complete := by
  rw [settled, lead_none_eq_self hlead]

theorem atRest_settled (hregion : ((start options).run text).region = .code) :
    ((start options).run text).settled.AtRest text ((start options).run text).braceDepth where
  regions := by
    rw [settled, regions_complete]
    exact (nested_run options text).eq_of_code hregion
  lead := lead_complete _
  pending := pending_complete _
  braceDepth := braceDepth_complete _
  position := by rw [settled, position_complete, position_run_eq_heldPlace]

theorem atRest_complete (hregion : ((start options).run text).region = .code)
    (hlead : ((start options).run text).lead = none) :
    ((start options).run text).complete.AtRest text ((start options).run text).braceDepth := by
  rw [← settled_of_lead_eq_none hlead]
  exact atRest_settled hregion

theorem run_append_blanked (hregion : ((start options).run text).region = .code)
    (hlead : ((start options).run text).lead = none) :
    (start options).run (text ++ blanked (commentText body)) =
      ((start options).run text).complete.moved ((start options).run text).recent
        (text ++ blanked (commentText body)) := by
  have hblank : ∀ c ∈ blanked (commentText body), c = ' ' ∨ c = '\t' ∨ c = '\n' :=
    fun c hc => Or.inl (List.eq_of_mem_replicate hc)
  have hgap := (atRest_complete hregion hlead).run_gap ⟨blanked (commentText body), hblank⟩
  rw [recent_complete] at hgap
  rw [run_append, ← hgap]
  -- The first blank completes the identifier that is being read.
  change (((start options).run text).step ' ').run _ =
    (((start options).run text).complete.step ' ').run _
  rw [step_complete hregion hlead (by decide) (by decide)]

theorem run_append_comment (hregion : ((start options).run text).region = .code)
    (hlead : ((start options).run text).lead = none) (hline : '\n' ∉ body) (hreturn : '\r' ∉ body)
    (hcloser : ¬['*', '/'] <:+: body) :
    (start options).run (text ++ commentText body) =
      { (start options).run (text ++ blanked (commentText body)) with
        recent := (some '/', ((start options).run text).recent.1) } := by
  have hkeeps : Region.blockComment.Keeps body := by
    have hvisible : visible body = body := visible_eq_self hreturn
    simpa [Region.Keeps, Region.closers, Region.folded, hvisible] using hcloser
  obtain ⟨hwithin, hnone⟩ := run_comment hregion hlead hkeeps
  rw [← run_append] at hwithin hnone
  have hcode : ((start options).run (text ++ commentText body)).region = .code := by
    rw [hwithin.region, region, regions_complete]
    exact hregion
  -- Off the page nothing of a tag is remembered.
  have htag : ((start options).run (text ++ commentText body)).tag =
      ((start options).run text).complete.tag := by
    rw [tag_run_of_ne_page (by simp [hcode]), tag_complete, tag_run_of_ne_page (by simp [hregion])]
  have hplace : ((start options).run (text ++ commentText body)).position =
      heldPlace (text ++ blanked (commentText body)) := by
    rw [position_run_append_congr (placeAfter_commentText hline hreturn), position_run_eq_heldPlace]
  have hheld : ((start options).run text).complete.lead = none := by rw [lead_complete, hlead]
  rw [run_append_blanked hregion hlead, hwithin, htag, hnone, hplace, ← hheld]
  rfl

end Comment

end Scanner

/-- **A comment for blanks.** Let a text end in the code with nothing half read, and let a block comment
on one line follow. It leaves the scanner in the state in which as many blanks leave it, except that it
counts as a slash. The reports agree, whatever follows, exactly if the text does not end, blanks apart,
in a dollar sign, a colon, a dash or an arrow. -/
theorem scan_comment_eq_blanks_iff (options : ScanOptions) (text body : List Char)
    (hregion : ((Scanner.start options).run text).region = .code)
    (hlead : ((Scanner.start options).run text).lead = none)
    (hline : '\n' ∉ body) (hreturn : '\r' ∉ body) (hcloser : ¬['*', '/'] <:+: body) :
    let recent := ((Scanner.start options).run text).recent
    let comment := ['/', '*'] ++ body ++ ['*', '/']
    let blanks := List.replicate comment.length ' '
    (Scanner.start options).run (text ++ comment) =
        { (Scanner.start options).run (text ++ blanks) with recent := (some '/', recent.1) } ∧
      ((∀ rest : List Char,
          scan options (.ofList (text ++ comment ++ rest)) =
            scan options (.ofList (text ++ blanks ++ rest))) ↔
        recent.1 ≠ some '$' ∧ recent.1 ≠ some ':' ∧ recent.1 ≠ some '-' ∧
          recent ≠ (some '>', some '-')) := by
  intro recent comment blanks
  have hcomment : (Scanner.start options).run (text ++ comment) =
      { (Scanner.start options).run (text ++ blanks) with recent := (some '/', recent.1) } :=
    Scanner.run_append_comment hregion hlead hline hreturn hcloser
  refine ⟨hcomment, ?_⟩
  have hblanks : (Scanner.start options).run (text ++ blanks) =
      ((Scanner.start options).run text).complete.moved recent (text ++ blanks) :=
    Scanner.run_append_blanked hregion hlead
  have hrest : ((Scanner.start options).run (text ++ blanks)).AtRest (text ++ blanks)
      ((Scanner.start options).run text).braceDepth := by
    rw [hblanks]
    exact (Scanner.atRest_complete hregion hlead).moved recent (text ++ blanks)
  have hrecent : ((Scanner.start options).run (text ++ blanks)).recent = recent := by
    rw [hblanks]
    rfl
  have hreports := hrest.reports_eq_iff (Scanner.capacity_run options _) (some '/', recent.1)
  rw [hrecent, sameOutlook_slash_iff, ← hcomment] at hreports
  simpa only [scan, Scanner.feed, String.toList_ofList, Scanner.run_append] using hreports

/-- A comment that begins and ends with more than it needs, between a keyword and its name. -/
theorem scan_comment_eq_blanks_iff_after_keyword :
    (¬['*', '/'] <:+: "/ a *".toList) ∧
      scan {} "<?php class/*/ a **/Foo \x7b" = scan {} "<?php class         Foo \x7b" := by
  have hbody : ¬['*', '/'] <:+: "/ a *".toList := by decide +kernel
  have hreports := (scan_comment_eq_blanks_iff {} "<?php class".toList "/ a *".toList
    (by decide +kernel) (by decide +kernel) (by decide) (by decide) hbody).2.mpr
    ⟨by decide +kernel, by decide +kernel, by decide +kernel, by decide +kernel⟩ "Foo \x7b".toList
  refine ⟨hbody, ?_⟩
  rwa [show String.ofList _ = "<?php class/*/ a **/Foo \x7b" by decide +kernel,
    show String.ofList _ = "<?php class         Foo \x7b" by decide +kernel] at hreports

/-- After an arrow the comment makes a keyword of what is none. -/
theorem scan_comment_after_arrow :
    ((Scanner.start {}).run "<?php $o->".toList).region = .code ∧
      ((Scanner.start {}).run "<?php $o->".toList).lead = none ∧
      (scan {} "<?php $o->/**/class Foo \x7b\x7d").symbols = [⟨"Foo", .classDecl, 1, 20, 23, 0⟩] ∧
      (scan {} "<?php $o->    class Foo \x7b\x7d").symbols = [] ∧
      scan {} "<?php $o->/**/class Foo \x7b\x7d" ≠ scan {} "<?php $o->    class Foo \x7b\x7d" := by
  decide +kernel

end PhpOutline
