import PhpOutline.Proofs.Comments

/-!
# Text between parentheses

A parenthesis in the code is a terminator. From there to its counterpart the scanner counts parentheses
and skips strings; it collects no labels, and nothing there ends or cancels a declaration. Afterwards it
is where it was before, and all it still knows of the text are the last two significant characters. The
nearer one is the parenthesis, and behind that one no identifier asks for the other.
-/

namespace PhpOutline

def parenthesized (inner : List Char) : List Char := ['('] ++ inner ++ [')']

namespace Scanner

section Parens

variable {options : ScanOptions} {s : Scanner} {text inner first second : List Char}

theorem step_paren_eq (hregion : s.region = .code) : s.step '(' = s.settled.step '(' := by
  have hpair : s.stepPair? '(' = none := by
    unfold stepPair?
    split <;> simp_all
  -- What is half read comes to nothing.
  have hlead : s.step '(' = ({ s with lead := none } : Scanner).step '(' := by
    have hnone : ({ s with lead := none } : Scanner).region = .code := hregion
    rw [step_of_ne (by decide) (by decide), step_of_ne (by decide) (by decide), stepRegion, stepRegion,
      hregion, hnone]
    simp only [stepCode, hpair, stepPair?_of_lead_eq_none]
  have hcode : ({ s with lead := none } : Scanner).region = .code := hregion
  rw [hlead, settled, ← step_complete hcode rfl (by decide) (by decide)]

/-- Up to the closing parenthesis nothing happens but what the opening one does. -/
theorem run_append_parens (hregion : ((start options).run text).region = .code)
    (hinner : Enclosed inner) :
    ∃ recent, recent.1 = some ')' ∧
      (start options).run (text ++ parenthesized inner) =
        (((start options).run text).settled.confirm .paren).moved recent (text ++ parenthesized inner) := by
  obtain ⟨recent, hlast, hrun⟩ := (atRest_settled hregion).run_parens hinner
  refine ⟨recent, hlast, ?_⟩
  calc (start options).run (text ++ parenthesized inner)
      = (((start options).run text).step '(').run (inner ++ [')']) := run_append _ text _
    _ = (((start options).run text).settled.step '(').run (inner ++ [')']) := by
        rw [step_paren_eq hregion]
    _ = (((start options).run text).settled.confirm .paren).moved recent (text ++ parenthesized inner) :=
        hrun

theorem run_append_open (hregion : ((start options).run text).region = .code) :
    (start options).run (text ++ ['(']) =
      { ((((start options).run text).settled.confirm .paren).enter (.parens 0)).note '(' with
        position := heldPlace (text ++ ['(']) } := by
  rw [run_concat, step_paren_eq hregion, (atRest_settled hregion).step_mark (by decide) (by decide)]
  rfl

theorem sameOutlook_of_paren {recent other : Option Char × Option Char} (hrecent : recent.1 = some ')')
    (hother : other.1 = some ')') : SameOutlook recent other := by
  obtain ⟨near, far⟩ := recent
  obtain ⟨near', far'⟩ := other
  obtain rfl : near = some ')' := hrecent
  obtain rfl : near' = some ')' := hother
  exact ⟨rfl, fun _ => rfl⟩

theorem alike_parens (hregion : ((start options).run text).region = .code)
    (hfirst : Enclosed first) (hsecond : Enclosed second) (hplace : placeAfter first = placeAfter second) :
    Alike ((start options).run (text ++ parenthesized first))
      ((start options).run (text ++ parenthesized second)) := by
  obtain ⟨recent, hrecent, hrun⟩ := run_append_parens hregion hfirst
  obtain ⟨other, hother, hrun'⟩ := run_append_parens hregion hsecond
  have hwhole : placeAfter (parenthesized first) = placeAfter (parenthesized second) := by
    rw [parenthesized, parenthesized, placeAfter_concat _ (by decide) (by decide),
      placeAfter_concat _ (by decide) (by decide), placeAfter_append_congr ['('] hplace]
  have hheld : heldPlace (text ++ parenthesized first) = heldPlace (text ++ parenthesized second) := by
    rw [heldPlace, heldPlace, placeAfter_append_congr text hwhole]
  rw [hrun, hrun', moved, moved, hheld]
  exact ⟨other, _, rfl, sameOutlook_of_paren hrecent hother, rfl⟩

end Parens

end Scanner

/-- **Parentheses are opaque.** Let a text end in the code, and let a parenthesis follow whose content has
balanced parentheses and, outside of strings, no braces and nothing that begins a comment or a close tag.
Up to its counterpart, symbols, intents, labels and braces stay what the opening parenthesis has made of
them; then the regions are those before it, and no identifier is being read. Two contents that end at the
same place lead to the same report, whatever follows. -/
theorem scan_parens_opaque (options : ScanOptions) (text : List Char)
    (hregion : ((Scanner.start options).run text).region = .code) :
    (∀ inner, Enclosed inner →
      let opened := (Scanner.start options).run (text ++ ['('])
      let closed := (Scanner.start options).run (text ++ parenthesized inner)
      closed.regions = ((Scanner.start options).run text).regions ∧
        closed.symbols = opened.symbols ∧ closed.intents = opened.intents ∧
        closed.lookback = opened.lookback ∧ closed.braceDepth = opened.braceDepth ∧
        closed.pending = none) ∧
      ∀ first second, Enclosed first → Enclosed second → placeAfter first = placeAfter second →
        ∀ rest : List Char,
          scan options (.ofList (text ++ parenthesized first ++ rest)) =
            scan options (.ofList (text ++ parenthesized second ++ rest)) := by
  constructor
  · intro inner hinner opened closed
    obtain ⟨recent, -, hclosed⟩ := Scanner.run_append_parens hregion hinner
    have hregions : ((Scanner.start options).run text).settled.regions =
        ((Scanner.start options).run text).regions := Scanner.regions_complete _
    rw [show closed = _ from hclosed, show opened = _ from Scanner.run_append_open hregion]
    exact ⟨hregions, rfl, rfl, rfl, rfl, Scanner.pending_complete _⟩
  · intro first second hfirst hsecond hplace rest
    have halike := Scanner.alike_parens hregion hfirst hsecond hplace
    simp only [scan, Scanner.feed, String.toList_ofList]
    rw [Scanner.run_append _ (text ++ parenthesized first),
      Scanner.run_append _ (text ++ parenthesized second)]
    exact (Scanner.isParallelInPlace_alike.run halike rest).report_eq.symm

/-- While a class waits for its brace, the parameters of a function hold parentheses, a brace and a
semicolon in strings. -/
theorem scan_parens_opaque_strings :
    ((Scanner.start {}).run "<?php class A function f".toList).region = .code ∧
      Enclosed "\")\x7b\", ($a)".toList ∧ Enclosed "'class B;'".toList ∧
      ((Scanner.start {}).run "<?php class A function f(\")\x7b\", ($a))".toList).intents =
        ⟨[⟨.classDecl, 0⟩]⟩ ∧
      scan {} "<?php class A function f(\")\x7b\", ($a)) \x7b" =
        scan {} "<?php class A function f('class B;') \x7b" := by
  have hregion : ((Scanner.start {}).run "<?php class A function f".toList).region = .code := by
    decide +kernel
  have hgroup : Enclosed "($a)".toList :=
    .group (.char '$' (by decide) (.char 'a' (by decide) .nil)) .nil
  have hfirst : Enclosed "\")\x7b\", ($a)".toList :=
    .quoted '"' (Or.inl rfl) (show '"' ∉ [')', '\x7b'] by decide)
      (.char ',' (by decide) (.char ' ' (by decide) hgroup))
  have hsecond : Enclosed "'class B;'".toList :=
    .quoted '\'' (Or.inr rfl) (show '\'' ∉ "class B;".toList by decide) .nil
  obtain ⟨hinner, hreports⟩ := scan_parens_opaque {} "<?php class A function f".toList hregion
  refine ⟨hregion, hfirst, hsecond, ?_, ?_⟩
  · exact (hinner _ hfirst).2.2.1.trans (by decide +kernel)
  · have hscan := hreports _ _ hfirst hsecond (by decide +kernel) " \x7b".toList
    rwa [show String.ofList _ = "<?php class A function f(\")\x7b\", ($a)) \x7b" by decide +kernel,
      show String.ofList _ = "<?php class A function f('class B;') \x7b" by decide +kernel] at hscan

end PhpOutline
