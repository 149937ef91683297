import Mathlib.Data.List.Basic
import PhpOutline.Session.Answer

/-!
# The cap on search results

A search of the workspace is cut to as many matches as the configuration allows, and only then are
matches left out whose file has no well-formed URI. Those that are left out have used up room for
others, so the answer can be shorter than the cap though there are more matches to show. All this holds
for any condition on URIs in the place of well-formedness.
-/

namespace PhpOutline

/-! ## Cutting a list before some of it is left out -/

section Lists

variable {α : Type} (p : α → Bool) (items : List α) (n : Nat)

theorem filter_take_eq_take_filter :
    (items.take n).filter p = (items.filter p).take ((items.take n).countP p) := by
  have hbegins : (items.take n).filter p <+: items.filter p := (List.take_prefix n items).filter p
  rw [List.countP_eq_length_filter]
  exact List.prefix_iff_eq_take.mp hbegins

/-- What is missing: one item from beyond the cut for each one left out before it. -/
theorem take_filter_eq_append :
    (items.filter p).take n =
      (items.take n).filter p ++ ((items.drop n).filter p).take ((items.take n).countP (!p ·)) := by
  have hlength : ((items.take n).filter p).length ≤ n :=
    Nat.le_trans (List.length_filter_le _ _) (List.length_take_le _ _)
  have hsplit : (items.filter p).take n = (items.take n).filter p ++
      ((items.drop n).filter p).take (n - ((items.take n).filter p).length) := by
    calc (items.filter p).take n
        = ((items.take n).filter p ++ (items.drop n).filter p).take n := by
          rw [← List.filter_append, List.take_append_drop]
      _ = _ := by rw [List.take_append, List.take_of_length_le hlength]
  obtain hshort | hlong := Nat.le_total items.length n
  · rw [hsplit, List.drop_eq_nil_of_le hshort, List.filter_nil, List.take_nil, List.take_nil]
  · have hcount : (items.take n).countP p + (items.take n).countP (!p ·) = n := by
      have htotal := List.length_eq_countP_add_countP p (l := items.take n)
      rw [List.length_take_of_le hlong] at htotal
      simpa using htotal.symm
    have hroom : n - ((items.take n).filter p).length = (items.take n).countP (!p ·) := by
      rw [← List.countP_eq_length_filter]
      omega
    rw [hsplit, hroom]

theorem filter_take_eq_iff :
    (items.take n).filter p = (items.filter p).take n ↔
      (∀ item ∈ items.take n, p item) ∨ ∀ item ∈ items.drop n, ¬p item := by
  rw [take_filter_eq_append, List.self_eq_append_right, List.take_eq_nil_iff, List.countP_eq_zero,
    List.filter_eq_nil_iff]
  simp

end Lists

namespace Session

section Shown

variable (session : Session) (isShown : String → Bool) (query : String)

/-- All matches of a query in files whose URI is shown, in the order of search results. -/
def allMatches : List Listing :=
  ((session.index.search query).filter (isShown ·.uri)).map fun hit => session.listing hit.uri hit.symbol

variable {query}

theorem firstMatches_eq_take (hquery : query ≠ "") :
    session.firstMatches isShown query = (session.allMatches isShown query).take
      (((session.index.search query).take session.config.maxWorkspaceSymbols).countP (isShown ·.uri)) := by
  rw [firstMatches, if_neg hquery, allMatches, ← List.map_take, filter_take_eq_take_filter]

theorem take_allMatches_eq_append (hquery : query ≠ "") :
    let hits := session.index.search query
    let cap := session.config.maxWorkspaceSymbols
    (session.allMatches isShown query).take cap = session.firstMatches isShown query ++
      (((hits.drop cap).filter (isShown ·.uri)).take ((hits.take cap).countP (!isShown ·.uri))).map
        (fun hit => session.listing hit.uri hit.symbol) := by
  intro hits cap
  rw [firstMatches, if_neg hquery, allMatches, ← List.map_take, take_filter_eq_append, List.map_append]

theorem firstMatches_eq_take_cap_iff (hquery : query ≠ "") :
    let hits := session.index.search query
    let cap := session.config.maxWorkspaceSymbols
    session.firstMatches isShown query = (session.allMatches isShown query).take cap ↔
      (∀ hit ∈ hits.take cap, isShown hit.uri) ∨ ∀ hit ∈ hits.drop cap, ¬isShown hit.uri := by
  intro hits cap
  rw [← filter_take_eq_iff, take_filter_eq_append, session.take_allMatches_eq_append isShown hquery,
    List.self_eq_append_right, List.self_eq_append_right, List.map_eq_nil_iff]

end Shown

/-- The matches of a query that can be shown: those in files with a well-formed URI. -/
def shownMatches (session : Session) (query : String) : List Listing :=
  session.allMatches Uri.isValid query

/-- **The cap counts matches, not answers.** The answer to a query that is not empty consists of the
first of the matches that can be shown: as many of them as there are among the first matches of any
kind, up to the cap. What it lacks of as many as the cap allows are the next ones, one for each match
that was left out. So it lacks nothing exactly if every match up to the cap can be shown, or none
beyond it. -/
theorem workspaceSymbols_eq_take_iff (session : Session) (query : String) (hquery : query ≠ "") :
    let hits := session.index.search query
    let cap := session.config.maxWorkspaceSymbols
    session.workspaceSymbols query =
        (session.shownMatches query).take ((hits.take cap).countP (Uri.isValid ·.uri)) ∧
      (session.shownMatches query).take cap = session.workspaceSymbols query ++
        (((hits.drop cap).filter (Uri.isValid ·.uri)).take
          ((hits.take cap).countP (!Uri.isValid ·.uri))).map
            (fun hit => session.listing hit.uri hit.symbol) ∧
      (session.workspaceSymbols query = (session.shownMatches query).take cap ↔
        (∀ hit ∈ hits.take cap, Uri.isValid hit.uri) ∨ ∀ hit ∈ hits.drop cap, ¬Uri.isValid hit.uri) := by
  intro hits cap
  refine ⟨?_, ?_, ?_⟩
  · exact session.firstMatches_eq_take Uri.isValid hquery
  · exact session.take_allMatches_eq_append Uri.isValid hquery
  · exact session.firstMatches_eq_take_cap_iff Uri.isValid hquery

/-- A symbol at the start of a file. -/
def sharedSymbol : Symbol := ⟨"Foo", .classDecl, 1, 12, 15, 0⟩

/-- A session that gives two results, and three files with the same symbol in them. The path of the
first one has a blank in it. -/
def threeFiles : Session :=
  { Session.start with
    config := { maxWorkspaceSymbols := 2 }
    index := ⟨["/a b.php", "/c.php", "/d.php"].map fun path => (Uri.ofPath path, [sharedSymbol])⟩ }

theorem search_threeFiles :
    threeFiles.index.search "foo" =
      ["file:///a b.php", "file:///c.php", "file:///d.php"].map (⟨·, sharedSymbol⟩) := by
  have hmatches : threeFiles.index.hits.filter (·.symbol.matchesQuery "foo") =
      ["file:///a b.php", "file:///c.php", "file:///d.php"].map (⟨·, sharedSymbol⟩) := by
    decide +kernel
  rw [SymbolIndex.search, hmatches, List.mergeSort_of_pairwise (by decide +kernel)]

theorem workspaceSymbols_eq_take_iff_one_left_out :
    (threeFiles.shownMatches "foo").take 2 =
      threeFiles.workspaceSymbols "foo" ++ [threeFiles.listing "file:///d.php" sharedSymbol] := by
  obtain ⟨-, hmissing, -⟩ := workspaceSymbols_eq_take_iff threeFiles "foo" (by decide)
  rw [search_threeFiles] at hmissing
  exact hmissing.trans (congrArg _ (by decide +kernel))

/-- With room for two, one of two matches that can be shown is left out. -/
theorem workspaceSymbols_after_unshown_match :
    threeFiles.config.maxWorkspaceSymbols = 2 ∧
      threeFiles.shownMatches "foo" =
        ["file:///c.php", "file:///d.php"].map (threeFiles.listing · sharedSymbol) ∧
      threeFiles.workspaceSymbols "foo" = [threeFiles.listing "file:///c.php" sharedSymbol] := by
  refine ⟨rfl, ?_, ?_⟩
  · rw [shownMatches, allMatches, search_threeFiles]
    decide +kernel
  · rw [workspaceSymbols, firstMatches, search_threeFiles]
    decide +kernel

end Session

end PhpOutline
