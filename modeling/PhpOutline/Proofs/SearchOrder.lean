import Mathlib.Data.List.Count
import Mathlib.Data.List.Infix
import Mathlib.Data.List.Nodup
import PhpOutline.Proofs.SymbolSearch

/-!
# Search results and the order of the entries

The entries of an index come in any order, and a search gathers the matches in that order before it
sorts them. Entries of different files are told apart by their URI, and matches of one file that sort
alike keep the order of the file. So what stands at each place of the result is known from the files
alone, and the order of the entries has no part in it.
-/

namespace PhpOutline

/-! ## Sorted lists -/

section Sorted

variable {α κ : Type} [DecidableEq κ] {le : α → α → Prop} {key : α → κ}

theorem mem_iff_of_filter_eq {first second : List α}
    (hfilter : ∀ k, first.filter (key · = k) = second.filter (key · = k)) (a : α) :
    a ∈ first ↔ a ∈ second := by
  have hiff : a ∈ first.filter (key · = key a) ↔ a ∈ second.filter (key · = key a) := by rw [hfilter]
  simpa using hiff

/-- A sorted list is known from the elements under each key, in their order. -/
theorem eq_of_pairwise_of_filter_eq (hkey : ∀ a b, le a b → le b a → key a = key b)
    {first second : List α} (hfirst : first.Pairwise le) (hsecond : second.Pairwise le)
    (hfilter : ∀ k, first.filter (key · = k) = second.filter (key · = k)) : first = second := by
  have hmem := mem_iff_of_filter_eq hfilter
  induction first generalizing second with
  | nil => exact (List.eq_nil_iff_forall_not_mem.mpr fun a ha => by simpa using (hmem a).mpr ha).symm
  | cons a rest ih =>
      cases second with
      | nil => exact absurd ((hmem a).mp List.mem_cons_self) List.not_mem_nil
      | cons b others =>
          obtain ⟨hleast, hrest⟩ := List.pairwise_cons.mp hfirst
          obtain ⟨hleast', hothers⟩ := List.pairwise_cons.mp hsecond
          -- Each of the two heads comes before the other one, unless they are the same.
          have hsame : key a = key b := by
            obtain heq | hb := List.mem_cons.mp ((hmem b).mpr List.mem_cons_self)
            · rw [heq]
            · obtain heq | ha := List.mem_cons.mp ((hmem a).mp List.mem_cons_self)
              · rw [heq]
              · exact hkey a b (hleast b hb) (hleast' a ha)
          have hheads := hfilter (key a)
          rw [List.filter_cons_of_pos (by simp), List.filter_cons_of_pos (by simp [hsame])] at hheads
          obtain ⟨rfl, -⟩ := List.cons.inj hheads
          have htails : ∀ k, rest.filter (key · = k) = others.filter (key · = k) := by
            intro k
            have hboth := hfilter k
            by_cases hk : key a = k
            · rw [List.filter_cons_of_pos (by simp [hk]), List.filter_cons_of_pos (by simp [hk])] at hboth
              exact (List.cons.inj hboth).2
            · rwa [List.filter_cons_of_neg (by simp [hk]), List.filter_cons_of_neg (by simp [hk])] at hboth
          exact congrArg (a :: ·) (ih hrest hothers htails (mem_iff_of_filter_eq htails))

end Sorted

namespace UriMap

variable {α : Type} {map other : UriMap α}

theorem DistinctUris.mem_entries_iff (hdistinct : map.DistinctUris) {uri : String} {value : α} :
    (uri, value) ∈ map.entries ↔ map.get? uri = some value := by
  have hfilter : (uri, value) ∈ map.entries ↔ (uri, value) ∈ map.entries.filter (·.1 == uri) := by
    simp
  rw [hfilter, hdistinct.filter_entries]
  cases map.get? uri <;> simp [eq_comm]

theorem DistinctUris.of_perm (hdistinct : map.DistinctUris) (hperm : other.entries.Perm map.entries) :
    other.DistinctUris :=
  (hperm.map Prod.fst).nodup_iff.mpr hdistinct

/-- The entries are known up to their order from what look-ups find. -/
theorem DistinctUris.perm_iff (hdistinct : map.DistinctUris) (hother : other.DistinctUris) :
    other.entries.Perm map.entries ↔ ∀ uri, other.get? uri = map.get? uri := by
  have hentries : map.entries.Nodup := List.Nodup.of_map _ hdistinct
  have hothers : other.entries.Nodup := List.Nodup.of_map _ hother
  rw [List.perm_ext_iff_of_nodup hothers hentries]
  constructor
  · intro hmem uri
    refine Option.ext fun value => ?_
    rw [← hother.mem_entries_iff, ← hdistinct.mem_entries_iff, hmem]
  · rintro hget ⟨uri, value⟩
    rw [hother.mem_entries_iff, hdistinct.mem_entries_iff, hget]

end UriMap

/-! ## What a search finds -/

/-- What search results are sorted by. -/
def Hit.place (hit : Hit) : String × Nat × Nat := (hit.uri, hit.symbol.line, hit.symbol.startColumn)

theorem Hit.place_eq_of_le {a b : Hit} (hab : a.le b) (hba : b.le a) : a.place = b.place := by
  rw [le_iff] at hab hba
  obtain huri | ⟨huri, hplace⟩ := hab
  · obtain huri' | ⟨huri', -⟩ := hba
    · exact absurd (String.lt_trans huri huri') (String.lt_irrefl _)
    · exact absurd (huri' ▸ huri) (String.lt_irrefl _)
  · have hback : b.symbol.line < a.symbol.line ∨
        (b.symbol.line = a.symbol.line ∧ b.symbol.startColumn ≤ a.symbol.startColumn) :=
      (hba.resolve_left (huri ▸ String.lt_irrefl _)).2
    simp only [place, Prod.mk.injEq]
    exact ⟨huri, by omega, by omega⟩

theorem Hit.le_of_place_eq {a b : Hit} (hplace : a.place = b.place) : a.le b := by
  simp only [place, Prod.mk.injEq] at hplace
  obtain ⟨huri, hline, hcolumn⟩ := hplace
  exact le_iff.mpr (Or.inr ⟨huri, Or.inr ⟨hline, Nat.le_of_eq hcolumn⟩⟩)

theorem Symbol.matchesQuery_iff {symbol : Symbol} {query : String} :
    symbol.matchesQuery query ↔ lowercase query.toList <:+: lowercase symbol.name.toList :=
  occursIn_iff

namespace SymbolIndex

variable {index other : SymbolIndex}

theorem pairwise_search (index : SymbolIndex) (query : String) :
    (index.search query).Pairwise (Hit.le · ·) :=
  List.pairwise_mergeSort Hit.le_trans Hit.le_total _

/-- What a file has at a place that matches a query. -/
def matchesAt (index : SymbolIndex) (query uri : String) (line column : Nat) : List Symbol :=
  ((index.get? uri).getD []).filter fun symbol =>
    lowercase query.toList <:+: lowercase symbol.name.toList ∧
      symbol.line = line ∧ symbol.startColumn = column

theorem filter_hits_place (hdistinct : index.DistinctUris) (query uri : String) (line column : Nat) :
    (index.hits.filter (·.symbol.matchesQuery query)).filter (·.place = (uri, line, column)) =
      (index.matchesAt query uri line column).map (⟨uri, ·⟩) := by
  have hsplit : ∀ hit : Hit, (decide (hit.place = (uri, line, column)) && hit.symbol.matchesQuery query) =
      (decide (lowercase query.toList <:+: lowercase hit.symbol.name.toList ∧
        hit.symbol.line = line ∧ hit.symbol.startColumn = column) && (hit.uri == uri)) := by
    intro hit
    rw [Bool.eq_iff_iff]
    simp only [Hit.place, Prod.mk.injEq, Bool.and_eq_true, decide_eq_true_eq, beq_iff_eq,
      Symbol.matchesQuery_iff]
    tauto
  rw [List.filter_filter, List.filter_congr fun hit _ => hsplit hit, ← List.filter_filter,
    filter_hits hdistinct, List.filter_map]
  rfl

/-- At each place a search finds what the file has there, in the order of the file. -/
theorem filter_search_place (hdistinct : index.DistinctUris) (query uri : String) (line column : Nat) :
    (index.search query).filter (·.place = (uri, line, column)) =
      (index.matchesAt query uri line column).map (⟨uri, ·⟩) := by
  have hsame : ((index.matchesAt query uri line column).map (Hit.mk uri)).Pairwise (Hit.le · ·) := by
    refine List.pairwise_of_forall_mem_list fun a ha b hb => Hit.le_of_place_eq ?_
    rw [← filter_hits_place hdistinct] at ha hb
    rw [of_decide_eq_true (List.mem_filter.mp ha).2, of_decide_eq_true (List.mem_filter.mp hb).2]
  rw [search, filter_mergeSort Hit.le_trans Hit.le_total, filter_hits_place hdistinct,
    List.mergeSort_of_pairwise hsame]

theorem count_search (hdistinct : index.DistinctUris) (query : String) (hit : Hit) :
    (index.search query).count hit =
      if lowercase query.toList <:+: lowercase hit.symbol.name.toList then
        ((index.get? hit.uri).getD []).count hit.symbol
      else 0 := by
  obtain ⟨uri, symbol⟩ := hit
  have hplace : (index.search query).count ⟨uri, symbol⟩ =
      ((index.search query).filter (·.place = (uri, symbol.line, symbol.startColumn))).count
        ⟨uri, symbol⟩ := (List.count_filter (by simp [Hit.place])).symm
  have hinjective : Function.Injective (Hit.mk uri) := fun a b hab => (Hit.mk.inj hab).2
  rw [hplace, filter_search_place hdistinct, List.count_map_of_injective _ _ hinjective, matchesAt]
  by_cases hmatches : lowercase query.toList <:+: lowercase symbol.name.toList
  · rw [if_pos hmatches, List.count_filter (by simp [hmatches])]
  · rw [if_neg hmatches, List.count_eq_zero]
    intro hmem
    exact hmatches (of_decide_eq_true (List.mem_filter.mp hmem).2).1

theorem search_congr (hdistinct : index.DistinctUris) (hother : other.DistinctUris)
    (hget : ∀ uri, other.get? uri = index.get? uri) (query : String) :
    other.search query = index.search query := by
  have hplace : ∀ place, (other.search query).filter (·.place = place) =
      (index.search query).filter (·.place = place) := by
    rintro ⟨uri, line, column⟩
    rw [filter_search_place hother, filter_search_place hdistinct, matchesAt, matchesAt, hget]
  have hkey : ∀ a b : Hit, a.le b → b.le a → a.place = b.place := fun _ _ => Hit.place_eq_of_le
  exact eq_of_pairwise_of_filter_eq hkey (other.pairwise_search query) (index.pairwise_search query)
    hplace

theorem length_search_empty (index : SymbolIndex) : (index.search "").length = index.symbolCount := by
  have hnil : lowercase "".toList = [] := rfl
  have hall : index.hits.filter (·.symbol.matchesQuery "") = index.hits := by
    refine List.filter_eq_self.mpr fun hit _ => ?_
    rw [Symbol.matchesQuery_iff, hnil]
    exact List.nil_infix
  rw [search, List.length_mergeSort, hall, symbolCount]

theorem search_of_perm (hdistinct : index.DistinctUris) (hperm : other.entries.Perm index.entries)
    (query : String) : other.search query = index.search query :=
  have hother := hdistinct.of_perm hperm
  search_congr hdistinct hother ((hdistinct.perm_iff hother).mp hperm) query

end SymbolIndex

/-! ## Histories of an index -/

/-- A file is scanned, or its symbols are dropped. -/
inductive IndexChange where
  | update (uri : String) (symbols : List Symbol)
  | remove (uri : String)
deriving DecidableEq, Repr

def IndexChange.apply (index : SymbolIndex) : IndexChange → SymbolIndex
  | update uri symbols => index.insert uri symbols
  | remove uri => index.erase uri

/-- An index after some changes, empty to begin with. -/
def SymbolIndex.after (changes : List IndexChange) : SymbolIndex :=
  changes.foldl IndexChange.apply .empty

theorem SymbolIndex.distinctUris_after (changes : List IndexChange) : (after changes).DistinctUris := by
  induction changes using List.reverseRecOn with
  | nil => exact UriMap.distinctUris_empty
  | append_singleton changes change ih =>
      rw [after, List.foldl_concat]
      cases change with
      | update uri symbols => exact ih.insert uri symbols
      | remove uri => exact ih.erase uri

/-- **Search results.** In any index with one entry for each URI, a search finds the symbols whose names
contain the query, both in lower case, each as often as the file has it; they are sorted by URI, line and
column, and those at the same place are in the order of the file. The order of the entries does not matter:
indexes that hold the same for each URI, whatever changes have led to them and however their entries are
listed, have the same search results and the same numbers of files and symbols. The empty query finds all
symbols. -/
theorem SymbolIndex.search_exact :
    (∀ index : SymbolIndex, index.DistinctUris → ∀ query : String,
      (∀ listed : SymbolIndex, listed.entries.Perm index.entries →
        listed.search query = index.search query) ∧
      (∀ hit, (index.search query).count hit =
        if lowercase query.toList <:+: lowercase hit.symbol.name.toList then
          ((index.get? hit.uri).getD []).count hit.symbol
        else 0) ∧
      (index.search query).Pairwise (fun a b => a.uri < b.uri ∨ (a.uri = b.uri ∧
        (a.symbol.line < b.symbol.line ∨
          (a.symbol.line = b.symbol.line ∧ a.symbol.startColumn ≤ b.symbol.startColumn)))) ∧
      (∀ uri line column,
        (index.search query).filter (fun hit => hit.uri = uri ∧ hit.symbol.line = line ∧
            hit.symbol.startColumn = column) =
          (((index.get? uri).getD []).filter fun symbol =>
            lowercase query.toList <:+: lowercase symbol.name.toList ∧
              symbol.line = line ∧ symbol.startColumn = column).map (⟨uri, ·⟩)) ∧
      (index.search "").length = index.symbolCount) ∧
    ∀ first second : List IndexChange,
      (∀ uri, (after first).get? uri = (after second).get? uri) →
        ∀ listed listed' : SymbolIndex, listed.entries.Perm (after first).entries →
          listed'.entries.Perm (after second).entries →
            (∀ query, listed.search query = listed'.search query) ∧ listed.size = listed'.size ∧
              listed.symbolCount = listed'.symbolCount := by
  constructor
  · intro index hdistinct query
    refine ⟨fun listed hperm => search_of_perm hdistinct hperm query, count_search hdistinct query, ?_, ?_,
      index.length_search_empty⟩
    · exact (index.pairwise_search query).imp Hit.le_iff.mp
    · intro uri line column
      rw [← matchesAt, ← filter_search_place hdistinct]
      exact List.filter_congr fun hit _ => by simp [Hit.place]
  · intro first second hget listed listed' hlisted hlisted'
    have hfirst := distinctUris_after first
    have hsecond := distinctUris_after second
    have hperm : (after first).entries.Perm (after second).entries :=
      (hsecond.perm_iff hfirst).mpr hget
    -- Each of the two listings holds what the second history leaves.
    have hdistinct : listed'.DistinctUris := hsecond.of_perm hlisted'
    have hall : listed.entries.Perm listed'.entries := (hlisted.trans hperm).trans hlisted'.symm
    refine ⟨search_of_perm hdistinct hall, hall.length_eq, ?_⟩
    calc listed.symbolCount = (listed.search "").length := listed.length_search_empty.symm
      _ = (listed'.search "").length := by rw [search_of_perm hdistinct hall]
      _ = listed'.symbolCount := listed'.length_search_empty

/-- Two symbols at one place, one that stands before them, and a file that is dropped again. -/
def scannedOnce : List IndexChange :=
  [.update "file:///a.php" [⟨"User", .classDecl, 3, 6, 10, 0⟩, ⟨"superuser", .functionDecl, 3, 6, 15, 0⟩,
      ⟨"USERS", .interfaceDecl, 1, 10, 15, 0⟩],
    .update "file:///c.php" [⟨"User", .classDecl, 1, 12, 16, 0⟩],
    .update "file:///b.php" [⟨"Group", .classDecl, 1, 12, 17, 0⟩],
    .remove "file:///c.php"]

/-- The same files in the other order, one of them with other symbols at first. -/
def scannedAgain : List IndexChange :=
  [.update "file:///b.php" [⟨"Group", .classDecl, 1, 12, 17, 0⟩],
    .update "file:///a.php" [⟨"User", .classDecl, 3, 6, 10, 0⟩],
    .update "file:///a.php" [⟨"User", .classDecl, 3, 6, 10, 0⟩, ⟨"superuser", .functionDecl, 3, 6, 15, 0⟩,
      ⟨"USERS", .interfaceDecl, 1, 10, 15, 0⟩]]

theorem SymbolIndex.search_exact_scanned_again :
    (after scannedAgain).entries ≠ (after scannedOnce).entries ∧
      (∀ uri, (after scannedAgain).get? uri = (after scannedOnce).get? uri) ∧
      (∀ query, (after scannedAgain).search query = (after scannedOnce).search query) ∧
      ((after scannedOnce).search "uSER").filter (fun hit => hit.uri = "file:///a.php" ∧
          hit.symbol.line = 3 ∧ hit.symbol.startColumn = 6) =
        [⟨"file:///a.php", ⟨"User", .classDecl, 3, 6, 10, 0⟩⟩,
          ⟨"file:///a.php", ⟨"superuser", .functionDecl, 3, 6, 15, 0⟩⟩] := by
  have hget : ∀ uri, (after scannedAgain).get? uri = (after scannedOnce).get? uri :=
    ((distinctUris_after scannedOnce).perm_iff (distinctUris_after scannedAgain)).mp (by decide +kernel)
  have hfind := (search_exact.1 (after scannedOnce) (distinctUris_after scannedOnce) "uSER").2.2.2.1
    "file:///a.php" 3 6
  refine ⟨by decide +kernel, hget, ?_, hfind.trans (by decide +kernel)⟩
  exact (search_exact.2 scannedAgain scannedOnce hget _ _ (List.Perm.refl _) (List.Perm.refl _)).1

end PhpOutline
