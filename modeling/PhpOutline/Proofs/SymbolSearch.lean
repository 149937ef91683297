import PhpOutline.Proofs.SessionCoherence

/-!
# Searching the symbols of an open document

A search goes through the symbols of all files at once and sorts what it finds by URI first. What it
finds in one file is what the file alone would give: a stable sort does not mind what else is sorted
along, and the index has one entry for each URI. For an open document that entry is the scan of its text,
so the search finds there what the document lists, sorted by line and column.
-/

namespace PhpOutline

/-! ## Stable sorting -/

section Sorting

variable {α : Type} {le : α → α → Bool}

/-- There is at most one way to cut a list where a property begins to hold. -/
theorem eq_of_append_eq_append {p : α → Bool} {first rest first' rest' : List α}
    (happend : first ++ rest = first' ++ rest')
    (hfirst : ∀ a ∈ first, ¬p a) (hrest : ∀ a ∈ rest, p a)
    (hfirst' : ∀ a ∈ first', ¬p a) (hrest' : ∀ a ∈ rest', p a) : first = first' ∧ rest = rest' := by
  have hcut : ∀ {before after : List α}, (∀ a ∈ before, ¬p a) → (∀ a ∈ after, p a) →
      (before ++ after).filter (!p ·) = before := by
    intro before after hbefore hafter
    have hall : before.filter (!p ·) = before := by simpa using hbefore
    have hnone : after.filter (!p ·) = [] := by simpa using hafter
    rw [List.filter_append, hall, hnone, List.append_nil]
  have hsame : first = first' := by
    rw [← hcut hfirst hrest, happend, hcut hfirst' hrest']
  subst hsame
  exact ⟨rfl, List.append_cancel_left happend⟩

variable (htrans : ∀ a b c, le a b → le b c → le a c) (htotal : ∀ a b, le a b || le b a)
include htrans htotal

/-- The first element of a list goes before all that are not less than it, and after all others. -/
theorem exists_mergeSort_cons (a : α) (items : List α) :
    ∃ before after, (a :: items).mergeSort le = before ++ a :: after ∧
      items.mergeSort le = before ++ after ∧ (∀ b ∈ before, ¬le a b) ∧ ∀ b ∈ after, le a b := by
  obtain ⟨before, after, hcons, hitems, hbefore⟩ := List.mergeSort_cons htrans htotal a items
  refine ⟨before, after, hcons, hitems, fun b hb => by simpa using hbefore b hb, ?_⟩
  have hsorted := List.pairwise_mergeSort htrans htotal (a :: items)
  rw [hcons] at hsorted
  exact (List.pairwise_cons.mp (List.pairwise_append.mp hsorted).2.1).1

/-- Leaving elements out before or after a stable sort is the same. -/
theorem filter_mergeSort (p : α → Bool) (items : List α) :
    (items.mergeSort le).filter p = (items.filter p).mergeSort le := by
  induction items with
  | nil => simp
  | cons a items ih =>
      obtain ⟨before, after, hcons, hitems, hbefore, hafter⟩ :=
        exists_mergeSort_cons htrans htotal a items
      rw [hitems, List.filter_append] at ih
      rw [hcons, List.filter_append]
      by_cases ha : p a
      -- With or without the other elements, the cut is where those begin that are not less than `a`.
      · obtain ⟨before', after', hcons', hitems', hbefore', hafter'⟩ :=
          exists_mergeSort_cons htrans htotal a (items.filter p)
        obtain ⟨hfirst, hrest⟩ := eq_of_append_eq_append (ih.trans hitems')
          (fun b hb => hbefore b (List.mem_of_mem_filter hb))
          (fun b hb => hafter b (List.mem_of_mem_filter hb)) hbefore' hafter'
        rw [List.filter_cons_of_pos ha, List.filter_cons_of_pos ha, hcons', hfirst, hrest]
      · rw [List.filter_cons_of_neg ha, List.filter_cons_of_neg ha, ih]

end Sorting

theorem Hit.le_iff {a b : Hit} :
    a.le b ↔ a.uri < b.uri ∨ (a.uri = b.uri ∧ (a.symbol.line < b.symbol.line ∨
      (a.symbol.line = b.symbol.line ∧ a.symbol.startColumn ≤ b.symbol.startColumn))) := by
  simp [Hit.le]

theorem Hit.le_trans (a b c : Hit) (hab : a.le b) (hbc : b.le c) : a.le c := by
  rw [le_iff] at hab hbc ⊢
  obtain huri | ⟨huri, hplace⟩ := hab
  · obtain hnext | ⟨hnext, -⟩ := hbc
    · exact Or.inl (String.lt_trans huri hnext)
    · exact Or.inl (hnext ▸ huri)
  · obtain hnext | ⟨hnext, hlater⟩ := hbc
    · exact Or.inl (huri ▸ hnext)
    · exact Or.inr ⟨huri.trans hnext, by omega⟩

theorem Hit.le_total (a b : Hit) : a.le b || b.le a := by
  rw [Bool.or_eq_true, le_iff, le_iff]
  by_cases huri : a.uri = b.uri
  · by_cases hplace : a.symbol.line < b.symbol.line ∨
        (a.symbol.line = b.symbol.line ∧ a.symbol.startColumn ≤ b.symbol.startColumn)
    · exact Or.inl (Or.inr ⟨huri, hplace⟩)
    · exact Or.inr (Or.inr ⟨huri.symm, by omega⟩)
  · by_cases hless : a.uri < b.uri
    · exact Or.inl (Or.inl hless)
    · refine Or.inr (Or.inl (String.not_le.mp fun hle => huri ?_))
      exact String.le_antisymm hle (String.not_lt.mp hless)

/-- The order of symbols in one file: by line, then by column. -/
def Symbol.placeLe (a b : Symbol) : Bool :=
  a.line < b.line || (a.line == b.line && a.startColumn ≤ b.startColumn)

theorem Hit.le_of_same_uri (uri : String) (a b : Symbol) : Hit.le ⟨uri, a⟩ ⟨uri, b⟩ = a.placeLe b := by
  have hirrefl : ¬uri < uri := String.lt_irrefl uri
  rw [Hit.le, Symbol.placeLe, decide_eq_false hirrefl, beq_self_eq_true, Bool.false_or, Bool.true_and]

/-! ## One entry for each URI -/

namespace UriMap

variable {α : Type} {map : UriMap α}

def DistinctUris (map : UriMap α) : Prop := (map.entries.map Prod.fst).Nodup

theorem distinctUris_empty : (empty : UriMap α).DistinctUris := List.nodup_nil

theorem DistinctUris.erase (hdistinct : map.DistinctUris) (uri : String) :
    (map.erase uri).DistinctUris :=
  hdistinct.sublist (List.filter_sublist.map Prod.fst)

theorem DistinctUris.insert (hdistinct : map.DistinctUris) (uri : String) (value : α) :
    (map.insert uri value).DistinctUris := by
  unfold DistinctUris UriMap.insert
  rw [List.map_append, List.nodup_append]
  refine ⟨hdistinct.erase uri, by simp, ?_⟩
  intro other hother last hlast
  obtain rfl := List.mem_singleton.mp hlast
  obtain ⟨entry, hentry, rfl⟩ := List.mem_map.mp hother
  simpa using (List.mem_filter.mp hentry).2

/-- The entries of a URI are the one that a look-up finds. -/
theorem DistinctUris.filter_entries (hdistinct : map.DistinctUris) (uri : String) :
    map.entries.filter (·.1 == uri) = (map.get? uri).toList.map (uri, ·) := by
  obtain ⟨entries⟩ := map
  unfold DistinctUris at hdistinct
  unfold get?
  induction entries with
  | nil => rfl
  | cons entry rest ih =>
      obtain ⟨key, value⟩ := entry
      obtain ⟨hkey, hrest⟩ := List.nodup_cons.mp hdistinct
      by_cases huri : key = uri
      · subst huri
        have hnone : rest.filter (·.1 == key) = [] := by
          rw [List.filter_eq_nil_iff]
          intro other hother hsame
          exact hkey (List.mem_map.mpr ⟨other, hother, by simpa using hsame⟩)
        simp [hnone]
      · have hother : uri ≠ key := Ne.symm huri
        simp [huri, List.lookup_cons, beq_false_of_ne hother, ih hrest]

end UriMap

namespace SymbolIndex

variable {index : SymbolIndex}

theorem filter_hits_eq_flatMap (index : SymbolIndex) (uri : String) :
    index.hits.filter (·.uri == uri) =
      (index.entries.filter (·.1 == uri)).flatMap fun entry => entry.2.map (⟨entry.1, ·⟩) := by
  obtain ⟨entries⟩ := index
  unfold hits
  induction entries with
  | nil => rfl
  | cons entry rest ih =>
      rw [List.flatMap_cons, List.filter_append, ih, List.filter_cons, List.filter_map]
      by_cases huri : entry.1 = uri <;> simp [Function.comp_def, huri]

theorem filter_hits (hdistinct : index.DistinctUris) (uri : String) :
    index.hits.filter (·.uri == uri) = ((index.get? uri).getD []).map (⟨uri, ·⟩) := by
  rw [filter_hits_eq_flatMap, hdistinct.filter_entries]
  cases index.get? uri <;> simp

/-- **What a search finds in one file.** It is what the file has by itself, sorted. -/
theorem filter_search (hdistinct : index.DistinctUris) (query uri : String) :
    (index.search query).filter (·.uri == uri) =
      ((((index.get? uri).getD []).filter (·.matchesQuery query)).map (⟨uri, ·⟩)).mergeSort Hit.le := by
  rw [search, filter_mergeSort Hit.le_trans Hit.le_total, List.filter_comm, filter_hits hdistinct,
    List.filter_map]
  rfl

end SymbolIndex

namespace Session

section Induction

variable {P : SymbolIndex → Prop}
  (hinsert : ∀ (index : SymbolIndex) uri symbols, P index → P (index.insert uri symbols))
  (herase : ∀ (index : SymbolIndex) uri, P index → P (index.erase uri))
include hinsert

theorem storeAll_induction {index : SymbolIndex} (outcomes : List Outcome) (hindex : P index) :
    P (index.storeAll outcomes) := by
  unfold SymbolIndex.storeAll
  induction outcomes generalizing index with
  | nil => exact hindex
  | cons outcome rest ih =>
      apply ih
      obtain error | ⟨uri, symbols, stored⟩ := outcome
      · exact hindex
      · cases stored with
        | false => exact hindex
        | true => exact hinsert index uri symbols hindex

theorem index_beginWork_induction (session : Session) (around : Surroundings)
    (hindex : P session.index) : P (session.beginWork around).1.index := by
  unfold beginWork
  cases session.root with
  | none => exact hindex
  | some root =>
      dsimp only
      split_ifs with hwanted
      · change P (session.indexFiles _ _).index
        rw [(session.indexFiles_eq _ _).1]
        exact storeAll_induction hinsert _ hindex
      · exact hindex

include herase

theorem index_rescan_induction {session : Session} (disk : Disk) (uri path : String)
    (hindex : P session.index) : P (session.rescan disk uri path).1.index := by
  unfold rescan SymbolIndex.indexFile
  cases disk.scanFile session.config.scan path with
  | ok report => exact hinsert _ _ _ hindex
  | error error => exact herase _ _ hindex

/-- A property of the index that every insertion and erasure keeps is kept by every notification. -/
theorem index_notice_induction {session : Session} (around : Surroundings)
    (notification : Notification) (hindex : P session.index) :
    P (session.notice around notification).1.index := by
  cases notification with
  | initialized => exact index_beginWork_induction hinsert session around hindex
  | opened uri text => exact hinsert _ _ _ hindex
  | changed uri changes =>
      change P (session.changeDocument uri changes).1.index
      unfold changeDocument
      cases session.documents.get? uri with
      | some document => exact hinsert _ _ _ hindex
      | none => exact hindex
  | closed uri =>
      change P (session.closeDocument around.disk uri).1.index
      unfold closeDocument
      cases (Uri.toPath? uri).filter around.disk.isFile with
      | some path => exact index_rescan_induction hinsert herase around.disk uri path hindex
      | none => exact herase _ _ hindex
  | saved uri =>
      change P (session.saveDocument around.disk uri).1.index
      unfold saveDocument
      split_ifs
      · exact hindex
      · cases Uri.toPath? uri with
        | some path => exact index_rescan_induction hinsert herase around.disk uri path hindex
        | none => exact hindex

/-- A property of the index that holds to begin with, and that every insertion and erasure keeps, holds
after any messages. -/
theorem Exchange.index_after_induction (hempty : P .empty)
    (messages : List (Surroundings × Message)) : P (Exchange.after messages).session.index := by
  unfold Exchange.after
  have hstart : P Exchange.start.session.index := hempty
  generalize Exchange.start = exchange at hstart
  induction messages generalizing exchange with
  | nil => exact hstart
  | cons message rest ih =>
      apply ih
      change P (exchange.session.receive message.1 message.2).1.index
      obtain ⟨notification, -, hreceive⟩ | ⟨-, -, ⟨-, greeting, hgreet⟩ | ⟨phase, -, hmoves⟩⟩ :=
        exchange.session.receive_cases message.1 message.2
      · rw [hreceive]
        exact index_notice_induction hinsert herase message.1 notification hstart
      · rw [hgreet]
        exact hstart
      · rw [hmoves]
        exact hstart

end Induction

theorem Exchange.distinctUris_after (messages : List (Surroundings × Message)) :
    (Exchange.after messages).session.index.DistinctUris :=
  Exchange.index_after_induction (fun _ uri symbols h => h.insert uri symbols)
    (fun _ uri h => h.erase uri) UriMap.distinctUris_empty messages

/-! ## Open documents -/

section Lists

variable {session : Session} {uri query : String}

theorem uri_listing (session : Session) (uri : String) (symbol : Symbol) :
    (session.listing uri symbol).uri = uri := by
  unfold listing
  cases session.documents.get? uri <;> rfl

theorem symbol_listing (session : Session) (uri : String) (symbol : Symbol) :
    (session.listing uri symbol).symbol = symbol := by
  unfold listing
  cases session.documents.get? uri <;> rfl

theorem getD_documentSymbols (session : Session) (uri : String) :
    (session.documentSymbols uri).getD [] = (session.symbolsOf uri).map (session.listing uri) := by
  unfold documentSymbols
  cases session.symbolsOf uri <;> rfl

theorem map_listing_mergeSort (session : Session) (uri : String) (symbols : List Symbol) :
    ((symbols.map (Hit.mk uri)).mergeSort Hit.le).map (fun hit => session.listing uri hit.symbol) =
      (symbols.map (session.listing uri)).mergeSort fun a b => a.symbol.placeLe b.symbol := by
  have hsorted : ((symbols.map (Hit.mk uri)).mergeSort Hit.le).map
      (fun hit => session.listing uri hit.symbol) =
        ((symbols.map (Hit.mk uri)).map fun hit => session.listing uri hit.symbol).mergeSort
          fun a b => a.symbol.placeLe b.symbol := by
    apply List.map_mergeSort
    intro a ha b hb
    obtain ⟨first, -, rfl⟩ := List.mem_map.mp ha
    obtain ⟨second, -, rfl⟩ := List.mem_map.mp hb
    rw [Hit.le_of_same_uri, symbol_listing, symbol_listing]
  rw [hsorted, List.map_map]
  rfl

/-- If the search finds no more than it may, the matches shown in one file are those found there. -/
theorem filter_firstMatches {isShown : String → Bool} (hshown : isShown uri) (hquery : query ≠ "")
    (hcap : (session.index.search query).length ≤ session.config.maxWorkspaceSymbols) :
    (session.firstMatches isShown query).filter (·.uri == uri) =
      ((session.index.search query).filter (·.uri == uri)).map
        fun hit => session.listing uri hit.symbol := by
  rw [firstMatches, if_neg hquery, List.take_of_length_le hcap, List.filter_map, List.filter_filter]
  simp only [Function.comp_def, uri_listing]
  have hfilter : (session.index.search query).filter (fun hit => hit.uri == uri && isShown hit.uri) =
      (session.index.search query).filter (·.uri == uri) := by
    refine List.filter_congr fun hit _ => ?_
    by_cases huri : hit.uri = uri <;> simp [huri, hshown]
  rw [hfilter]
  refine List.map_congr_left fun hit hhit => ?_
  have huri : hit.uri = uri := by simpa using (List.mem_filter.mp hhit).2
  rw [huri]

end Lists

/-- **Searching and listing agree.** After any messages of the editor, let a document be open under a
well-formed URI, and let a query that is not empty have no more matches in the whole index than results
are given. Then the results in the document are those of its symbols whose names match, with the places
that they have in the list of the document's symbols, and sorted by line and column; symbols at the same
place keep their order. -/
theorem workspaceSymbols_open_eq_documentSymbols (messages : List (Surroundings × Message))
    (uri query : String) :
    let session := (Exchange.after messages).session
    session.documents.contains uri → Uri.isValid uri → query ≠ "" →
    session.index.hits.countP (·.symbol.matchesQuery query) ≤ session.config.maxWorkspaceSymbols →
      (session.workspaceSymbols query).filter (·.uri == uri) =
        (((session.documentSymbols uri).getD []).filter (·.symbol.matchesQuery query)).mergeSort
          fun a b => a.symbol.placeLe b.symbol := by
  intro session hopen hvalid hquery hcap
  have hdistinct : session.index.DistinctUris := Exchange.distinctUris_after messages
  have hlength : (session.index.search query).length ≤ session.config.maxWorkspaceSymbols := by
    rwa [SymbolIndex.search, List.length_mergeSort, ← List.countP_eq_length_filter]
  obtain ⟨document, hdocument⟩ := Option.isSome_iff_exists.mp hopen
  have hindex : session.index.get? uri = some (session.symbolsOf uri) := by
    rw [symbolsOf, hdocument]
    exact (Exchange.coherent_after messages).index uri document hdocument
  rw [workspaceSymbols, filter_firstMatches hvalid hquery hlength, SymbolIndex.filter_search hdistinct,
    hindex, Option.getD_some, getD_documentSymbols, List.filter_map, map_listing_mergeSort]
  simp only [Function.comp_def, symbol_listing]

/-- A function is declared in the header of a class, so that it is confirmed first. -/
def outOfOrder : List Message :=
  [.request "initialize" (some (.obj [("capabilities", .obj [])])),
    .notification "textDocument/didOpen" (some (.obj [("textDocument", .obj
      [("uri", .str "file:///a.php"), ("languageId", .str "php"), ("version", .nat 1),
        ("text", .str "<?php class Ab function abc() \x7b class C \x7b")])]))]

theorem workspaceSymbols_open_eq_documentSymbols_out_of_order :
    let session := (Exchange.after (outOfOrder.map (⟨.empty, false⟩, ·))).session
    let inner : Listing := ⟨⟨"abc", .functionDecl, 1, 24, 27, 0⟩, "file:///a.php", ⟨0, 24, 0, 27⟩⟩
    let outer : Listing := ⟨⟨"Ab", .classDecl, 1, 12, 14, 0⟩, "file:///a.php", ⟨0, 12, 0, 14⟩⟩
    let last : Listing := ⟨⟨"C", .classDecl, 1, 38, 39, 1⟩, "file:///a.php", ⟨0, 38, 0, 39⟩⟩
    session.documentSymbols "file:///a.php" = some [inner, outer, last] ∧
      (session.workspaceSymbols "AB").filter (·.uri == "file:///a.php") = [outer, inner] := by
  intro session inner outer last
  have hlist : session.documentSymbols "file:///a.php" = some [inner, outer, last] := by decide +kernel
  have hmatches : [inner, outer, last].filter (·.symbol.matchesQuery "AB") = [inner, outer] := by
    decide +kernel
  have hsearch := workspaceSymbols_open_eq_documentSymbols (outOfOrder.map (⟨.empty, false⟩, ·))
    "file:///a.php" "AB" (by decide +kernel) (by decide +kernel) (by decide) (by decide +kernel)
  rw [hlist, Option.getD_some, hmatches] at hsearch
  refine ⟨hlist, hsearch.trans ?_⟩
  simp [List.mergeSort, List.MergeSort.Internal.splitInTwo, Symbol.placeLe, inner, outer]

end Session

end PhpOutline
