import Mathlib.Data.List.Basic
import Mathlib.Data.List.Induction
import PhpOutline.Session.Workspace

/-!
# Indexing a workspace

The files of a workspace are indexed in batches, and the figures of the batches are added up. All of it
is a fold over the outcomes of the single files, so nothing depends on where the list of files is cut.
A file is stored under the URI of its path, and no two paths have the same URI. So the index knows at a
URI what it knew before, unless the list has the path of that URI, and the file can be scanned, and its
document is not open.
-/

namespace PhpOutline

/-! ## Outcomes -/

/-- The symbols of a file, if it can be scanned. -/
def Disk.symbols? (disk : Disk) (options : ScanOptions) (path : String) : Option (List Symbol) :=
  (disk.scanFile options path).toOption.map (·.symbols)

/-- The symbols of the file that a URI names, if it is one of the files and can be scanned. -/
def Disk.listedSymbols? (disk : Disk) (options : ScanOptions) (files : List String) (uri : String) :
    Option (List Symbol) :=
  (Uri.toPath? uri).bind fun path => if path ∈ files then disk.symbols? options path else none

theorem Disk.symbols?_eq_some_iff {disk : Disk} {options : ScanOptions} {path : String}
    {symbols : List Symbol} :
    disk.symbols? options path = some symbols ↔
      ∃ report, disk.scanFile options path = .ok report ∧ report.symbols = symbols := by
  unfold symbols?
  cases disk.scanFile options path <;> simp [Except.toOption]

theorem Disk.isSome_symbols? (disk : Disk) (options : ScanOptions) (path : String) :
    (disk.symbols? options path).isSome = (disk.scanFile options path).isOk := by
  unfold symbols?
  cases disk.scanFile options path <;> rfl

section Outcomes

variable (disk : Disk) (options : ScanOptions) (accepts : String → Bool)

theorem outcome_cases (path : String) :
    (∃ error, disk.symbols? options path = none ∧
      disk.outcome options accepts path = .failed error) ∨
    ∃ symbols, disk.symbols? options path = some symbols ∧
      disk.outcome options accepts path =
        .scanned (Uri.ofPath path) symbols (accepts (Uri.ofPath path)) := by
  unfold Disk.outcome Disk.symbols?
  cases disk.scanFile options path with
  | error error => exact Or.inl ⟨error, rfl, rfl⟩
  | ok report => exact Or.inr ⟨report.symbols, rfl, rfl⟩

theorem get?_store_outcome_self (index : SymbolIndex) (path : String) :
    ((disk.outcome options accepts path).store index).get? (Uri.ofPath path) =
      if accepts (Uri.ofPath path) then
        (disk.symbols? options path).or (index.get? (Uri.ofPath path))
      else index.get? (Uri.ofPath path) := by
  obtain ⟨error, hsymbols, houtcome⟩ | ⟨symbols, hsymbols, houtcome⟩ :=
    outcome_cases disk options accepts path
  · rw [houtcome, hsymbols, Option.none_or, ite_self]
    rfl
  · rw [houtcome, hsymbols]
    cases accepts (Uri.ofPath path) with
    | false => rfl
    | true => exact UriMap.get?_insert_self _ _ _

theorem get?_store_outcome_of_ne {path uri : String} (huri : uri ≠ Uri.ofPath path)
    (index : SymbolIndex) :
    ((disk.outcome options accepts path).store index).get? uri = index.get? uri := by
  obtain ⟨error, -, houtcome⟩ | ⟨symbols, -, houtcome⟩ := outcome_cases disk options accepts path
  · rw [houtcome]
    rfl
  · rw [houtcome]
    cases accepts (Uri.ofPath path) with
    | false => rfl
    | true => exact UriMap.get?_insert_of_ne huri _ _

theorem listedSymbols?_ofPath (files : List String) (path : String) :
    disk.listedSymbols? options files (Uri.ofPath path) =
      if path ∈ files then disk.symbols? options path else none := by
  rw [Disk.listedSymbols?, Uri.toPath?_ofPath, Option.bind_some]

theorem listedSymbols?_eq_none {files : List String} {uri : String}
    (hnone : ∀ path ∈ files, uri = Uri.ofPath path → disk.symbols? options path = none) :
    disk.listedSymbols? options files uri = none := by
  unfold Disk.listedSymbols?
  cases hpath : Uri.toPath? uri with
  | none => rfl
  | some path =>
      rw [Option.bind_some]
      split_ifs with hfile
      · exact hnone path hfile (Uri.ofPath_of_toPath? hpath).symm
      · rfl

theorem listedSymbols?_cons_of_ne {path uri : String} (huri : uri ≠ Uri.ofPath path)
    (files : List String) :
    disk.listedSymbols? options (path :: files) uri = disk.listedSymbols? options files uri := by
  unfold Disk.listedSymbols?
  cases hother : Uri.toPath? uri with
  | none => rfl
  | some other =>
      have hne : other ≠ path := by
        rintro rfl
        exact huri (Uri.ofPath_of_toPath? hother).symm
      simp only [Option.bind_some, List.mem_cons, hne, false_or]

/-- **A list of files.** Each file is stored at its own URI if it can be scanned and is accepted, however
often it is listed. -/
theorem get?_storeAll_outcomes (index : SymbolIndex) (files : List String) (uri : String) :
    (index.storeAll (files.map (disk.outcome options accepts))).get? uri =
      if accepts uri then (disk.listedSymbols? options files uri).or (index.get? uri)
      else index.get? uri := by
  induction files generalizing index with
  | nil => cases hpath : Uri.toPath? uri <;> simp [SymbolIndex.storeAll, Disk.listedSymbols?, hpath]
  | cons path rest ih =>
      rw [List.map_cons, SymbolIndex.storeAll, List.foldl_cons]
      refine (ih _).trans ?_
      by_cases huri : uri = Uri.ofPath path
      · subst huri
        rw [get?_store_outcome_self, listedSymbols?_ofPath, listedSymbols?_ofPath,
          if_pos List.mem_cons_self]
        -- if the file is listed once more, the second scan finds the same symbols
        by_cases hagain : path ∈ rest <;> cases disk.symbols? options path <;>
          cases accepts (Uri.ofPath path) <;> simp [hagain]
      · rw [get?_store_outcome_of_ne _ _ _ huri, listedSymbols?_cons_of_ne _ _ huri]

end Outcomes

namespace Tally

/-- Every file is counted once. -/
theorem total_ofOutcomes (outcomes : List Outcome) : (ofOutcomes outcomes).total = outcomes.length := by
  induction outcomes with
  | nil => rfl
  | cons outcome rest ih =>
      simp only [total, ofOutcomes, List.countP_cons, List.length_cons] at ih ⊢
      rcases outcome with error | ⟨uri, symbols, _ | _⟩ <;>
        simp [Outcome.isStored, Outcome.isFailed, Outcome.isSkipped] <;> omega

section Outcomes

variable {disk : Disk} {options : ScanOptions} {accepts : String → Bool} {files : List String}

theorem skipped_ofOutcomes (haccepts : ∀ path ∈ files, accepts (Uri.ofPath path)) :
    (ofOutcomes (files.map (disk.outcome options accepts))).skipped = 0 := by
  simp only [ofOutcomes, List.countP_map, List.countP_eq_zero, Function.comp_apply]
  intro path hpath
  obtain ⟨error, -, houtcome⟩ | ⟨symbols, -, houtcome⟩ := outcome_cases disk options accepts path
  · simp [houtcome, Outcome.isSkipped]
  · simp [houtcome, Outcome.isSkipped, haccepts path hpath]

/-- The symbols counted are those of the files that can be scanned. -/
theorem symbols_ofOutcomes (haccepts : ∀ path ∈ files, accepts (Uri.ofPath path)) :
    (ofOutcomes (files.map (disk.outcome options accepts))).symbols =
      ((files.filter fun path => (disk.symbols? options path).isSome).flatMap
        fun path => (disk.symbols? options path).getD []).length := by
  induction files with
  | nil => rfl
  | cons path rest ih =>
      have hrest := ih fun other hother => haccepts other (List.mem_cons_of_mem _ hother)
      have hpath := haccepts path List.mem_cons_self
      simp only [ofOutcomes, List.map_cons, List.flatMap_cons, List.length_append] at hrest ⊢
      rw [hrest]
      obtain ⟨error, hsymbols, houtcome⟩ | ⟨symbols, hsymbols, houtcome⟩ :=
        outcome_cases disk options accepts path
      · simp [houtcome, hsymbols, Outcome.storedSymbols]
      · simp [houtcome, hsymbols, Outcome.storedSymbols, hpath]

end Outcomes

end Tally

/-! ## Batches -/

namespace Session

/-- What becomes of each file of a list; those that are open are declined. -/
def outcomes (session : Session) (disk : Disk) (files : List String) : List Outcome :=
  files.map (disk.outcome session.config.scan (!session.documents.contains ·))

/-- The state of the indexing after some batches out of `total` files. -/
def indexBatches (session : Session) (disk : Disk) (total : Nat) (parts : List (List String)) :
    IndexingState :=
  parts.foldl (indexBatch disk session.config.scan (!session.documents.contains ·) total)
    { index := session.index, tally := ⟨0, 0, 0, 0⟩, reports := [] }

variable (session : Session) (disk : Disk)

theorem outcomes_append (first second : List String) :
    session.outcomes disk (first ++ second) =
      session.outcomes disk first ++ session.outcomes disk second :=
  List.map_append

theorem indexBatches_concat (total : Nat) (parts : List (List String)) (part : List String) :
    session.indexBatches disk total (parts ++ [part]) =
      indexBatch disk session.config.scan (!session.documents.contains ·) total
        (session.indexBatches disk total parts) part :=
  List.foldl_append

/-- **One batch after the other.** The result is that of all their files at once. -/
theorem indexBatches_eq (total : Nat) (parts : List (List String)) :
    (session.indexBatches disk total parts).index =
        session.index.storeAll (session.outcomes disk parts.flatten) ∧
      (session.indexBatches disk total parts).tally =
        Tally.ofOutcomes (session.outcomes disk parts.flatten) := by
  induction parts using List.reverseRecOn with
  | nil => exact ⟨rfl, rfl⟩
  | append_singleton parts part ih =>
      obtain ⟨hindex, htally⟩ := ih
      rw [indexBatches_concat, List.flatten_append, List.flatten_singleton, outcomes_append,
        SymbolIndex.storeAll_append, Tally.ofOutcomes_append, ← hindex, ← htally]
      exact ⟨rfl, rfl⟩

theorem indexFiles_eq_indexBatches (files : List String) :
    session.indexFiles disk files =
      session.indexBatches disk files.length (batches batchSize files) := rfl

theorem indexFiles_eq (files : List String) :
    (session.indexFiles disk files).index = session.index.storeAll (session.outcomes disk files) ∧
      (session.indexFiles disk files).tally = Tally.ofOutcomes (session.outcomes disk files) := by
  have hbatches := session.indexBatches_eq disk files.length (batches batchSize files)
  rwa [flatten_batches (by decide), ← indexFiles_eq_indexBatches] at hbatches

theorem get?_indexFiles (files : List String) (uri : String) :
    (session.indexFiles disk files).index.get? uri =
      if session.documents.contains uri then session.index.get? uri
      else (disk.listedSymbols? session.config.scan files uri).or (session.index.get? uri) := by
  rw [(session.indexFiles_eq disk files).1]
  refine (get?_storeAll_outcomes disk _ _ session.index files uri).trans ?_
  cases session.documents.contains uri <;> rfl

theorem get?_indexFiles_of_scanFile {files : List String} {path : String} {report : Report}
    (hfile : path ∈ files) (hclosed : ¬session.documents.contains (Uri.ofPath path))
    (hscan : disk.scanFile session.config.scan path = .ok report) :
    (session.indexFiles disk files).index.get? (Uri.ofPath path) = some report.symbols := by
  rw [get?_indexFiles, if_neg hclosed, listedSymbols?_ofPath, if_pos hfile,
    Disk.symbols?_eq_some_iff.mpr ⟨report, hscan, rfl⟩]
  rfl

theorem get?_indexFiles_of_forall_ne {files : List String} {uri : String}
    (hnone : ∀ path ∈ files, uri = Uri.ofPath path → ∀ report,
      disk.scanFile session.config.scan path ≠ .ok report) :
    (session.indexFiles disk files).index.get? uri = session.index.get? uri := by
  have hlisted : disk.listedSymbols? session.config.scan files uri = none := by
    apply listedSymbols?_eq_none
    intro path hpath huri
    rw [Option.eq_none_iff_forall_ne_some]
    intro symbols hsymbols
    obtain ⟨report, hscan, -⟩ := Disk.symbols?_eq_some_iff.mp hsymbols
    exact hnone path hpath huri report hscan
  rw [get?_indexFiles, hlisted, Option.none_or, ite_self]

/-! ## The workspace -/

theorem mem_closedFiles {root path : String} :
    path ∈ session.closedFiles disk root ↔
      path ∈ disk.phpFiles session.config.excludeDirs root ∧
        ¬session.documents.contains (Uri.ofPath path) := by
  simp [closedFiles]

theorem accepts_of_mem_closedFiles {root path : String}
    (hpath : path ∈ session.closedFiles disk root) :
    !session.documents.contains (Uri.ofPath path) := by
  simpa using (session.mem_closedFiles disk).mp hpath |>.2

/-- **The workspace is merged into the index.** The entry of an open document stays. The entry of any
other URI becomes the symbols of the file that it names, if that is one of the PHP files found and can
be scanned, and stays otherwise. The figures reported are those of all files found that are not open,
taken at once: each of them counts as indexed or as failed, none as declined, and the symbols counted
are those that the index then has for them. However the files are cut into batches, index and figures
are the same. -/
theorem indexWorkspace_merges (session : Session) (around : Surroundings) (root : String) :
    let options := session.config.scan
    let found := around.disk.phpFiles session.config.excludeDirs root
    let files := session.closedFiles around.disk root
    let later := (session.indexWorkspace around root).1
    let tally := (session.indexFiles around.disk files).tally
    later = { session with index := later.index } ∧
    (∀ uri, session.documents.contains uri → later.index.get? uri = session.index.get? uri) ∧
    (∀ path ∈ found, ¬session.documents.contains (Uri.ofPath path) → ∀ report,
      around.disk.scanFile options path = .ok report →
        later.index.get? (Uri.ofPath path) = some report.symbols) ∧
    (∀ uri, (∀ path ∈ found, uri = Uri.ofPath path → ∀ report,
        around.disk.scanFile options path ≠ .ok report) →
      later.index.get? uri = session.index.get? uri) ∧
    (session.indexWorkspace around root).2.getLast? = some (.log .info ("php-symbols: indexed " ++
      toString tally.symbols ++ " symbols from " ++ toString tally.files ++ " PHP files")) ∧
    tally = Tally.ofOutcomes (session.outcomes around.disk files) ∧
    tally.files + tally.failed + tally.skipped = files.length ∧
    tally.skipped = 0 ∧
    tally.symbols = ((files.filter fun path => (around.disk.scanFile options path).isOk).flatMap
      fun path => (later.index.get? (Uri.ofPath path)).getD []).length ∧
    ∀ (total : Nat) (parts : List (List String)), parts.flatten = files →
      (session.indexBatches around.disk total parts).index = later.index ∧
        (session.indexBatches around.disk total parts).tally = tally := by
  intro options found files later tally
  have hclosed : ∀ path ∈ files, !session.documents.contains (Uri.ofPath path) := fun path =>
    session.accepts_of_mem_closedFiles around.disk
  have htally : tally = Tally.ofOutcomes (session.outcomes around.disk files) :=
    (session.indexFiles_eq around.disk files).2
  have hstored : ∀ path ∈ found, ¬session.documents.contains (Uri.ofPath path) → ∀ report,
      around.disk.scanFile options path = .ok report →
        later.index.get? (Uri.ofPath path) = some report.symbols := by
    intro path hpath hopen report
    exact session.get?_indexFiles_of_scanFile around.disk
      ((session.mem_closedFiles around.disk).mpr ⟨hpath, hopen⟩) hopen
  refine ⟨rfl, ?_, hstored, ?_, List.getLast?_concat, htally, ?_, ?_, ?_, ?_⟩
  · intro uri hopen
    exact (session.get?_indexFiles around.disk files uri).trans (if_pos hopen)
  · intro uri hnone
    apply session.get?_indexFiles_of_forall_ne around.disk
    intro path hpath
    exact hnone path ((session.mem_closedFiles around.disk).mp hpath).1
  · rw [htally]
    exact (Tally.total_ofOutcomes _).trans (List.length_map _)
  · rw [htally]
    exact Tally.skipped_ofOutcomes hclosed
  · rw [htally]
    refine (Tally.symbols_ofOutcomes hclosed).trans ?_
    simp only [← Disk.isSome_symbols?]
    refine congrArg List.length (List.flatMap_congr fun path hpath => ?_)
    obtain ⟨hfile, hsome⟩ := List.mem_filter.mp hpath
    obtain ⟨hfound, hopen⟩ := (session.mem_closedFiles around.disk).mp hfile
    obtain ⟨symbols, hsome⟩ := Option.isSome_iff_exists.mp hsome
    obtain ⟨report, hscan, rfl⟩ := Disk.symbols?_eq_some_iff.mp hsome
    rw [hsome, hstored path hfound hopen report hscan]
  · intro total parts hparts
    obtain ⟨hindex, hsum⟩ := session.indexBatches_eq around.disk total parts
    rw [hparts] at hindex hsum
    exact ⟨hindex.trans (session.indexFiles_eq around.disk files).1.symm, hsum.trans htally.symm⟩

/-- Two files, a link that leads nowhere, and a file in a directory that is passed over. -/
def mixedDisk : Disk :=
  ⟨[(["a.php"], .file "<?php class A \x7b".toUTF8.data.toList),
    (["b.php"], .file "<?php function b(".toUTF8.data.toList), (["c.php"], .link "/missing"),
    (["vendor"], .directory), (["vendor", "d.php"], .file "<?php class D \x7b".toUTF8.data.toList)]⟩

/-- A document is open that has another text than its file, and there are symbols of files that are no
longer there. -/
def mixedSession : Session :=
  let session := (Session.start.openDocument "file:///a.php" "<?php trait T \x7b").1
  { session with index := session.index.insert "file:///gone.php" [⟨"G", .classDecl, 1, 6, 7, 0⟩] }

theorem indexWorkspace_merges_mixed :
    let later := (mixedSession.indexWorkspace ⟨mixedDisk, false⟩ "/").1
    later.index.get? "file:///a.php" = some [⟨"T", .classDecl, 1, 12, 13, 0⟩] ∧
      later.index.get? "file:///b.php" = some [⟨"b", .functionDecl, 1, 15, 16, 0⟩] ∧
      later.index.get? "file:///c.php" = none ∧
      later.index.get? "file:///gone.php" = some [⟨"G", .classDecl, 1, 6, 7, 0⟩] ∧
      (mixedSession.indexBatches mixedDisk 2 [["/b.php"], [], ["/c.php"]]).index = later.index := by
  intro later
  have hfound : mixedDisk.phpFiles mixedSession.config.excludeDirs "/" =
      ["/a.php", "/b.php", "/c.php"] := by
    have hbelow : mixedDisk.phpFilesBelow mixedSession.config.excludeDirs (mixedDisk.pathDepth + 1)
        "/" = ["/a.php", "/b.php", "/c.php"] := by decide +kernel
    rw [Disk.phpFiles, if_pos (by decide +kernel), hbelow]
    exact List.mergeSort_of_pairwise (by decide +kernel)
  have hfiles : mixedSession.closedFiles mixedDisk "/" = ["/b.php", "/c.php"] := by
    rw [closedFiles, hfound]
    decide +kernel
  have hscan : mixedDisk.scanFile mixedSession.config.scan "/b.php" =
      .ok ⟨[⟨"b", .functionDecl, 1, 15, 16, 0⟩], some ⟨.parens 0, ⟨1, 16⟩⟩, [], 1⟩ := by decide +kernel
  have hmissing : ∀ uri ∈ ["file:///c.php", "file:///gone.php"],
      ∀ path ∈ ["/a.php", "/b.php", "/c.php"], uri = Uri.ofPath path →
        (mixedDisk.scanFile mixedSession.config.scan path).isOk = false := by decide +kernel
  obtain ⟨-, hopen, hstored, hkept, -, -, -, -, -, hbatches⟩ :=
    indexWorkspace_merges mixedSession ⟨mixedDisk, false⟩ "/"
  rw [hfound] at hstored hkept
  have hsame : ∀ uri ∈ ["file:///c.php", "file:///gone.php"],
      later.index.get? uri = mixedSession.index.get? uri := by
    intro uri huri
    refine hkept uri fun path hpath hpathUri report hreport => ?_
    have hfails := hmissing uri huri path hpath hpathUri
    rw [hreport] at hfails
    cases hfails
  exact ⟨(hopen "file:///a.php" (by decide +kernel)).trans (by decide +kernel),
    hstored "/b.php" (by simp) (by decide +kernel) _ hscan,
    (hsame "file:///c.php" (by simp)).trans (by decide +kernel),
    (hsame "file:///gone.php" (by simp)).trans (by decide +kernel),
    (hbatches 2 [["/b.php"], [], ["/c.php"]] hfiles.symm).1⟩

end Session

end PhpOutline
