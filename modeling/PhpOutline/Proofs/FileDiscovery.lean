import Mathlib.Data.List.MinMax
import Mathlib.Data.List.Sort
import Mathlib.Data.List.TakeDrop
import PhpOutline.Discovery
import PhpOutline.Proofs.DirectoryTrees

/-!
# Which files are discovered

Discovery goes down from a directory, passes over hidden and excluded directories, and gathers files by
their extension. Main statement: in a tree it finds every PHP file below the directory to which no such
directory leads, once each and in the order of paths, whatever order the directories are read in.
-/

namespace PhpOutline

/-! ## Names and order -/

namespace Path

/-- A name with the extension of PHP files: there is something before its ending. -/
def IsPhpName (name : String) : Prop := ∃ stem, stem ≠ "" ∧ name = stem ++ ".php"

variable {name path : String}

theorem extension?_eq_php_iff : extension? name = some "php" ↔ IsPhpName name := by
  rw [extension?, List.span_eq_takeWhile_dropWhile]
  constructor
  · intro hphp
    split at hphp
    · rename_i ending dot c before hsplit
      obtain ⟨hending, hbefore⟩ := Prod.mk.inj hsplit
      have hdot : dot = '.' := by
        have hhead := List.head?_dropWhile_not (· != '.') name.toList.reverse
        rw [hbefore] at hhead
        simpa using hhead
      have hchars : ending.reverse = ['p', 'h', 'p'] := by
        simpa using congrArg String.toList (Option.some.inj hphp)
      refine ⟨String.ofList (c :: before).reverse, by simp, String.toList_inj.mp ?_⟩
      calc name.toList = (ending ++ dot :: c :: before).reverse := by
            rw [← hending, ← hbefore, List.takeWhile_append_dropWhile, List.reverse_reverse]
        _ = (String.ofList (c :: before).reverse ++ ".php").toList := by
            rw [hdot, List.reverse_append, hchars]
            simp
    · cases hphp
  · rintro ⟨stem, hstem, rfl⟩
    obtain ⟨c, before, hbefore⟩ := List.exists_cons_of_ne_nil
      (mt List.reverse_eq_nil_iff.mp (mt String.toList_eq_nil_iff.mp hstem))
    have hchars : (stem ++ ".php").toList.reverse = 'p' :: 'h' :: 'p' :: '.' :: c :: before := by
      rw [String.toList_append, List.reverse_append, hbefore]
      rfl
    rw [hchars]
    rfl

theorem isPhp_iff (hlast : (names path).getLast? = some name) (hname : name ≠ "..") :
    isPhp path ↔ IsPhpName name := by
  rw [← extension?_eq_php_iff, isPhp, hlast]
  split
  · cases ‹some name = none›
  · exact absurd (Option.some.inj ‹_›) hname
  · obtain rfl := Option.some.inj ‹some name = some _›
    exact beq_iff_eq

theorem isPhp_child_iff (hpath : path ≠ "") (hname : IsName name) :
    isPhp (child path name) ↔ IsPhpName name :=
  isPhp_iff (by rw [names_child hpath hname, List.getLast?_concat]) hname.ne_dots

theorem le_iff {a b : String} : le a b ↔ ¬names b < names a := by
  simp [le]

theorem le_trans {a b c : String} (hab : le a b) (hbc : le b c) : le a c := by
  rw [le_iff, List.not_lt] at hab hbc ⊢
  exact List.le_trans hab hbc

theorem le_total (a b : String) : le a b || le b a := by
  simp only [Bool.or_eq_true, le_iff, List.not_lt]
  exact List.le_total _ _

theorem pairwise_mergeSort (files : List String) : (files.mergeSort le).Pairwise (le · ·) := by
  apply List.pairwise_mergeSort
  · intro a b c
    exact le_trans
  · exact le_total

theorem names_lt_of_le {a b : String} (hle : le a b) (hne : names a ≠ names b) : names a < names b := by
  obtain hlt | heq | hgt := Std.lt_trichotomy (names a) (names b)
  · exact hlt
  · exact absurd heq hne
  · exact absurd hgt (le_iff.mp hle)

end Path

/-! ## What there is to find -/

namespace Disk

/-- The directories below the one that a path leads to can be read: their paths are not too long. -/
def ReadableBelow (disk : Disk) (path : String) (place : List String) : Prop :=
  ∀ names, disk.entry? (place ++ names) = some .directory →
    (Path.below path names).utf8ByteSize ≤ maxPathSize

/-- Names lead from a place to a PHP file, through no directory that is hidden or excluded. -/
structure FoundBelow (disk : Disk) (exclude place names : List String) : Prop where
  isFile : ∃ content, disk.entry? (place ++ names) = some (.file content)
  isPhp : ∃ name, names.getLast? = some name ∧ Path.IsPhpName name
  isOpen : ∀ name ∈ names.dropLast, name.toList.head? ≠ some '.' ∧ name ∉ exclude

variable {disk : Disk} {exclude place names : List String} {path name : String}

theorem isPassedOver_eq_false_iff :
    isPassedOver exclude name = false ↔ name.toList.head? ≠ some '.' ∧ name ∉ exclude := by
  simp [isPassedOver]

theorem FoundBelow.ne_nil (hfound : disk.FoundBelow exclude place names) : names ≠ [] := by
  obtain ⟨name, hlast, -⟩ := hfound.isPhp
  rintro rfl
  cases hlast

theorem foundBelow_singleton_iff : disk.FoundBelow exclude place [name] ↔
    (∃ content, disk.entry? (place ++ [name]) = some (.file content)) ∧ Path.IsPhpName name := by
  constructor
  · rintro ⟨hfile, ⟨last, hlast, hphp⟩, -⟩
    obtain rfl := Option.some.inj hlast
    exact ⟨hfile, hphp⟩
  · rintro ⟨hfile, hphp⟩
    exact ⟨hfile, ⟨name, rfl, hphp⟩, by simp⟩

theorem foundBelow_cons_iff (hnames : names ≠ []) : disk.FoundBelow exclude place (name :: names) ↔
    (name.toList.head? ≠ some '.' ∧ name ∉ exclude) ∧
      disk.FoundBelow exclude (place ++ [name]) names := by
  have hplace : place ++ name :: names = place ++ [name] ++ names := by simp
  have hlast : (name :: names).getLast? = names.getLast? := by
    rw [List.getLast?_cons_of_ne_nil hnames]
  constructor
  · rintro ⟨hfile, hphp, hopen⟩
    rw [hplace] at hfile
    rw [hlast] at hphp
    rw [List.dropLast_cons_of_ne_nil hnames, List.forall_mem_cons] at hopen
    exact ⟨hopen.1, hfile, hphp, hopen.2⟩
  · rintro ⟨hname, hfile, hphp, hopen⟩
    refine ⟨hplace ▸ hfile, hlast ▸ hphp, ?_⟩
    rw [List.dropLast_cons_of_ne_nil hnames, List.forall_mem_cons]
    exact ⟨hname, hopen⟩

/-- The first of the names leads to an entry. -/
theorem IsTree.exists_entry? (htree : disk.IsTree)
    (hfound : disk.FoundBelow exclude place (name :: names)) :
    ∃ entry, disk.entry? (place ++ [name]) = some entry := by
  obtain ⟨content, hfile⟩ := hfound.isFile
  rw [List.append_cons] at hfile
  by_cases hnames : names = []
  · rw [hnames, List.append_nil] at hfile
    exact ⟨_, hfile⟩
  · obtain hempty | hdirectory := htree.isDirectoryAt_above hfile hnames
    · simp at hempty
    · exact ⟨_, hdirectory⟩

/-- A directory is no file, so there are more names after one. -/
theorem FoundBelow.ne_nil_of_directory (hfound : disk.FoundBelow exclude place (name :: names))
    (hentry : disk.entry? (place ++ [name]) = some .directory) : names ≠ [] := by
  rintro rfl
  obtain ⟨content, hfile⟩ := hfound.isFile
  rw [hentry] at hfile
  cases hfile

/-- Nothing is below a file, so there are no more names after one. -/
theorem FoundBelow.eq_nil_of_file (htree : disk.IsTree)
    (hfound : disk.FoundBelow exclude place (name :: names)) {content : List UInt8}
    (hentry : disk.entry? (place ++ [name]) = some (.file content)) : names = [] := by
  by_contra hnames
  obtain ⟨other, hfile⟩ := hfound.isFile
  rw [List.append_cons] at hfile
  obtain hempty | hdirectory := htree.isDirectoryAt_above hfile hnames
  · simp at hempty
  · rw [hentry] at hdirectory
    cases hdirectory

theorem FoundBelow.isName (htree : disk.IsTree) (hfound : disk.FoundBelow exclude place names) :
    ∀ name ∈ names, Path.IsName name := by
  obtain ⟨content, hfile⟩ := hfound.isFile
  exact fun name hname => htree.isName_of_mem hfile (List.mem_append_right _ hname)

/-! ## Going down -/

theorem ReadableBelow.child (hreadable : disk.ReadableBelow path place) (name : String) :
    disk.ReadableBelow (Path.child path name) (place ++ [name]) := by
  intro names hentry
  exact hreadable (name :: names) (by simpa using hentry)

section Down

variable (htree : disk.IsTree) (hpath : disk.resolve path = .ok (.directory place))
  (hreadable : disk.ReadableBelow path place)

include htree hpath hreadable

theorem IsTree.isDirectory_child_iff (hname : Path.IsName name) :
    disk.isDirectory (Path.child path name) ↔ disk.entry? (place ++ [name]) = some .directory := by
  simp only [isDirectory_iff, htree.resolve_child_eq_iff hpath hname]
  constructor
  · rintro ⟨there, -, hentry, -⟩
    exact hentry
  · intro hentry
    exact ⟨_, hreadable [name] hentry, hentry, rfl⟩

theorem IsTree.resolve_child (hname : Path.IsName name)
    (hentry : disk.entry? (place ++ [name]) = some .directory) :
    disk.resolve (Path.child path name) = .ok (.directory (place ++ [name])) :=
  (htree.resolve_child_eq_iff hpath hname).mpr ⟨hreadable [name] hentry, hentry, rfl⟩

end Down

/-- What one entry of a directory gives. -/
def filesUnder (disk : Disk) (exclude : List String) (depth : Nat) (path name : String) : List String :=
  if disk.isDirectory (Path.child path name) then
    if isPassedOver exclude name then [] else disk.phpFilesBelow exclude depth (Path.child path name)
  else if Path.isPhp (Path.child path name) then [Path.child path name]
  else []

theorem phpFilesBelow_succ (hpath : disk.resolve path = .ok (.directory place)) (depth : Nat) :
    disk.phpFilesBelow exclude (depth + 1) path =
      (disk.namesIn place).flatMap (disk.filesUnder exclude depth path) := by
  rw [phpFilesBelow, hpath]
  rfl

/-- **One entry.** A directory gives what is found below it, unless it is passed over, and a file gives
itself, by its extension. -/
theorem IsTree.mem_filesUnder_iff (htree : disk.IsTree)
    (hpath : disk.resolve path = .ok (.directory place)) (hreadable : disk.ReadableBelow path place)
    {entry : Entry} (hentry : disk.entry? (place ++ [name]) = some entry) {depth : Nat} {file : String}
    (hdeeper : entry = .directory → (file ∈ disk.phpFilesBelow exclude depth (Path.child path name) ↔
      ∃ names, names.length ≤ depth ∧ disk.FoundBelow exclude (place ++ [name]) names ∧
        file = Path.below (Path.child path name) names)) :
    file ∈ disk.filesUnder exclude depth path name ↔
      ∃ names, names.length ≤ depth ∧ disk.FoundBelow exclude place (name :: names) ∧
        file = Path.below path (name :: names) := by
  have hname : Path.IsName name := htree.isName_of_mem hentry (by simp)
  have hpathNe : path ≠ "" := htree.path_ne_empty hpath
  have hisDirectory := htree.isDirectory_child_iff hpath hreadable hname
  rw [hentry, Option.some_inj] at hisDirectory
  unfold filesUnder
  cases entry with
  | directory =>
      rw [if_pos (hisDirectory.mpr rfl)]
      cases hpassed : isPassedOver exclude name with
      | true =>
          rw [if_pos rfl]
          refine iff_of_false List.not_mem_nil ?_
          rintro ⟨names, -, hfound, -⟩
          have hopen := ((foundBelow_cons_iff (hfound.ne_nil_of_directory hentry)).mp hfound).1
          rw [isPassedOver_eq_false_iff.mpr hopen] at hpassed
          cases hpassed
      | false =>
          rw [if_neg Bool.false_ne_true, hdeeper rfl]
          refine exists_congr fun names => and_congr_right fun _ => and_congr_left fun _ => ?_
          constructor
          · intro hfound
            exact (foundBelow_cons_iff hfound.ne_nil).mpr ⟨isPassedOver_eq_false_iff.mp hpassed, hfound⟩
          · intro hfound
            exact ((foundBelow_cons_iff (hfound.ne_nil_of_directory hentry)).mp hfound).2
  | file content =>
      rw [if_neg (by simp [hisDirectory])]
      have hphp := Path.isPhp_child_iff hpathNe hname
      constructor
      · intro hfile
        split_ifs at hfile with hisPhp
        · exact ⟨[], Nat.zero_le _, foundBelow_singleton_iff.mpr ⟨⟨content, hentry⟩, hphp.mp hisPhp⟩,
            List.mem_singleton.mp hfile⟩
        · cases hfile
      · rintro ⟨names, -, hfound, rfl⟩
        obtain rfl := hfound.eq_nil_of_file htree hentry
        rw [if_pos (hphp.mpr (foundBelow_singleton_iff.mp hfound).2)]
        exact List.mem_singleton_self _
  | link target => exact absurd hentry (htree.entry?_ne_link _ _)

/-- **All entries.** Discovery down to a depth finds what there is to find down to that depth. -/
theorem IsTree.mem_phpFilesBelow_iff (htree : disk.IsTree)
    (hpath : disk.resolve path = .ok (.directory place)) (hreadable : disk.ReadableBelow path place)
    {depth : Nat} {file : String} :
    file ∈ disk.phpFilesBelow exclude depth path ↔
      ∃ names, names.length ≤ depth ∧ disk.FoundBelow exclude place names ∧
        file = Path.below path names := by
  induction depth generalizing path place with
  | zero =>
      refine iff_of_false List.not_mem_nil ?_
      rintro ⟨names, hlength, hfound, -⟩
      exact hfound.ne_nil (List.eq_nil_of_length_eq_zero (Nat.le_zero.mp hlength))
  | succ depth ih =>
      have hunder : ∀ {name : String} {entry : Entry}, disk.entry? (place ++ [name]) = some entry →
          (file ∈ disk.filesUnder exclude depth path name ↔
            ∃ names, names.length ≤ depth ∧ disk.FoundBelow exclude place (name :: names) ∧
              file = Path.below path (name :: names)) := by
        intro name entry hentry
        have hname : Path.IsName name := htree.isName_of_mem hentry (by simp)
        refine htree.mem_filesUnder_iff hpath hreadable hentry ?_
        rintro rfl
        exact ih (htree.resolve_child hpath hreadable hname hentry) (hreadable.child name)
      rw [phpFilesBelow_succ hpath, List.mem_flatMap]
      constructor
      · rintro ⟨name, hname, hfile⟩
        obtain ⟨entry, hentry⟩ := Option.isSome_iff_exists.mp (mem_namesIn_iff.mp hname)
        obtain ⟨names, hlength, hfound, hfile⟩ := (hunder hentry).mp hfile
        exact ⟨name :: names, Nat.succ_le_succ hlength, hfound, hfile⟩
      · rintro ⟨names, hlength, hfound, hfile⟩
        obtain ⟨name, rest, rfl⟩ := List.exists_cons_of_ne_nil hfound.ne_nil
        obtain ⟨entry, hentry⟩ := htree.exists_entry? hfound
        refine ⟨name, mem_namesIn_iff.mpr (by simp [hentry]), (hunder hentry).mpr ?_⟩
        exact ⟨rest, Nat.le_of_succ_le_succ hlength, hfound, hfile⟩

theorem IsTree.exists_of_mem_filesUnder (htree : disk.IsTree)
    (hpath : disk.resolve path = .ok (.directory place)) (hreadable : disk.ReadableBelow path place)
    (hname : name ∈ disk.namesIn place) {depth : Nat} {file : String}
    (hfile : file ∈ disk.filesUnder exclude depth path name) :
    ∃ names, disk.FoundBelow exclude place (name :: names) ∧ file = Path.below path (name :: names) := by
  obtain ⟨entry, hentry⟩ := Option.isSome_iff_exists.mp (mem_namesIn_iff.mp hname)
  have hisName : Path.IsName name := htree.isName_of_mem hentry (by simp)
  rw [htree.mem_filesUnder_iff hpath hreadable hentry] at hfile
  · obtain ⟨names, -, hfound⟩ := hfile
    exact ⟨names, hfound⟩
  · rintro rfl
    exact htree.mem_phpFilesBelow_iff (htree.resolve_child hpath hreadable hisName hentry)
      (hreadable.child name)

theorem IsTree.nodup_phpFilesBelow (htree : disk.IsTree)
    (hpath : disk.resolve path = .ok (.directory place)) (hreadable : disk.ReadableBelow path place)
    (depth : Nat) : (disk.phpFilesBelow exclude depth path).Nodup := by
  induction depth generalizing path place with
  | zero => exact List.nodup_nil
  | succ depth ih =>
      have hpathNe : path ≠ "" := htree.path_ne_empty hpath
      rw [phpFilesBelow_succ hpath, List.nodup_flatMap]
      constructor
      · intro name hname
        obtain ⟨entry, hentry⟩ := Option.isSome_iff_exists.mp (mem_namesIn_iff.mp hname)
        have hisName : Path.IsName name := htree.isName_of_mem hentry (by simp)
        unfold filesUnder
        split_ifs with hdirectory
        · exact List.nodup_nil
        · have hat := (htree.isDirectory_child_iff hpath hreadable hisName).mp hdirectory
          exact ih (htree.resolve_child hpath hreadable hisName hat) (hreadable.child name)
        · exact List.nodup_singleton _
        · exact List.nodup_nil
      · refine (htree.nodup_namesIn place).imp_of_mem fun {first second} hfirst hsecond hne => ?_
        intro file hleft hright
        obtain ⟨names, hfound, rfl⟩ := htree.exists_of_mem_filesUnder hpath hreadable hfirst hleft
        obtain ⟨others, hothers, hsame⟩ :=
          htree.exists_of_mem_filesUnder hpath hreadable hsecond hright
        have hnames := Path.below_inj hpathNe (hfound.isName htree) (hothers.isName htree) hsame
        exact hne (List.cons.inj hnames).1

/-! ## The list of files -/

/-- The list has all that there is to find below a directory, once each and in the order of paths. -/
structure IsListing (disk : Disk) (exclude : List String) (root : String) (place files : List String) :
    Prop where
  nodup : files.Nodup
  sorted : files.Pairwise fun a b => Path.names a < Path.names b
  mem_iff : ∀ path, path ∈ files ↔
    ∃ names, path = Path.below root names ∧ disk.FoundBelow exclude place names

theorem IsListing.unique {files others : List String} (hfiles : disk.IsListing exclude path place files)
    (hothers : disk.IsListing exclude path place others) : files = others := by
  have hperm : files.Perm others := by
    rw [List.perm_ext_iff_of_nodup hfiles.nodup hothers.nodup]
    intro file
    rw [hfiles.mem_iff, hothers.mem_iff]
  refine hperm.eq_of_pairwise ?_ hfiles.sorted hothers.sorted
  intro a b _ _ hab hba
  exact absurd hba (List.lt_asymm hab)

theorem length_le_height {entry : Entry} (hentry : disk.entry? place = some entry) :
    place.length ≤ disk.height := by
  obtain ⟨before, after, hentries, -⟩ := List.lookup_eq_some_iff.mp hentry
  have hmem : place.length ∈ disk.entries.map (·.1.length) := by
    rw [hentries]
    simp
  have hmax : (fun a b : Nat => max b a) = max := by
    funext a b
    exact Nat.max_comm b a
  rw [height, List.foldl_eq_foldr_reverse, hmax]
  exact List.le_max_of_le' 0 (List.mem_reverse.mpr hmem) (Nat.le_refl _)

theorem FoundBelow.length_le (hfound : disk.FoundBelow exclude place names) :
    names.length ≤ disk.pathDepth + 1 := by
  obtain ⟨content, hfile⟩ := hfound.isFile
  have hheight := length_le_height hfile
  rw [List.length_append] at hheight
  unfold pathDepth
  calc names.length ≤ disk.height + 1 := by omega
    _ ≤ (maxLinks + 1) * (disk.height + 1) := Nat.le_mul_of_pos_left _ (Nat.succ_pos _)
    _ ≤ (maxLinks + 1) * (disk.height + 1) + 1 := Nat.le_succ _

theorem phpFiles_of_directory (hpath : disk.resolve path = .ok (.directory place)) :
    disk.phpFiles exclude path =
      (disk.phpFilesBelow exclude (disk.pathDepth + 1) path).mergeSort Path.le := by
  rw [phpFiles, if_pos (isDirectory_iff.mpr ⟨place, hpath⟩)]

theorem IsTree.isListing_phpFiles (htree : disk.IsTree)
    (hpath : disk.resolve path = .ok (.directory place)) (hreadable : disk.ReadableBelow path place) :
    disk.IsListing exclude path place (disk.phpFiles exclude path) := by
  have hpathNe : path ≠ "" := htree.path_ne_empty hpath
  have hnodup : (disk.phpFiles exclude path).Nodup := by
    rw [phpFiles_of_directory hpath, (List.mergeSort_perm _ _).nodup_iff]
    exact htree.nodup_phpFilesBelow hpath hreadable _
  have hmem : ∀ file, file ∈ disk.phpFiles exclude path ↔
      ∃ names, file = Path.below path names ∧ disk.FoundBelow exclude place names := by
    intro file
    rw [phpFiles_of_directory hpath, List.mem_mergeSort, htree.mem_phpFilesBelow_iff hpath hreadable]
    constructor
    · rintro ⟨names, -, hfound, hfile⟩
      exact ⟨names, hfile, hfound⟩
    · rintro ⟨names, hfile, hfound⟩
      exact ⟨names, hfound.length_le, hfound, hfile⟩
  refine ⟨hnodup, ?_, hmem⟩
  have hsorted : (disk.phpFiles exclude path).Pairwise (Path.le · ·) := by
    rw [phpFiles_of_directory hpath]
    exact Path.pairwise_mergeSort _
  refine (hsorted.and hnodup).imp_of_mem fun {first second} hfirst hsecond hboth => ?_
  obtain ⟨names, rfl, hfound⟩ := (hmem first).mp hfirst
  obtain ⟨others, rfl, hothers⟩ := (hmem second).mp hsecond
  apply Path.names_lt_of_le hboth.1
  rw [Path.names_below hpathNe (hfound.isName htree), Path.names_below hpathNe (hothers.isName htree)]
  intro hsame
  exact hboth.2 (congrArg (Path.below path) (List.append_cancel_left hsame))

/-- A path that leads to a file ends in the name of the file. -/
theorem IsTree.isPhp_iff_of_file (htree : disk.IsTree) {content : List UInt8}
    (hpath : disk.resolve path = .ok (.file place content)) :
    ∃ name, place.getLast? = some name ∧ (Path.isPhp path ↔ Path.IsPhpName name) := by
  obtain ⟨-, hwalk⟩ := htree.resolve_eq_ok_iff.mp hpath
  obtain ⟨init, name, hsegments, hlast, hempty, hdot, hdots⟩ := exists_concat_of_walk_file hwalk
  refine ⟨name, hlast, Path.isPhp_iff ?_ hdots⟩
  rw [Path.names, hsegments, List.filter_append, List.filter_cons_of_pos (by simp [hempty, hdot])]
  exact List.getLast?_concat

section Order

variable {listed : Disk}

theorem FoundBelow.of_perm (htree : disk.IsTree) (hlisted : listed.entries.Perm disk.entries)
    (hfound : listed.FoundBelow exclude place names) : disk.FoundBelow exclude place names where
  isFile := by
    rw [← htree.entry?_of_perm hlisted]
    exact hfound.isFile
  isPhp := hfound.isPhp
  isOpen := hfound.isOpen

theorem IsListing.of_perm (htree : disk.IsTree) (hlisted : listed.entries.Perm disk.entries)
    {files : List String} (hfiles : listed.IsListing exclude path place files) :
    disk.IsListing exclude path place files where
  nodup := hfiles.nodup
  sorted := hfiles.sorted
  mem_iff file := by
    rw [hfiles.mem_iff]
    refine exists_congr fun names => and_congr_right fun _ => ?_
    exact ⟨.of_perm htree hlisted, .of_perm (htree.of_perm hlisted) hlisted.symm⟩

/-- Both listings are complete and sorted, so the order in which directories are read does not show. -/
theorem IsTree.phpFiles_of_perm (htree : disk.IsTree) (hlisted : listed.entries.Perm disk.entries)
    (hpath : disk.resolve path = .ok (.directory place)) (hreadable : disk.ReadableBelow path place) :
    listed.phpFiles exclude path = disk.phpFiles exclude path := by
  have hlistedReadable : listed.ReadableBelow path place := by
    intro names hentry
    rw [htree.entry?_of_perm hlisted] at hentry
    exact hreadable names hentry
  have hfiles : listed.IsListing exclude path place (listed.phpFiles exclude path) :=
    (htree.of_perm hlisted).isListing_phpFiles ((htree.resolve_of_perm hlisted).mpr hpath) hlistedReadable
  exact (hfiles.of_perm htree hlisted).unique (htree.isListing_phpFiles hpath hreadable)

end Order

theorem phpFiles_of_file {content : List UInt8} (hpath : disk.resolve path = .ok (.file place content)) :
    disk.phpFiles exclude path = if Path.isPhp path then [path] else [] := by
  have hdirectory : ¬disk.isDirectory path := by
    rw [isDirectory_iff, hpath]
    simp
  rw [phpFiles, if_neg hdirectory]

/-- **Discovery is exact.** In a tree, for any path that leads to something in it:
* if that is a directory, all directories below it being readable, the files that discovery lists are the
  PHP files below it to which no hidden or excluded directory leads, once each and sorted name by name;
  directories are never among them;
* if it is a file, discovery lists the path alone, or nothing if the name is not that of a PHP file;
* the order in which entries are read makes no difference. -/
theorem phpFiles_exact (disk : Disk) (htree : disk.IsTree) (exclude : List String) (root : String)
    (target : Target) (hroot : disk.resolve root = .ok target)
    (hreadable : ∀ place, target = .directory place → disk.ReadableBelow root place) :
    (∀ place, target = .directory place →
      disk.IsListing exclude root place (disk.phpFiles exclude root) ∧
      ∀ names, disk.entry? (place ++ names) = some .directory →
        Path.below root names ∉ disk.phpFiles exclude root) ∧
    (∀ place content, target = .file place content → ∃ name, place.getLast? = some name ∧
      (Path.IsPhpName name → disk.phpFiles exclude root = [root]) ∧
      (¬Path.IsPhpName name → disk.phpFiles exclude root = [])) ∧
    ∀ listed : Disk, listed.entries.Perm disk.entries →
      listed.phpFiles exclude root = disk.phpFiles exclude root := by
  have hrootNe : root ≠ "" := htree.path_ne_empty hroot
  refine ⟨?_, ?_, ?_⟩
  · rintro place rfl
    have hfiles : disk.IsListing exclude root place (disk.phpFiles exclude root) :=
      htree.isListing_phpFiles hroot (hreadable place rfl)
    refine ⟨hfiles, fun names hentry hmem => ?_⟩
    obtain ⟨others, hsame, hfound⟩ := (hfiles.mem_iff _).mp hmem
    have hnames : ∀ name ∈ names, Path.IsName name :=
      fun name hname => htree.isName_of_mem hentry (List.mem_append_right _ hname)
    obtain rfl := Path.below_inj hrootNe hnames (hfound.isName htree) hsame
    obtain ⟨content, hfile⟩ := hfound.isFile
    rw [hentry] at hfile
    cases hfile
  · rintro place content rfl
    obtain ⟨name, hlast, hphp⟩ := htree.isPhp_iff_of_file hroot
    rw [phpFiles_of_file hroot]
    exact ⟨name, hlast, fun hname => if_pos (hphp.mpr hname), fun hname => if_neg (mt hphp.mp hname)⟩
  · intro listed hlisted
    cases target with
    | directory place => exact htree.phpFiles_of_perm hlisted hroot (hreadable place rfl)
    | file place content =>
        rw [phpFiles_of_file hroot, phpFiles_of_file ((htree.resolve_of_perm hlisted).mpr hroot)]

/-- Entries out of order: a directory with the extension, one that is hidden, one to be excluded, and a
hidden file with nothing before its ending. -/
def mixedTree : Disk where
  entries := [(["src", "lib.php", "a.php"], .file []), (["src", "lib.php"], .directory),
    (["src", "vendor", "v.php"], .file []), (["src"], .directory), (["src", ".php"], .file []),
    (["src", ".git", "x.php"], .file []), (["src", ".git"], .directory), (["src", "vendor"], .directory)]

theorem isTree_mixedTree : mixedTree.IsTree where
  distinct := by decide
  named := by decide +kernel
  inside := by decide
  noLinks := by simp [mixedTree]

theorem readableBelow_mixedTree : mixedTree.ReadableBelow "/src/" ["src"] := by
  intro names hentry
  have hsizes : ∀ names ∈ [["lib.php"], [], [".git"], ["vendor"]],
      (Path.below "/src/" names).utf8ByteSize ≤ maxPathSize := by decide +kernel
  apply hsizes
  simpa [mixedTree] using isTree_mixedTree.mem_entries_iff.mpr hentry

theorem phpFiles_exact_directory_named_php :
    mixedTree.IsListing ["vendor"] "/src/" ["src"] (mixedTree.phpFiles ["vendor"] "/src/") ∧
      "/src/lib.php/a.php" ∈ mixedTree.phpFiles ["vendor"] "/src/" ∧
      "/src/lib.php" ∉ mixedTree.phpFiles ["vendor"] "/src/" := by
  have hroot : mixedTree.resolve "/src/" = .ok (.directory ["src"]) := by decide +kernel
  have hreadable : ∀ place, Target.directory ["src"] = .directory place →
      mixedTree.ReadableBelow "/src/" place := by
    rintro place ⟨⟩
    exact readableBelow_mixedTree
  obtain ⟨hlisting, hdirectories⟩ :=
    (phpFiles_exact mixedTree isTree_mixedTree ["vendor"] "/src/" _ hroot hreadable).1 ["src"] rfl
  have hfound : mixedTree.FoundBelow ["vendor"] ["src"] ["lib.php", "a.php"] :=
    ⟨⟨[], rfl⟩, ⟨"a.php", rfl, "a", by decide, rfl⟩, by decide⟩
  refine ⟨hlisting, (hlisting.mem_iff _).mpr ⟨_, ?_, hfound⟩, hdirectories ["lib.php"] rfl⟩
  decide +kernel

end Disk

end PhpOutline
