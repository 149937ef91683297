import Mathlib.Data.List.Induction
import Mathlib.Tactic.MkIffOfInductiveProp
import PhpOutline.Disk
import PhpOutline.Proofs.DistinctKeys

/-!
# Trees of directories

A disk without links whose entries stand in directories is a tree. In a tree a path leads from name to
name, and looking up a path that was made longer by a name goes on from where the path leads.
-/

namespace PhpOutline

/-! ## Paths made longer -/

namespace Path

/-- A name that an entry can have. -/
@[mk_iff]
structure IsName (name : String) : Prop where
  ne_empty : name ≠ ""
  ne_dot : name ≠ "."
  ne_dots : name ≠ ".."
  slash_notMem : '/' ∉ name.toList
  zero_notMem : Char.ofNat 0 ∉ name.toList

instance (name : String) : Decidable (IsName name) :=
  decidable_of_iff _ (isName_iff name).symm

/-- The path of what names lead to from a directory. -/
def below (directory : String) (names : List String) : String := names.foldl child directory

variable {directory name : String}

theorem segments_empty : segments "" = [""] := rfl

theorem segments_append_slash (first second : String) :
    segments (first ++ "/" ++ second) = segments first ++ segments second := by
  have hchars : (first ++ "/" ++ second).toList = first.toList ++ '/' :: second.toList := by
    simp
  rw [segments, hchars, List.splitOn_append_cons_self, List.map_append]
  rfl

theorem IsName.segments_eq (hname : IsName name) : segments name = [name] := by
  rw [segments, List.splitOn_eq_singleton hname.slash_notMem, List.map_singleton, String.ofList_toList]

theorem names_append_slash (first second : String) :
    names (first ++ "/" ++ second) = names first ++ names second := by
  rw [names, segments_append_slash, List.filter_append]
  rfl

theorem IsName.names_eq (hname : IsName name) : names name = [name] := by
  simp [names, hname.segments_eq, hname.ne_empty, hname.ne_dot]

/-- A slash comes before the name of an entry, and only one. -/
theorem exists_child_eq (hdirectory : directory ≠ "") (name : String) :
    ∃ stem, (directory = stem ∨ directory = stem ++ "/" ++ "") ∧
      child directory name = stem ++ "/" ++ name := by
  cases hlast : directory.toList.getLast? with
  | none => exact absurd (String.toList_eq_nil_iff.mp (List.getLast?_eq_none_iff.mp hlast)) hdirectory
  | some c =>
      by_cases hc : c = '/'
      · subst hc
        obtain ⟨init, hinit⟩ := List.getLast?_eq_some_iff.mp hlast
        have hstem : directory = String.ofList init ++ "/" ++ "" := by
          apply String.toList_inj.mp
          simp [hinit]
        refine ⟨String.ofList init, Or.inr hstem, ?_⟩
        rw [child, hlast]
        simp [hstem]
      · refine ⟨directory, Or.inl rfl, ?_⟩
        rw [child, hlast]
        split
        · cases ‹some c = none›
        · exact absurd (Option.some.inj ‹_›) hc
        · rfl

theorem child_ne_empty (hdirectory : directory ≠ "") (name : String) : child directory name ≠ "" := by
  obtain ⟨stem, -, hchild⟩ := exists_child_eq hdirectory name
  intro hempty
  have hlength := congrArg String.length (hchild.symm.trans hempty)
  simp at hlength

theorem zero_notMem_child (hdirectory : Char.ofNat 0 ∉ directory.toList) (hname : IsName name) :
    Char.ofNat 0 ∉ (child directory name).toList := by
  unfold child
  split <;> simp [hdirectory, hname.zero_notMem]

theorem names_child (hdirectory : directory ≠ "") (hname : IsName name) :
    names (child directory name) = names directory ++ [name] := by
  obtain ⟨stem, hstem, hchild⟩ := exists_child_eq hdirectory name
  rw [hchild, names_append_slash, hname.names_eq]
  obtain rfl | rfl := hstem
  · rfl
  · rw [names_append_slash]
    simp [names, segments_empty]

theorem names_below (hdirectory : directory ≠ "") {path : List String}
    (hpath : ∀ name ∈ path, IsName name) :
    names (below directory path) = names directory ++ path := by
  induction path generalizing directory with
  | nil => simp [below]
  | cons name path ih =>
      obtain ⟨hname, hrest⟩ := List.forall_mem_cons.mp hpath
      change names (below (child directory name) path) = _
      rw [ih (child_ne_empty hdirectory name) hrest, names_child hdirectory hname, List.append_assoc]
      rfl

/-- Different names lead to different paths. -/
theorem below_inj (hdirectory : directory ≠ "") {path other : List String}
    (hpath : ∀ name ∈ path, IsName name) (hother : ∀ name ∈ other, IsName name)
    (hsame : below directory path = below directory other) : path = other := by
  have hnames := congrArg names hsame
  rwa [names_below hdirectory hpath, names_below hdirectory hother,
    List.append_cancel_left_eq] at hnames

end Path

/-! ## Places in a tree -/

namespace Disk

def IsDirectoryAt (disk : Disk) (place : List String) : Prop :=
  place = [] ∨ disk.entry? place = some .directory

instance (disk : Disk) (place : List String) : Decidable (disk.IsDirectoryAt place) :=
  inferInstanceAs (Decidable (_ ∨ _))

/-- Each place has one entry, which is no link and stands in a directory. -/
structure IsTree (disk : Disk) : Prop where
  distinct : (disk.entries.map Prod.fst).Nodup
  named : ∀ item ∈ disk.entries, item.1 ≠ [] ∧ ∀ name ∈ item.1, Path.IsName name
  inside : ∀ item ∈ disk.entries, disk.IsDirectoryAt item.1.dropLast
  noLinks : ∀ item ∈ disk.entries, ∀ target, item.2 ≠ .link target

variable {disk : Disk} {place here names : List String} {path name : String} {entry : Entry}

theorem IsTree.mem_entries_iff (htree : disk.IsTree) :
    (place, entry) ∈ disk.entries ↔ disk.entry? place = some entry :=
  (lookup_eq_some_iff_mem htree.distinct).symm

theorem IsTree.isName_of_mem (htree : disk.IsTree) (hentry : disk.entry? place = some entry)
    (hname : name ∈ place) : Path.IsName name :=
  (htree.named _ (htree.mem_entries_iff.mpr hentry)).2 name hname

/-- The places above an entry are directories. -/
theorem IsTree.isDirectoryAt_above (htree : disk.IsTree)
    (hentry : disk.entry? (place ++ names) = some entry) (hnames : names ≠ []) :
    disk.IsDirectoryAt place := by
  induction names using List.reverseRecOn generalizing entry with
  | nil => exact absurd rfl hnames
  | append_singleton names name ih =>
      have hinside := htree.inside _ (htree.mem_entries_iff.mpr hentry)
      rw [← List.append_assoc, List.dropLast_concat] at hinside
      by_cases hnone : names = []
      · simpa [hnone] using hinside
      · obtain hempty | hdirectory := hinside
        · exact absurd (List.append_eq_nil_iff.mp hempty).2 hnone
        · exact ih hdirectory hnone

theorem mem_namesIn_iff : name ∈ disk.namesIn place ↔ (disk.entry? (place ++ [name])).isSome := by
  have hplace : ∀ below : List String,
      (if below.dropLast = place then below.getLast? else none) = some name ↔ place ++ [name] = below := by
    intro below
    rw [Option.ite_none_right_eq_some]
    constructor
    · rintro ⟨rfl, hlast⟩
      exact List.dropLast_append_getLast? name hlast
    · rintro rfl
      simp
  simp only [namesIn, entry?, List.mem_filterMap, List.lookup_isSome_iff, beq_iff_eq, hplace]

theorem IsTree.nodup_namesIn (htree : disk.IsTree) (place : List String) :
    (disk.namesIn place).Nodup := by
  have hplaces : disk.namesIn place = (disk.entries.map Prod.fst).filterMap fun below =>
      if below.dropLast = place then below.getLast? else none := by
    rw [List.filterMap_map]
    rfl
  rw [hplaces]
  refine htree.distinct.filterMap fun first second name hfirst hsecond => ?_
  simp only [Option.mem_def, Option.ite_none_right_eq_some] at hfirst hsecond
  calc first = place ++ [name] := by
        rw [← hfirst.1, List.dropLast_append_getLast? name hfirst.2]
    _ = second := by rw [← hsecond.1, List.dropLast_append_getLast? name hsecond.2]

/-! ## Looking up -/

/-- **One name.** It leads on to a directory, whatever comes after it, or nowhere, or to a file, if
nothing comes after it, or to a link. -/
theorem walk_cons_cases (disk : Disk) (here : List String) (name : String) :
    (∃ next, ∀ rest, disk.walk here (name :: rest) = disk.walk next rest) ∨
    (∃ error, ∀ rest, disk.walk here (name :: rest) = .error error) ∨
    (∃ content, (name ≠ "" ∧ name ≠ "." ∧ name ≠ "..") ∧ ∀ rest, disk.walk here (name :: rest) =
      if rest = [] then .ok (.arrived (.file (here ++ [name]) content)) else .error .notADirectory) ∨
    ∃ target, disk.entry? (here ++ [name]) = some (.link target) ∧
      ∀ rest, disk.walk here (name :: rest) = .ok (.atLink here target rest) := by
  by_cases hnothing : name = "" ∨ name = "."
  · exact Or.inl ⟨here, fun rest => by rw [walk, if_pos hnothing]⟩
  by_cases hup : name = ".."
  · exact Or.inl ⟨here.dropLast, fun rest => by rw [walk, if_neg hnothing, if_pos hup]⟩
  simp only [walk, if_neg hnothing, if_neg hup]
  obtain ⟨hempty, hdot⟩ := not_or.mp hnothing
  match disk.entry? (here ++ [name]) with
  | none => exact Or.inr (Or.inl ⟨_, fun rest => rfl⟩)
  | some .directory => exact Or.inl ⟨_, fun rest => rfl⟩
  | some (.file content) =>
      exact Or.inr (Or.inr (Or.inl ⟨content, ⟨hempty, hdot, hup⟩, fun rest => rfl⟩))
  | some (.link target) => exact Or.inr (Or.inr (Or.inr ⟨target, rfl, fun rest => rfl⟩))

theorem walk_append {first there : List String}
    (hfirst : disk.walk here first = .ok (.arrived (.directory there))) (second : List String) :
    disk.walk here (first ++ second) = disk.walk there second := by
  induction first generalizing here with
  | nil =>
      simp only [walk, Except.ok.injEq, Walk.arrived.injEq, Target.directory.injEq] at hfirst
      rw [hfirst, List.nil_append]
  | cons name first ih =>
      obtain ⟨next, hnext⟩ | ⟨error, herror⟩ | ⟨content, -, hfile⟩ | ⟨target, -, hlink⟩ :=
        walk_cons_cases disk here name
      · rw [hnext] at hfirst
        rw [List.cons_append, hnext, ih hfirst]
      · simp [herror] at hfirst
      · rw [hfile] at hfirst
        split_ifs at hfirst
        simp at hfirst
      · simp [hlink] at hfirst

/-- All names but the last lead to directories. -/
theorem walk_concat {last : String} {target : Target}
    (hwalk : disk.walk here (names ++ [last]) = .ok (.arrived target)) :
    ∃ there, disk.walk here names = .ok (.arrived (.directory there)) ∧
      disk.walk there [last] = .ok (.arrived target) := by
  induction names generalizing here with
  | nil => exact ⟨here, rfl, hwalk⟩
  | cons name names ih =>
      rw [List.cons_append] at hwalk
      obtain ⟨next, hnext⟩ | ⟨error, herror⟩ | ⟨content, -, hfile⟩ | ⟨target, -, hlink⟩ :=
        walk_cons_cases disk here name
      · rw [hnext] at hwalk ⊢
        exact ih hwalk
      · simp [herror] at hwalk
      · simp [hfile] at hwalk
      · simp [hlink] at hwalk

/-- What leads to a file ends in the name of the file. -/
theorem exists_concat_of_walk_file {content : List UInt8}
    (hwalk : disk.walk here names = .ok (.arrived (.file place content))) :
    ∃ init name, names = init ++ [name] ∧ place.getLast? = some name ∧
      name ≠ "" ∧ name ≠ "." ∧ name ≠ ".." := by
  induction names generalizing here with
  | nil => simp [walk] at hwalk
  | cons name names ih =>
      obtain ⟨next, hnext⟩ | ⟨error, herror⟩ | ⟨content, hname, hfile⟩ | ⟨target, -, hlink⟩ :=
        walk_cons_cases disk here name
      · rw [hnext] at hwalk
        obtain ⟨init, last, rfl, hlast⟩ := ih hwalk
        exact ⟨name :: init, last, rfl, hlast⟩
      · simp [herror] at hwalk
      · rw [hfile] at hwalk
        split_ifs at hwalk with hrest
        subst hrest
        simp only [Except.ok.injEq, Walk.arrived.injEq, Target.file.injEq] at hwalk
        exact ⟨[], name, rfl, by simp [← hwalk.1], hname⟩
      · simp [hlink] at hwalk

theorem walk_name_eq_directory_iff (hname : Path.IsName name) {there : List String} :
    disk.walk place [name] = .ok (.arrived (.directory there)) ↔
      disk.entry? (place ++ [name]) = some .directory ∧ place ++ [name] = there := by
  rw [walk, if_neg (by simp [hname.ne_empty, hname.ne_dot]), if_neg hname.ne_dots]
  match disk.entry? (place ++ [name]) with
  | none => simp
  | some .directory => simp [walk]
  | some (.file content) => simp
  | some (.link target) => simp

/-! ## Looking up in a tree -/

theorem IsTree.entry?_ne_link (htree : disk.IsTree) (place : List String) (target : String) :
    disk.entry? place ≠ some (.link target) := by
  intro hentry
  exact htree.noLinks _ (htree.mem_entries_iff.mpr hentry) target rfl

theorem IsTree.walk_ne_atLink (htree : disk.IsTree) {there rest : List String} {link : String} :
    disk.walk here names ≠ .ok (.atLink there link rest) := by
  induction names generalizing here with
  | nil => simp [walk]
  | cons name names ih =>
      obtain ⟨next, hnext⟩ | ⟨error, herror⟩ | ⟨content, -, hfile⟩ | ⟨target, hentry, -⟩ :=
        walk_cons_cases disk here name
      · rw [hnext]
        exact ih
      · simp [herror]
      · rw [hfile]
        split_ifs <;> simp
      · exact absurd hentry (htree.entry?_ne_link _ _)

theorem IsTree.resolve_eq_ok_iff (htree : disk.IsTree) {target : Target} :
    disk.resolve path = .ok target ↔
      (Char.ofNat 0 ∉ path.toList ∧ path.utf8ByteSize ≤ maxPathSize ∧ path ≠ "") ∧
        disk.walk [] (Path.segments path) = .ok (.arrived target) := by
  rw [resolve]
  by_cases hzero : Char.ofNat 0 ∈ path.toList
  · simp [hzero]
  by_cases hsize : maxPathSize < path.utf8ByteSize
  · simp [hzero, hsize, Nat.not_le.mpr hsize]
  by_cases hempty : path = ""
  · simp [hempty]
  rw [if_neg hzero, if_neg hsize, if_neg hempty, and_iff_right ⟨hzero, Nat.not_lt.mp hsize, hempty⟩,
    follow.eq_def]
  match hwalk : disk.walk [] (Path.segments path) with
  | .error error => simp
  | .ok (.arrived reached) => simp
  | .ok (.atLink there link rest) => exact absurd hwalk htree.walk_ne_atLink

theorem IsTree.path_ne_empty (htree : disk.IsTree) {target : Target}
    (hpath : disk.resolve path = .ok target) : path ≠ "" :=
  (htree.resolve_eq_ok_iff.mp hpath).1.2.2

/-- A name at the end of a path leads on from the directory that the path leads to. -/
theorem IsTree.walk_child (htree : disk.IsTree) (hpath : disk.resolve path = .ok (.directory place))
    (hname : Path.IsName name) :
    disk.walk [] (Path.segments (Path.child path name)) = disk.walk place [name] := by
  obtain ⟨⟨-, -, hpathNe⟩, hwalk⟩ := htree.resolve_eq_ok_iff.mp hpath
  obtain ⟨stem, hstem, hchild⟩ := Path.exists_child_eq hpathNe name
  have hplace : disk.walk [] (Path.segments stem) = .ok (.arrived (.directory place)) := by
    obtain rfl | rfl := hstem
    · exact hwalk
    · rw [Path.segments_append_slash, Path.segments_empty] at hwalk
      obtain ⟨there, hthere, hlast⟩ := walk_concat hwalk
      simp only [walk, true_or, if_true, Except.ok.injEq, Walk.arrived.injEq] at hlast
      rwa [hlast] at hthere
  rw [hchild, Path.segments_append_slash, hname.segments_eq, walk_append hplace]

theorem IsTree.resolve_child_eq_iff (htree : disk.IsTree)
    (hpath : disk.resolve path = .ok (.directory place)) (hname : Path.IsName name) {there : List String} :
    disk.resolve (Path.child path name) = .ok (.directory there) ↔
      (Path.child path name).utf8ByteSize ≤ maxPathSize ∧
        disk.entry? (place ++ [name]) = some .directory ∧ place ++ [name] = there := by
  obtain ⟨⟨hzero, -, hpathNe⟩, -⟩ := htree.resolve_eq_ok_iff.mp hpath
  rw [htree.resolve_eq_ok_iff, htree.walk_child hpath hname, walk_name_eq_directory_iff hname]
  simp [Path.zero_notMem_child hzero hname, Path.child_ne_empty hpathNe]

theorem isDirectory_iff : disk.isDirectory path ↔ ∃ place, disk.resolve path = .ok (.directory place) := by
  unfold isDirectory
  match disk.resolve path with
  | .error error => simp
  | .ok (.directory place) => simp
  | .ok (.file place content) => simp

/-! ## The order of the entries -/

section Order

variable {listed : Disk}

theorem IsTree.entry?_of_perm (htree : disk.IsTree) (hlisted : listed.entries.Perm disk.entries)
    (place : List String) : listed.entry? place = disk.entry? place := by
  have hkeys : (listed.entries.map Prod.fst).Nodup := (hlisted.map _).nodup_iff.mpr htree.distinct
  exact lookup_eq_of_mem_iff hkeys htree.distinct fun entry => hlisted.mem_iff

theorem IsTree.of_perm (htree : disk.IsTree) (hlisted : listed.entries.Perm disk.entries) :
    listed.IsTree where
  distinct := (hlisted.map _).nodup_iff.mpr htree.distinct
  named item hitem := htree.named item (hlisted.mem_iff.mp hitem)
  inside item hitem := by
    rw [IsDirectoryAt, htree.entry?_of_perm hlisted]
    exact htree.inside item (hlisted.mem_iff.mp hitem)
  noLinks item hitem := htree.noLinks item (hlisted.mem_iff.mp hitem)

theorem walk_congr (hentry : ∀ place, listed.entry? place = disk.entry? place) (here names : List String) :
    listed.walk here names = disk.walk here names := by
  induction names generalizing here with
  | nil => rfl
  | cons name names ih => simp only [walk, hentry, ih]

theorem IsTree.resolve_of_perm (htree : disk.IsTree) (hlisted : listed.entries.Perm disk.entries)
    {target : Target} : listed.resolve path = .ok target ↔ disk.resolve path = .ok target := by
  rw [htree.resolve_eq_ok_iff, (htree.of_perm hlisted).resolve_eq_ok_iff,
    walk_congr (htree.entry?_of_perm hlisted)]

end Order

end Disk

end PhpOutline
