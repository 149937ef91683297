import PhpOutline.ByteSource
import PhpOutline.Path

/-!
# Disks

The state of a file system: files, directories and symbolic links under their places, a place being
the list of names that lead to it from the root. Looking a path up follows links, up to a limit, and
there are limits to the lengths of names and paths. Names are Unicode text, every file can be read, and
there is nothing else than files, directories and links: names in other bytes, missing permissions and
special files are outside of the model.
-/

namespace PhpOutline

inductive Entry where
  | file (content : List UInt8)
  | directory
  | link (target : String)
deriving DecidableEq, Repr, Inhabited

/-- One entry for each place. The root itself is a directory. -/
structure Disk where
  entries : List (List String × Entry)
deriving DecidableEq, Repr, Inhabited

/-- What a path leads to when links are followed. -/
inductive Target where
  | file (place : List String) (content : List UInt8)
  | directory (place : List String)
deriving DecidableEq, Repr, Inhabited

namespace Disk

def empty : Disk := ⟨[]⟩

def entry? (disk : Disk) (place : List String) : Option Entry := disk.entries.lookup place

/-! ## Looking up -/

/-- How far names lead from a directory. -/
inductive Walk where
  | arrived (target : Target)
  /-- At a link in the directory `here`, with more names to come after it. -/
  | atLink (here : List String) (link : String) (rest : List String)
deriving DecidableEq, Repr, Inhabited

def maxNameSize : Nat := 255

def missing (name : String) : SystemError :=
  if name.utf8ByteSize ≤ maxNameSize then .notFound else .nameTooLong

/-- Goes from a directory along names, up to the first link. A file can only come last, without so
much as a slash after it. -/
def walk (disk : Disk) (here : List String) : List String → Except SystemError Walk
  | [] => .ok (.arrived (.directory here))
  | name :: rest =>
    if name = "" ∨ name = "." then disk.walk here rest
    else if name = ".." then disk.walk here.dropLast rest
    else
      match disk.entry? (here ++ [name]) with
      | none => .error (missing name)
      | some .directory => disk.walk (here ++ [name]) rest
      | some (.file content) =>
        if rest = [] then .ok (.arrived (.file (here ++ [name]) content)) else .error .notADirectory
      | some (.link target) => .ok (.atLink here target rest)

/-- A link is replaced by the names in its target, which start at the root if the target does. -/
def follow (disk : Disk) (links : Nat) (here names : List String) : Except SystemError Target :=
  match disk.walk here names with
  | .error error => .error error
  | .ok (.arrived target) => .ok target
  | .ok (.atLink here target rest) =>
    match links with
    | 0 => .error .tooManyLinks
    | links + 1 =>
      disk.follow links (if Path.isAbsolute target then [] else here) (Path.segments target ++ rest)

def maxLinks : Nat := 40

def maxPathSize : Nat := 4095

/-- Paths that do not start at the root are taken as if they did. -/
def resolve (disk : Disk) (path : String) : Except SystemError Target :=
  if Char.ofNat 0 ∈ path.toList then .error .zeroInPath
  else if maxPathSize < path.utf8ByteSize then .error .nameTooLong
  else if path = "" then .error .notFound
  else disk.follow maxLinks [] (Path.segments path)

def isDirectory (disk : Disk) (path : String) : Bool :=
  match disk.resolve path with
  | .ok (.directory _) => true
  | _ => false

def isFile (disk : Disk) (path : String) : Bool :=
  match disk.resolve path with
  | .ok (.file _ _) => true
  | _ => false

def namesIn (disk : Disk) (place : List String) : List String :=
  disk.entries.filterMap fun (below, _) =>
    if below.dropLast = place then below.getLast? else none

/-! ## Scanning a file -/

/-- A directory can be opened, but not read. -/
def Target.source : Target → ByteSource
  | .file _ content => { rest := content }
  | .directory _ => { rest := [], failsAfter := some 0, fault := .system .isADirectory }

def scanFile (disk : Disk) (options : ScanOptions) (path : String) : Except ScanError Report :=
  match disk.resolve path with
  | .error error => .error (.cannotOpen path error)
  | .ok target => (Target.source target).scan options

/-! ## Changing -/

def erase (disk : Disk) (place : List String) : Disk :=
  ⟨disk.entries.filter fun (other, _) => !place.isPrefixOf other⟩

def put (disk : Disk) (place : List String) (entry : Entry) : Disk :=
  ⟨(place, entry) :: disk.entries.filter (·.1 != place)⟩

/-- A directory is made if there is nothing of the name. -/
def enter? (disk : Disk) (here : List String) (name : String) : Option (Disk × List String) :=
  match disk.follow maxLinks here [name] with
  | .ok (.directory there) => some (disk, there)
  | _ =>
    if (disk.entry? (here ++ [name])).isSome then none
    else some (disk.put (here ++ [name]) .directory, here ++ [name])

/-- The directory that names lead to from the root, and the disk once it is there. -/
def makeDirectories? (disk : Disk) (names : List String) : Option (Disk × List String) :=
  names.foldlM (fun (disk, here) name => disk.enter? here name) (disk, [])

def makeDirectory (disk : Disk) (path : String) : Disk :=
  ((disk.makeDirectories? (Path.names path)).map (·.1)).getD disk

/-- Nothing is made if there is something already. -/
def makeLink (disk : Disk) (path target : String) : Disk :=
  match (Path.names path).getLast?, disk.makeDirectories? (Path.names path).dropLast with
  | some name, some (made, here) =>
    if (made.entry? (here ++ [name])).isSome then disk else made.put (here ++ [name]) (.link target)
  | _, _ => disk

/-- The place that the names lead to, through at most `links` links. There may be nothing yet. -/
def writePlace? (disk : Disk) (links : Nat) (here names : List String) : Option (List String) :=
  match names.getLast?, disk.follow maxLinks here names.dropLast with
  | some name, .ok (.directory parent) =>
    if name ∈ ["", ".", ".."] ∨ maxNameSize < name.utf8ByteSize then none
    else
      match disk.entry? (parent ++ [name]) with
      | none | some (.file _) => some (parent ++ [name])
      | some .directory => none
      | some (.link target) =>
        match links with
        | 0 => none
        | links + 1 =>
          disk.writePlace? links (if Path.isAbsolute target then [] else parent)
            (Path.segments target)
  | _, _ => none

/-- Where a path leads through links, it is the file at their end that is written. A file that cannot be
written leaves the disk as it is. -/
def writeFile (disk : Disk) (path : String) (content : List UInt8) : Disk :=
  match disk.makeDirectories? (Path.names path).dropLast with
  | some (made, _) =>
    match made.writePlace? maxLinks [] (Path.segments path) with
    | some place => made.put place (.file content)
    | none => disk
  | none => disk

/-- What is below the entry goes as well. -/
def delete (disk : Disk) (path : String) : Disk :=
  match (Path.names path).getLast? with
  | none => disk
  | some name =>
    match disk.follow maxLinks [] (Path.names path).dropLast with
    | .ok (.directory here) => disk.erase (here ++ [name])
    | _ => disk

end Disk

end PhpOutline
