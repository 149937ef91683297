import PhpOutline.Disk

/-!
# Discovery of PHP files

All PHP files below a directory, without those in hidden directories and in directories that are
excluded by name.
-/

namespace PhpOutline

namespace Disk

def isPassedOver (exclude : List String) (name : String) : Bool :=
  name.toList.head? == some '.' || exclude.contains name

/-- The PHP files below the directory that a path leads to, at most `depth` directories deep. -/
def phpFilesBelow (disk : Disk) (exclude : List String) : (depth : Nat) → (path : String) → List String
  | 0, _ => []
  | depth + 1, path =>
    match disk.resolve path with
    | .ok (.directory place) =>
      (disk.namesIn place).flatMap fun name =>
        if disk.isDirectory (Path.child path name) then
          if isPassedOver exclude name then []
          else disk.phpFilesBelow exclude depth (Path.child path name)
        else if Path.isPhp (Path.child path name) then [Path.child path name]
        else []
    | _ => []

def height (disk : Disk) : Nat := (disk.entries.map (·.1.length)).foldl max 0

/-- Between any two links that a path leads through, and before the first and after the last of them, it
goes down the tree. -/
def pathDepth (disk : Disk) : Nat := (maxLinks + 1) * (disk.height + 1)

def phpFiles (disk : Disk) (exclude : List String) (path : String) : List String :=
  if disk.isDirectory path then
    (disk.phpFilesBelow exclude (disk.pathDepth + 1) path).mergeSort Path.le
  else if Path.isPhp path then [path]
  else []

end Disk

end PhpOutline
