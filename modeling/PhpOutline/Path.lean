/-!
# Paths

Slashes divide a path into names. What was written is kept, never normalised. Paths are Unicode text;
paths in other bytes are outside of the model.
-/

namespace PhpOutline.Path

def segments (path : String) : List String := (path.toList.splitOn '/').map .ofList

def isAbsolute (path : String) : Bool := path.toList.head? == some '/'

def names (path : String) : List String := (segments path).filter fun name => name != "" && name != "."

def child (directory name : String) : String :=
  match directory.toList.getLast? with
  | none | some '/' => directory ++ name
  | some _ => directory ++ "/" ++ name

/-- A dot at the very beginning of a name does not count. -/
def extension? (name : String) : Option String :=
  match name.toList.reverse.span (· != '.') with
  | (ending, _ :: _ :: _) => some (.ofList ending.reverse)
  | _ => none

def isPhp (path : String) : Bool :=
  match (names path).getLast? with
  | none | some ".." => false
  | some name => extension? name == some "php"

def le (a b : String) : Bool := !decide (names b < names a)

end PhpOutline.Path
