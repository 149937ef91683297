import PhpOutline.Position

/-!
# Lexical regions

Strings, comments and parentheses are within the code, and the code within the page, which starts at
the first character and is never left.
-/

namespace PhpOutline

inductive Region where
  | page
  | code
  | doubleQuoted
  | singleQuoted
  | lineComment
  | blockComment
  /-- The parentheses open beyond the first are counted without a limit. `hasRoom_run` keeps their number
  within 32 bits for texts of fewer than `counterMax` characters. -/
  | parens (nested : Nat)
deriving DecidableEq, Repr, Inhabited

def Region.awaitsClose : Region → Bool
  | doubleQuoted | singleQuoted | blockComment | parens _ => true
  | page | code | lineComment => false

structure Frame where
  region : Region
  start : Position
deriving DecidableEq, Repr, Inhabited

def Frame.page : Frame := ⟨.page, .first⟩

/-- The page is left implicit, so that it can be neither dropped nor changed. The other frames are listed
from the innermost outwards. -/
structure RegionStack where
  inner : List Frame
deriving DecidableEq, Repr, Inhabited

namespace RegionStack

def outermost : RegionStack := ⟨[]⟩

def frames (stack : RegionStack) : List Frame := stack.inner ++ [.page]

def top (stack : RegionStack) : Frame := stack.inner.headD .page

def current (stack : RegionStack) : Region := stack.top.region

def push (stack : RegionStack) (frame : Frame) : RegionStack := ⟨frame :: stack.inner⟩

def pop (stack : RegionStack) : RegionStack := ⟨stack.inner.tail⟩

def replace (stack : RegionStack) (region : Region) : RegionStack :=
  match stack.inner with
  | [] => stack
  | frame :: outer => ⟨{ frame with region } :: outer⟩

def openRegion? (stack : RegionStack) : Option Frame :=
  stack.frames.find? (·.region.awaitsClose)

end RegionStack

end PhpOutline
