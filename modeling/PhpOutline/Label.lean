import PhpOutline.Symbol

/-!
# Labels

A label is an identifier as it stands in the source.
-/

namespace PhpOutline

/-- In terms of bytes, every byte from `7f` up belongs to a label. -/
def isLabelChar (c : Char) : Bool :=
  c.isAlphanum || c == '_' || 0x7f ≤ c.val

def isBlank (c : Char) : Bool :=
  c == ' ' || c == '\t' || c == '\n' || c == '\x0c' || c == '\r'

/-- Words are the same up to the case of ASCII letters. -/
def sameWord (a b : String) : Bool :=
  a.toList.map Char.toLower == b.toList.map Char.toLower

def keywordKind? (distinctInterfaces : Bool) (word : String) : Option Kind :=
  if sameWord word "class" || sameWord word "trait" then some .classDecl
  else if sameWord word "interface" then
    some (if distinctInterfaces then .interfaceDecl else .classDecl)
  else if sameWord word "function" then some .functionDecl
  else none

/-- Numbers are no names, nor are the words that follow `class` in the header of an anonymous class. -/
def isDeclaredName (word : String) : Bool :=
  match word.toList with
  | [] => false
  | c :: _ => !c.isDigit && !sameWord word "extends" && !sameWord word "implements"

structure Label where
  /-- Number of labels before this one. -/
  seq : Nat
  text : String
  start : Position
  braceDepth : Nat
deriving DecidableEq, Repr, Inhabited

def Label.endColumn (label : Label) : Nat :=
  satAdd label.start.column label.text.length

end PhpOutline
