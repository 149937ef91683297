import PhpOutline.Position

/-!
# Declared symbols

A symbol is a declared name with its kind and its place in the source.
-/

namespace PhpOutline

/-- A trait counts as a class. -/
inductive Kind where
  | classDecl
  | interfaceDecl
  | functionDecl
deriving DecidableEq, Repr, Inhabited

namespace Kind

def isClassLike : Kind → Bool
  | classDecl | interfaceDecl => true
  | functionDecl => false

/-- The word for the kind in messages. -/
def word : Kind → String
  | classDecl => "class"
  | interfaceDecl => "interface"
  | functionDecl => "function"

/-- The name of the kind in stored records. -/
def name : Kind → String
  | classDecl => "Class"
  | interfaceDecl => "Interface"
  | functionDecl => "Function"

def ofName? (name : String) : Option Kind :=
  [classDecl, interfaceDecl, functionDecl].find? (·.name == name)

def editorCode : Kind → Nat
  | classDecl => 5
  | interfaceDecl => 11
  | functionDecl => 12

end Kind

structure Symbol where
  name : String
  kind : Kind
  /-- Lines are counted from one. -/
  line : Nat
  startColumn : Nat
  endColumn : Nat
  braceDepth : Nat
deriving DecidableEq, Repr, Inhabited

/-- Columns are counted in characters. -/
def Symbol.nameSpan (symbol : Symbol) : Span :=
  .onLine (symbol.line - 1) symbol.startColumn symbol.endColumn

end PhpOutline
