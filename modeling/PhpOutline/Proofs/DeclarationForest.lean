import PhpOutline.Label
import PhpOutline.Proofs.Placement

/-!
# Forests of declarations

A source text that consists of declarations alone, nested to any depth, as a syntax tree that keeps
the blanks and the spelling: class-like declarations with members, functions with a body and
functions without one. A forest is rendered as a text, and its symbols are read off the tree.
-/

namespace PhpOutline

/-! ## Tokens -/

/-- Spaces, tabs and line feeds, perhaps none. -/
structure Gap where
  text : List Char
  blank : ∀ c ∈ text, c = ' ' ∨ c = '\t' ∨ c = '\n'

/-- Spaces, tabs and line feeds, at least one. -/
structure Separator extends Gap where
  ne_nil : text ≠ []

/-- A label that introduces no declaration. -/
structure Word where
  text : List Char
  ne_nil : text ≠ []
  label : ∀ c ∈ text, isLabelChar c
  plain : ∀ keyword ∈ ["class", "interface", "trait", "function"],
    sameWord (.ofList text) keyword = false

/-- A label that a declaration can be named by. -/
structure Name extends Word where
  declared : isDeclaredName (.ofList text)

inductive ClassForm where
  | plainClass
  | interface
  | trait
deriving DecidableEq, Repr

def ClassForm.keyword : ClassForm → String
  | plainClass => "class"
  | interface => "interface"
  | trait => "trait"

def ClassForm.kind (distinctInterfaces : Bool) : ClassForm → Kind
  | plainClass | trait => .classDecl
  | interface => if distinctInterfaces then .interfaceDecl else .classDecl

/-- Texts between parentheses: every parenthesis has its counterpart, and there are no quotes, no
braces and none of the characters that begin a comment or a close tag. -/
inductive Balanced : List Char → Prop where
  | nil : Balanced []
  | char {rest : List Char} (c : Char)
      (hplain : c ∉ ['(', ')', '"', '\'', '#', '/', '?', '{', '}']) (hrest : Balanced rest) :
      Balanced (c :: rest)
  | group {inner rest : List Char} (hinner : Balanced inner) (hrest : Balanced rest) :
      Balanced ('(' :: (inner ++ ')' :: rest))

/-! ## Declarations -/

/-- A keyword in upper or lower case, a name, and labels such as those after `extends`. -/
structure ClassHeader where
  form : ClassForm
  keyword : List Char
  spelled : sameWord (.ofList keyword) form.keyword
  separator : Separator
  name : Name
  labels : List (Separator × Word)
  gap : Gap

structure Result where
  gap : Gap
  gapAfterColon : Gap
  label : Word

structure FunctionHeader where
  keyword : List Char
  spelled : sameWord (.ofList keyword) "function"
  separator : Separator
  name : Name
  gap : Gap
  params : List Char
  balanced : Balanced params
  result : Option Result
  gapAfter : Gap

/-- Declarations one after the other, with the blanks before each of them and at the end. -/
inductive Forest where
  | nil (gap : Gap)
  | classLike (gap : Gap) (header : ClassHeader) (members rest : Forest)
  | function (gap : Gap) (header : FunctionHeader) (body rest : Forest)
  /-- A function without a body. -/
  | prototype (gap : Gap) (header : FunctionHeader) (rest : Forest)

/-- The headers of all class-like declarations, however deep. -/
def Forest.classHeaders : Forest → List ClassHeader
  | nil _ => []
  | classLike _ header members rest => header :: (members.classHeaders ++ rest.classHeaders)
  | function _ _ body rest => body.classHeaders ++ rest.classHeaders
  | prototype _ _ rest => rest.classHeaders

/-! ## The text of a forest -/

def renderLabels (labels : List (Separator × Word)) : List Char :=
  labels.flatMap fun (separator, word) => separator.text ++ word.text

def ClassHeader.render (header : ClassHeader) : List Char :=
  header.keyword ++ (header.separator.text ++ (header.name.text ++
    (renderLabels header.labels ++ header.gap.text)))

def Result.render (result : Result) : List Char :=
  result.gap.text ++ ':' :: (result.gapAfterColon.text ++ result.label.text)

def FunctionHeader.render (header : FunctionHeader) : List Char :=
  header.keyword ++ (header.separator.text ++ (header.name.text ++ (header.gap.text ++
    '(' :: (header.params ++ ')' :: ((header.result.elim [] Result.render) ++
      header.gapAfter.text)))))

def Forest.render : Forest → List Char
  | nil gap => gap.text
  | classLike gap header members rest =>
    gap.text ++ (header.render ++ '{' :: (members.render ++ '}' :: rest.render))
  | function gap header body rest =>
    gap.text ++ (header.render ++ '{' :: (body.render ++ '}' :: rest.render))
  | prototype gap header rest => gap.text ++ (header.render ++ ';' :: rest.render)

/-- The text that leads into the code, with a space. -/
def openTag : List Char := ['<', '?', 'p', 'h', 'p', ' ']

/-! ## The symbols of a forest -/

/-- The symbol of a declaration whose name stands after a text. A column past the largest counter
value stays there. -/
def Name.symbol (name : Name) (kind : Kind) (before : List Char) (depth : Nat) : Symbol where
  name := .ofList name.text
  kind := kind
  line := (placeAfter before).line
  startColumn := min (placeAfter before).column counterMax
  endColumn := min ((placeAfter before).column + name.text.length) counterMax
  braceDepth := depth

/-- The declarations in the order of their names, each before what is inside of it, when the forest
stands after a text and inside of `depth` declarations. -/
def Forest.symbols (distinctInterfaces : Bool) (before : List Char) (depth : Nat) :
    Forest → List Symbol
  | nil _ => []
  | classLike gap header members rest =>
    let inside := before ++ gap.text ++ header.render ++ ['{']
    header.name.symbol (header.form.kind distinctInterfaces)
        (before ++ gap.text ++ header.keyword ++ header.separator.text) depth ::
      (members.symbols distinctInterfaces inside (depth + 1) ++
        rest.symbols distinctInterfaces (inside ++ members.render ++ ['}']) depth)
  | function gap header body rest =>
    let inside := before ++ gap.text ++ header.render ++ ['{']
    header.name.symbol .functionDecl
        (before ++ gap.text ++ header.keyword ++ header.separator.text) depth ::
      (body.symbols distinctInterfaces inside (depth + 1) ++
        rest.symbols distinctInterfaces (inside ++ body.render ++ ['}']) depth)
  | prototype gap header rest =>
    header.name.symbol .functionDecl
        (before ++ gap.text ++ header.keyword ++ header.separator.text) depth ::
      rest.symbols distinctInterfaces (before ++ gap.text ++ header.render ++ [';']) depth

end PhpOutline
