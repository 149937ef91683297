import PhpOutline.Intent
import PhpOutline.Lookback
import PhpOutline.Options
import PhpOutline.Region

/-!
# Scanner state

Everything the scanner knows between two characters, and the operations that its steps are made of.
-/

namespace PhpOutline

structure Identifier where
  text : List Char
  start : Position
  /-- The two significant characters before the identifier, the nearer one first. -/
  before : Option Char × Option Char
deriving DecidableEq, Repr, Inhabited

/-- A keyword does not stand after `$`, `::` or `->`. A single colon does not matter. -/
def Identifier.isEligible (ident : Identifier) : Bool :=
  match ident.before with
  | (some '$', _) | (some ':', some ':') | (some '>', some '-') => false
  | _ => true

def Identifier.keywordKind? (distinctInterfaces : Bool) (ident : Identifier) : Option Kind :=
  if ident.isEligible then PhpOutline.keywordKind? distinctInterfaces (.ofList ident.text) else none

structure Scanner where
  options : ScanOptions
  regions : RegionStack
  /-- The part of an open tag read so far, in lower case. -/
  tag : List Char
  /-- The first half of a two-character sequence such as `?>` or `/*`. -/
  lead : Option Char
  /-- The last two significant characters of the code, the nearer one first. -/
  recent : Option Char × Option Char
  pending : Option Identifier
  intents : IntentQueue
  lookback : Lookback
  /-- The declarations found, in the order in which they were confirmed. -/
  symbols : List Symbol
  position : Position
  braceDepth : Nat
deriving DecidableEq, Repr

namespace Scanner

def start (options : ScanOptions) : Scanner where
  options := options
  regions := .outermost
  tag := []
  lead := none
  recent := (none, none)
  pending := none
  intents := .empty
  lookback := .empty options.lookbackCapacity
  symbols := []
  position := .first
  braceDepth := 0

def region (s : Scanner) : Region := s.regions.current

/-! ## Regions -/

def enter (s : Scanner) (region : Region) : Scanner :=
  { s with regions := s.regions.push ⟨region, s.position⟩ }

/-- The region began with the character before the current one. -/
def enterAtLead (s : Scanner) (region : Region) : Scanner :=
  { s with regions := s.regions.push ⟨region, s.position.prevColumn⟩ }

def leave (s : Scanner) : Scanner := { s with regions := s.regions.pop }

/-- The character is remembered, since `#[` is not a comment after all. -/
def enterHash (s : Scanner) : Scanner := { s.enter .lineComment with lead := some '#' }

/-! ## Significant characters and braces -/

def note (s : Scanner) (c : Char) : Scanner := { s with recent := (some c, s.recent.1) }

def openBrace (s : Scanner) : Scanner := { s with braceDepth := satAdd s.braceDepth 1 }

def closeBrace (s : Scanner) : Scanner := { s with braceDepth := s.braceDepth - 1 }

/-! ## Identifiers and declarations -/

def extend (s : Scanner) (c : Char) : Scanner :=
  { s with
    pending := some <|
      match s.pending with
      | some ident => { ident with text := ident.text ++ [c] }
      | none => ⟨[c], s.position, s.recent⟩ }

/-- A complete identifier becomes a label, and waits as an intent if it is a declaration keyword. -/
def complete (s : Scanner) : Scanner :=
  match s.pending with
  | none => s
  | some ident =>
    { s with
      pending := none
      lookback := s.lookback.push (.ofList ident.text) ident.start s.braceDepth
      intents :=
        match ident.keywordKind? s.options.distinctInterfaces with
        | some kind => s.intents.push ⟨kind, s.lookback.next⟩
        | none => s.intents }

/-- The label after the keyword names the declaration. There is none if the label is missing, or no longer
remembered, or cannot be a name. -/
def declared? (s : Scanner) (intent : Intent) : Option Symbol :=
  match s.lookback.nameAfter intent.keyword with
  | none => none
  | some label =>
    if isDeclaredName label.text then
      some
        { name := label.text
          kind := intent.kind
          line := label.start.line
          startColumn := label.start.column
          endColumn := label.endColumn
          braceDepth := s.braceDepth }
    else none

def confirm (s : Scanner) (terminator : Terminator) : Scanner :=
  { s with
    intents := s.intents.settle terminator
    symbols := s.symbols ++ (s.intents.confirmedBy terminator).filterMap s.declared? }

def cancel (s : Scanner) : Scanner := { s with intents := .empty }

/-! ## Between page and code -/

/-- The current character is the last one of the open tag. -/
def enterCode (s : Scanner) : Scanner :=
  { s.enter .code with tag := [], lead := none, recent := (none, none) }

/-- The code is left from however deep inside of it. -/
def leaveCode (s : Scanner) : Scanner :=
  { s.complete with regions := .outermost, tag := [], lead := none, recent := (none, none) }

end Scanner

end PhpOutline
