import PhpOutline.Scanner.Basic

/-!
# Scanning

The scanner takes one character at a time. To feed it a text is a fold over the characters, so it does
not matter how the text is cut into pieces.
-/

namespace PhpOutline.Scanner

/-- The tags are in lower case. -/
def openTags : List (List Char) := [['<', '?', 'p', 'h', 'p'], ['<', '?', '=']]

def stepPage (s : Scanner) (c : Char) : Scanner :=
  if c = '<' then { s with tag := ['<'] }
  else if s.tag = [] then s
  else
    let tag := s.tag ++ [c.toLower]
    if tag ∈ openTags then s.enterCode
    else if openTags.any (tag.isPrefixOf ·) then { s with tag }
    else { s with tag := [] }

/-- The second half of a close tag or of the start of a comment, in code or between parentheses. -/
def stepPair? (s : Scanner) (c : Char) : Option Scanner :=
  match s.lead, c with
  | some '?', '>' => some s.leaveCode
  | some '/', '/' => some ({ s with lead := none }.enterAtLead .lineComment)
  | some '/', '*' => some ({ s with lead := none }.enterAtLead .blockComment)
  | _, _ => none

/-- A character of the code that is neither blank nor part of a label. -/
def stepMark (s : Scanner) (c : Char) : Scanner :=
  match c with
  | '"' => s.enter .doubleQuoted
  | '\'' => s.enter .singleQuoted
  | '#' => s.enterHash
  | '/' | '?' => { s with lead := some c }
  | '(' => (s.confirm .paren).enter (.parens 0)
  | '{' => (s.confirm .brace).openBrace
  | '}' => s.closeBrace
  | ';' => s.cancel
  | _ => s

/-- A character that does not complete a two-character sequence. -/
def stepPlain (s : Scanner) (c : Char) : Scanner :=
  if isLabelChar c then (s.extend c).note c
  else if isBlank c then s.complete
  else (s.complete.stepMark c).note c

def stepCode (s : Scanner) (c : Char) : Scanner :=
  match s.stepPair? c with
  | some s' => s'
  | none => { s with lead := none }.stepPlain c

/-- Labels are not collected between parentheses. -/
def stepParensMark (s : Scanner) (nested : Nat) (c : Char) : Scanner :=
  match c with
  | '(' => { s with regions := s.regions.replace (.parens (nested + 1)) }
  | ')' =>
    if nested = 0 then s.leave
    else { s with regions := s.regions.replace (.parens (nested - 1)) }
  | '"' => s.enter .doubleQuoted
  | '\'' => s.enter .singleQuoted
  | '#' => s.enterHash
  | '/' | '?' => { s with lead := some c }
  | '{' => s.openBrace
  | '}' => s.closeBrace
  | _ => s

def stepParens (s : Scanner) (nested : Nat) (c : Char) : Scanner :=
  match s.stepPair? c with
  | some s' => s'
  | none =>
    let s' := { s with lead := none }.stepParensMark nested c
    if isBlank c then s' else s'.note c

/-- Only the closing quote matters. -/
def stepQuoted (s : Scanner) (quote c : Char) : Scanner :=
  if c = quote then s.leave.note c else s

/-- `#[` takes the comment back, and `?>` leaves the code. -/
def stepLineComment (s : Scanner) (c : Char) : Scanner :=
  match s.lead, c with
  | some '#', '[' => { s with lead := none }.leave
  | some '?', '>' => s.leaveCode
  | _, '?' => { s with lead := some '?' }
  | _, _ => { s with lead := none }

def stepBlockComment (s : Scanner) (c : Char) : Scanner :=
  match s.lead, c with
  | some '*', '/' => { s with lead := none }.leave
  | _, '*' => { s with lead := some '*' }
  | _, _ => { s with lead := none }

/-- A character that is neither a carriage return nor a line feed, in the innermost region. -/
def stepRegion (s : Scanner) (c : Char) : Scanner :=
  match s.region with
  | .page => s.stepPage c
  | .code => s.stepCode c
  | .parens nested => s.stepParens nested c
  | .doubleQuoted => s.stepQuoted '"' c
  | .singleQuoted => s.stepQuoted '\'' c
  | .lineComment => s.stepLineComment c
  | .blockComment => s.stepBlockComment c

/-- What a line feed ends besides the line. -/
def breakRegion (s : Scanner) : Scanner :=
  match s.region with
  | .page => { s with tag := [] }
  | .code => s.complete
  | .lineComment => s.leave
  | _ => { s with pending := none }

def stepLine (s : Scanner) : Scanner :=
  { s.breakRegion with lead := none, position := s.position.nextLine }

def stepColumn (s : Scanner) (c : Char) : Scanner :=
  { s.stepRegion c with position := s.position.nextColumn }

/-- A carriage return is invisible: it does not even take up a column. -/
def step (s : Scanner) (c : Char) : Scanner :=
  if c = '\r' then s
  else if c = '\n' then s.stepLine
  else s.stepColumn c

def run (s : Scanner) (text : List Char) : Scanner := text.foldl step s

def feed (s : Scanner) (piece : String) : Scanner := s.run piece.toList

theorem run_append (s : Scanner) (first second : List Char) :
    s.run (first ++ second) = (s.run first).run second := List.foldl_append

end PhpOutline.Scanner
