import PhpOutline.Json.Basic

/-!
# Reading JSON text

A strict reader: one value between blanks, nothing after it. Strings denote sequences of characters,
so an escaped surrogate has to be followed by its other half. Lists and objects are nested only so
deep.
-/

namespace PhpOutline.Json

/-- Blanks between the parts of a value. -/
def isSpace (c : Char) : Bool := c == ' ' || c == '\t' || c == '\n' || c == '\r'

def skipSpace (cs : List Char) : List Char := cs.dropWhile isSpace

/-! ## Numbers -/

/-- The digits at the front, of which there has to be one, and what follows them. -/
def digits? (cs : List Char) : Option (List Char × List Char) :=
  match cs.span Char.isDigit with
  | ([], _) => none
  | (digits, rest) => some (digits, rest)

/-- A fraction, if there is one; fails on a point without digits. -/
def fraction? : List Char → Option (List Char × List Char)
  | '.' :: rest => (digits? rest).map fun (digits, rest) => ('.' :: digits, rest)
  | rest => some ([], rest)

/-- An exponent, if there is one; fails on a mark without digits. -/
def exponent? : List Char → Option (List Char × List Char)
  | mark :: rest =>
    if mark = 'e' ∨ mark = 'E' then
      match rest with
      | '+' :: rest => (digits? rest).map fun (digits, rest) => (mark :: '+' :: digits, rest)
      | '-' :: rest => (digits? rest).map fun (digits, rest) => (mark :: '-' :: digits, rest)
      | rest => (digits? rest).map fun (digits, rest) => (mark :: digits, rest)
    else some ([], mark :: rest)
  | [] => some ([], [])

def digitsValue (digits : List Char) : Nat :=
  digits.foldl (fun value c => 10 * value + (c.toNat - 48)) 0

/-- The number written by a sign, digits, a fraction and an exponent. Minus zero is not an integer. -/
def ofNumeral (negative : Bool) (whole fraction exponent : List Char) : Json :=
  if fraction = [] ∧ exponent = [] ∧ ¬(negative ∧ digitsValue whole = 0) then
    .int (if negative then -(digitsValue whole : Int) else digitsValue whole)
  else
    .decimal (.ofList ((if negative then ['-'] else []) ++ whole ++ fraction ++ exponent))

/-- A number; more than one digit may not begin with zero. -/
def number? (cs : List Char) : Option (Json × List Char) := do
  let (negative, cs) := match cs with
    | '-' :: rest => (true, rest)
    | rest => (false, rest)
  let (whole, cs) ← digits? cs
  if whole.length > 1 ∧ whole.head? = some '0' then none
  let (fraction, cs) ← fraction? cs
  let (exponent, cs) ← exponent? cs
  return (ofNumeral negative whole fraction exponent, cs)

/-! ## Strings -/

/-- A part of a string: a character, or a 16-bit unit given by its number. -/
inductive Piece where
  | char (c : Char)
  | unit (value : Nat)

def hexValue? (c : Char) : Option Nat :=
  if c.isDigit then some (c.toNat - 48)
  else if 'a' ≤ c ∧ c ≤ 'f' then some (c.toNat - 87)
  else if 'A' ≤ c ∧ c ≤ 'F' then some (c.toNat - 55)
  else none

def hexNumber? (digits : List Char) : Option Nat :=
  digits.foldlM (fun value c => (hexValue? c).map (16 * value + ·)) 0

/-- The character that a one-letter escape stands for. -/
def unescape? : Char → Option Char
  | '"' => some '"'
  | '\\' => some '\\'
  | '/' => some '/'
  | 'b' => some '\x08'
  | 'f' => some '\x0c'
  | 'n' => some '\n'
  | 'r' => some '\r'
  | 't' => some '\t'
  | _ => none

/-- The parts of a string up to its closing quote, after those in `acc`, the latest first, and what
follows the quote. -/
def pieces? (acc : List Piece) : List Char → Option (List Piece × List Char)
  | '"' :: rest => some (acc.reverse, rest)
  | '\\' :: 'u' :: a :: b :: c :: d :: rest =>
    match hexNumber? [a, b, c, d] with
    | some value => pieces? (.unit value :: acc) rest
    | none => none
  | '\\' :: c :: rest =>
    match unescape? c with
    | some c => pieces? (.char c :: acc) rest
    | none => none
  | c :: rest => if c.toNat < 32 ∨ c = '\\' then none else pieces? (.char c :: acc) rest
  | [] => none

/-- Joins surrogate pairs; fails on half of one. The result is added to `acc`, the latest first. -/
def joinUnits? (acc : List Char) : List Piece → Option String
  | [] => some (.ofList acc.reverse)
  | .char c :: rest => joinUnits? (c :: acc) rest
  | .unit high :: .unit low :: rest =>
    if 0xd800 ≤ high ∧ high < 0xdc00 then
      if 0xdc00 ≤ low ∧ low < 0xe000 then
        joinUnits? (.ofNat (0x10000 + (high - 0xd800) * 0x400 + (low - 0xdc00)) :: acc) rest
      else none
    else if 0xdc00 ≤ high ∧ high < 0xe000 then none
    else joinUnits? (.ofNat high :: acc) (.unit low :: rest)
  | .unit value :: rest =>
    if 0xd800 ≤ value ∧ value < 0xe000 then none else joinUnits? (.ofNat value :: acc) rest

/-- A string, after its opening quote. -/
def stringBody? (cs : List Char) : Option (String × List Char) := do
  let (pieces, rest) ← pieces? [] cs
  let text ← joinUnits? [] pieces
  return (text, rest)

/-! ## Values -/

/-- Drops a word from the front. -/
def dropWord? (word cs : List Char) : Option (List Char) :=
  if word.isPrefixOf cs then some (cs.drop word.length) else none

mutual

/-- A value with the blanks before it, with at most `depth` lists and objects inside each other. Every
nested call has consumed a character, so the length of the text is fuel enough. -/
def value? : (fuel depth : Nat) → List Char → Option (Json × List Char)
  | 0, _, _ => none
  | fuel + 1, depth, cs =>
    match skipSpace cs with
    | 'n' :: rest => (dropWord? ['u', 'l', 'l'] rest).map (Json.null, ·)
    | 't' :: rest => (dropWord? ['r', 'u', 'e'] rest).map (Json.bool true, ·)
    | 'f' :: rest => (dropWord? ['a', 'l', 's', 'e'] rest).map (Json.bool false, ·)
    | '"' :: rest => (stringBody? rest).map fun (text, rest) => (Json.str text, rest)
    | '[' :: rest =>
      match depth, skipSpace rest with
      | 0, _ => none
      | _ + 1, ']' :: rest => some (Json.arr [], rest)
      | depth + 1, rest => itemsFrom? fuel depth [] rest
    | '\x7b' :: rest =>
      match depth, skipSpace rest with
      | 0, _ => none
      | _ + 1, '\x7d' :: rest => some (Json.obj [], rest)
      | depth + 1, rest => fieldsFrom? fuel depth [] rest
    | rest => number? rest

/-- The items of a list after those in `acc`, the latest first. -/
def itemsFrom? : (fuel depth : Nat) → List Json → List Char → Option (Json × List Char)
  | 0, _, _, _ => none
  | fuel + 1, depth, acc, cs =>
    match value? fuel depth cs with
    | none => none
    | some (item, rest) =>
      match skipSpace rest with
      | ',' :: rest => itemsFrom? fuel depth (item :: acc) rest
      | ']' :: rest => some (Json.arr (item :: acc).reverse, rest)
      | _ => none

/-- The fields of an object after those in `acc`, the latest first. -/
def fieldsFrom? :
    (fuel depth : Nat) → List (String × Json) → List Char → Option (Json × List Char)
  | 0, _, _, _ => none
  | fuel + 1, depth, acc, cs =>
    match skipSpace cs with
    | '"' :: rest =>
      match stringBody? rest with
      | none => none
      | some (key, rest) =>
        match skipSpace rest with
        | ':' :: rest =>
          match value? fuel depth rest with
          | none => none
          | some (value, rest) =>
            match skipSpace rest with
            | ',' :: rest => fieldsFrom? fuel depth ((key, value) :: acc) rest
            | '\x7d' :: rest => some (Json.ofFields ((key, value) :: acc).reverse, rest)
            | _ => none
        | _ => none
    | _ => none

end

/-- How many lists and objects may be inside each other. -/
def maxNesting : Nat := 127

/-- Reads a text that holds one value. -/
def parse? (text : String) : Option Json :=
  match value? (2 * text.length + 2) maxNesting text.toList with
  | some (value, rest) => if (skipSpace rest).isEmpty then some value else none
  | none => none

end PhpOutline.Json
