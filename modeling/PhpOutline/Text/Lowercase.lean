import PhpOutline.Text.CaseTable

/-!
# Lower case

Lower case as Unicode defines it, character by character but for two exceptions: the capital I with a
dot becomes two characters, and a capital sigma at the end of a word a final sigma.
-/

namespace PhpOutline.Case

def inRanges (ranges : List (Nat × Nat)) (c : Char) : Bool :=
  match ranges.find? (c.toNat ≤ ·.2) with
  | some range => decide (range.1 ≤ c.toNat)
  | none => false

def isCased (c : Char) : Bool := inRanges casedRanges c

def isIgnorable (c : Char) : Bool := inRanges ignorableRanges c

def lowerCode (code : Nat) : Nat :=
  match runs.find? (code ≤ ·.last) with
  | some run =>
    if run.first ≤ code ∧ (code - run.first) % run.stride = 0 then run.lower + (code - run.first)
    else code
  | none => code

def lowerChar (c : Char) : List Char :=
  if c = '\u0130' then ['i', '\u0307'] else [.ofNat (lowerCode c.toNat)]

/-- Whether a cased letter comes first when ignorable characters are passed over. -/
def meetsCased (text : List Char) : Bool :=
  match text.dropWhile isIgnorable with
  | c :: _ => isCased c
  | [] => false

/-- The form of a capital sigma between two texts, the first of which is given backwards. It is
final if there is a letter before it and none after it. -/
def lowerSigma (before after : List Char) : Char :=
  if meetsCased before && !meetsCased after then 'ς' else 'σ'

/-- The lower case of a text that follows another, which is given backwards. -/
def lowercaseAfter (before : List Char) : List Char → List Char
  | [] => []
  | c :: after =>
    (if c = 'Σ' then [lowerSigma before after] else lowerChar c) ++ lowercaseAfter (c :: before) after

end PhpOutline.Case

namespace PhpOutline

def lowercase (text : List Char) : List Char := Case.lowercaseAfter [] text

def occursIn (needle : List Char) : List Char → Bool
  | [] => needle.isEmpty
  | c :: rest => needle.isPrefixOf (c :: rest) || occursIn needle rest

theorem occursIn_iff {needle text : List Char} :
    occursIn needle text = true ↔ needle <:+: text := by
  induction text with
  | nil => simp [occursIn]
  | cons c rest ih => simp [occursIn, ih, List.infix_cons_iff]

end PhpOutline
