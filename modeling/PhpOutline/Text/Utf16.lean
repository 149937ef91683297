/-!
# Lengths in UTF-16

Editors count columns in 16-bit units: a character beyond the first 65536 takes two of them.
-/

namespace PhpOutline.Utf16

def width (c : Char) : Nat := if c.toNat < 0x10000 then 1 else 2

def length : List Char → Nat
  | [] => 0
  | c :: rest => width c + length rest

theorem length_append (first second : List Char) :
    length (first ++ second) = length first + length second := by
  induction first with
  | nil => simp [length]
  | cons c rest ih =>
    simp only [List.cons_append, length, ih]
    omega

/-- The number of characters that lie wholly within the first `units` units of a text. -/
def charsWithin (units : Nat) : List Char → Nat
  | [] => 0
  | c :: rest => if width c ≤ units then charsWithin (units - width c) rest + 1 else 0

end PhpOutline.Utf16
