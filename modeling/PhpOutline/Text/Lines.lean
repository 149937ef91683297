/-!
# Lines of a document

A line of a document holds the break that ends it. A carriage return with a line feed after it is one
break. The last line has none and may be empty.
-/

namespace PhpOutline

/-- Line feed, vertical tab, form feed, carriage return, next line, line separator and paragraph
separator. -/
def isLineBreak (c : Char) : Bool :=
  ('\n' ≤ c && c ≤ '\r') || c == '\u0085' || c == '\u2028' || c == '\u2029'

def consLine (c : Char) : List (List Char) → List (List Char)
  | [] => [[c]]
  | line :: rest => (c :: line) :: rest

def splitLines : List Char → List (List Char)
  | [] => [[]]
  | '\r' :: '\n' :: rest => ['\r', '\n'] :: splitLines rest
  | c :: rest => if isLineBreak c then [c] :: splitLines rest else consLine c (splitLines rest)

theorem flatten_consLine (c : Char) (parts : List (List Char)) :
    (consLine c parts).flatten = c :: parts.flatten := by
  cases parts <;> simp [consLine]

theorem flatten_splitLines (text : List Char) : (splitLines text).flatten = text := by
  fun_induction splitLines text <;> simp_all [flatten_consLine]

end PhpOutline
