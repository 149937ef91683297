/-!
# Positions in a source text

Lines are counted from one, and columns from zero in characters. Counters are held in 32 bits and stay
at their largest value instead of wrapping round.
-/

namespace PhpOutline

def counterMax : Nat := 4294967295

def satAdd (a b : Nat) : Nat := min (a + b) counterMax

theorem satAdd_eq_add {a b : Nat} (h : a + b ≤ counterMax) : satAdd a b = a + b :=
  Nat.min_eq_left h

structure Position where
  line : Nat
  column : Nat
deriving DecidableEq, Repr, Inhabited

namespace Position

def first : Position := ⟨1, 0⟩

def nextColumn (p : Position) : Position := { p with column := satAdd p.column 1 }

def prevColumn (p : Position) : Position := { p with column := p.column - 1 }

def nextLine (p : Position) : Position := ⟨satAdd p.line 1, 0⟩

def line0 (p : Position) : Nat := p.line - 1

end Position

/-- A stretch of text from a start up to, not including, an end. Lines are counted from zero. -/
structure Span where
  startLine : Nat
  startColumn : Nat
  endLine : Nat
  endColumn : Nat
deriving DecidableEq, Repr, Inhabited

namespace Span

def onLine (line startColumn endColumn : Nat) : Span := ⟨line, startColumn, line, endColumn⟩

def mapColumns (span : Span) (f : Nat → Nat → Nat) : Span where
  startLine := span.startLine
  startColumn := f span.startLine span.startColumn
  endLine := span.endLine
  endColumn := f span.endLine span.endColumn

end Span

end PhpOutline
