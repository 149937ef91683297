import PhpOutline.Diagnostic
import PhpOutline.Text.Lines
import PhpOutline.Text.Utf16

/-!
# Open documents

The text of a file that is open in an editor. Its positions have lines counted from zero and columns in
UTF-16 units. It has more line breaks than the scanner knows.
-/

namespace PhpOutline

structure Document where
  chars : List Char
deriving DecidableEq, Repr, Inhabited

namespace Document

def ofString (text : String) : Document := ⟨text.toList⟩

def text (document : Document) : String := .ofList document.chars

def lines (document : Document) : List (List Char) := splitLines document.chars

def lineStart (document : Document) (line : Nat) : Nat :=
  (document.lines.take line).flatten.length

/-- A position past the end of a line, its break included, or of the document means that end. A column
within a character means its start. -/
def offset (document : Document) (line column : Nat) : Nat :=
  match document.lines[line]? with
  | some chars => document.lineStart line + Utf16.charsWithin column chars
  | none => document.chars.length

def edit (document : Document) (span : Span) (text : String) : Document :=
  let first := document.offset span.startLine span.startColumn
  let last := max first (document.offset span.endLine span.endColumn)
  ⟨document.chars.take first ++ text.toList ++ document.chars.drop last⟩

/-- From characters to UTF-16 units. Past the last line the column stays as it is. The number is not cut to
32 bits; `columns_there_and_back` bounds it by `counterMax` if the line is no longer than that. -/
def utf16Column (document : Document) (line column : Nat) : Nat :=
  match document.lines[line]? with
  | some chars => Utf16.length (chars.take column)
  | none => column

def utf16Span (document : Document) (span : Span) : Span := span.mapColumns document.utf16Column

def symbolSpan (document : Document) (symbol : Symbol) : Span := document.utf16Span symbol.nameSpan

def scan (document : Document) (options : ScanOptions) : Report :=
  ((Scanner.start options).run document.chars).report

end Document

end PhpOutline
