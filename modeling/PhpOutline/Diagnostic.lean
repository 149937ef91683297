import PhpOutline.Report

/-!
# Diagnostics

A text that ends inside a string, or with a declaration that never got its body, is worth pointing
out. Diagnostics are read off the report of a scan.
-/

namespace PhpOutline

inductive Problem where
  | unterminatedString
  | unterminatedComment
  | unclosedParenthesis
  | unresolvedDeclaration (kind : Kind)
deriving DecidableEq, Repr, Inhabited

def Problem.message : Problem → String
  | unterminatedString => "Unterminated string literal"
  | unterminatedComment => "Unterminated comment"
  | unclosedParenthesis => "Unclosed parenthesis"
  | unresolvedDeclaration kind => "Incomplete " ++ kind.word ++ " declaration"

def Region.problem : Region → Problem
  | doubleQuoted | singleQuoted => .unterminatedString
  | blockComment => .unterminatedComment
  | _ => .unclosedParenthesis

structure Diagnostic where
  /-- Columns are counted in characters. -/
  span : Span
  problem : Problem
deriving DecidableEq, Repr, Inhabited

namespace Diagnostic

/-- Points at the character that opened the region. -/
def ofOpenRegion (frame : Frame) : Diagnostic where
  span := .onLine frame.start.line0 frame.start.column (frame.start.column + 1)
  problem := frame.region.problem

/-- Points at the keyword. -/
def ofUnresolved (decl : Unresolved) : Diagnostic where
  span := .onLine decl.start.line0 decl.start.column (decl.start.column + decl.keyword.length)
  problem := .unresolvedDeclaration decl.kind

end Diagnostic

/-- The open region comes first, then the keywords in order. -/
def Report.diagnostics (report : Report) : List Diagnostic :=
  report.openRegion.toList.map .ofOpenRegion ++ report.unresolved.map .ofUnresolved

end PhpOutline
