import PhpOutline.Scanner.Step

/-!
# Scan reports

What is known when a text has ended.
-/

namespace PhpOutline

structure Unresolved where
  keyword : String
  kind : Kind
  start : Position
deriving DecidableEq, Repr, Inhabited

structure Report where
  symbols : List Symbol
  /-- The innermost string, block comment or parenthesis that was never closed. -/
  openRegion : Option Frame
  unresolved : List Unresolved
  lines : Nat
deriving DecidableEq, Repr, Inhabited

namespace Scanner

/-- There is none if the keyword is no longer remembered. -/
def unresolved? (s : Scanner) (intent : Intent) : Option Unresolved :=
  (s.lookback.get? intent.keyword).map fun label => ⟨label.text, intent.kind, label.start⟩

/-- An identifier at the very end of the code is complete. -/
def close (s : Scanner) : Scanner := if s.region = .code then s.complete else s

def report (s : Scanner) : Report where
  symbols := s.close.symbols
  openRegion := s.close.regions.openRegion?
  unresolved := s.close.intents.waiting.filterMap s.close.unresolved?
  lines := s.close.position.line

end Scanner

def scanPieces (options : ScanOptions) (pieces : List String) : Report :=
  (pieces.foldl Scanner.feed (.start options)).report

def scan (options : ScanOptions) (text : String) : Report :=
  ((Scanner.start options).feed text).report

end PhpOutline
