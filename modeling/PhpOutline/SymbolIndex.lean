import PhpOutline.Symbol
import PhpOutline.Text.Lowercase
import PhpOutline.UriMap

/-!
# Symbol index

The symbols of many files, by the URI of the file, and the search for symbols by a part of their
name.
-/

namespace PhpOutline

abbrev SymbolIndex := UriMap (List Symbol)

structure Hit where
  uri : String
  symbol : Symbol
deriving DecidableEq, Repr, Inhabited

/-- Search results are in the order of URIs, then of lines, then of columns. -/
def Hit.le (a b : Hit) : Bool :=
  a.uri < b.uri || (a.uri == b.uri &&
    (a.symbol.line < b.symbol.line ||
      (a.symbol.line == b.symbol.line && a.symbol.startColumn ≤ b.symbol.startColumn)))

/-- Query and name are compared in lower case. -/
def Symbol.matchesQuery (symbol : Symbol) (query : String) : Bool :=
  occursIn (lowercase query.toList) (lowercase symbol.name.toList)

namespace SymbolIndex

def hits (index : SymbolIndex) : List Hit :=
  index.entries.flatMap fun (uri, symbols) => symbols.map (⟨uri, ·⟩)

def symbolCount (index : SymbolIndex) : Nat := index.hits.length

/-- Symbols at the same place keep the order that they have in their file. -/
def search (index : SymbolIndex) (query : String) : List Hit :=
  (index.hits.filter (·.symbol.matchesQuery query)).mergeSort Hit.le

end SymbolIndex

end PhpOutline
