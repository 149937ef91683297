import PhpOutline.Json.Basic
import PhpOutline.Symbol

/-!
# Stored symbols

Symbols are stored as JSON objects with named fields. A list of the field values in their fixed order
is read as well.
-/

namespace PhpOutline

def Kind.toJson (kind : Kind) : Json := .str kind.name

/-- A kind is stored by its name; an object with the name as its only key and null under it is read
as well. -/
def Kind.ofJson? (json : Json) : Option Kind := json.word?.bind ofName?

namespace Symbol

def toJson (symbol : Symbol) : Json :=
  .obj
    [("name", .str symbol.name), ("kind", symbol.kind.toJson), ("line", .nat symbol.line),
      ("startColumn", .nat symbol.startColumn), ("endColumn", .nat symbol.endColumn),
      ("braceDepth", .nat symbol.braceDepth)]

def ofParts? (name kind line startColumn endColumn braceDepth : Json) : Option Symbol := do
  return {
    name := ← name.string?
    kind := ← Kind.ofJson? kind
    line := ← line.nat32?
    startColumn := ← startColumn.nat32?
    endColumn := ← endColumn.nat32?
    braceDepth := ← braceDepth.nat32? }

/-- All six fields are needed; further fields are ignored. -/
def ofJson? : Json → Option Symbol
  | .arr [name, kind, line, startColumn, endColumn, braceDepth] =>
    ofParts? name kind line startColumn endColumn braceDepth
  | .obj fields => do
    ofParts? (← fields.lookup "name") (← fields.lookup "kind") (← fields.lookup "line")
      (← fields.lookup "startColumn") (← fields.lookup "endColumn") (← fields.lookup "braceDepth")
  | _ => none

end Symbol

end PhpOutline
