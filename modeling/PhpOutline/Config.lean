import PhpOutline.Json.Basic
import PhpOutline.Options

/-!
# Configuration

Scan options and the settings of an editor session, and how both are read from JSON. Settings that
are left out have their defaults.
-/

namespace PhpOutline

namespace ScanOptions

def toFields (options : ScanOptions) : List (String × Json) :=
  [("distinctInterfaces", .bool options.distinctInterfaces),
    ("lookbackCapacity", .nat options.lookbackCapacity), ("chunkSize", .nat options.chunkSize)]

def toJson (options : ScanOptions) : Json := .obj options.toFields

/-- One wrong value spoils all options; other fields are ignored. -/
def ofObject? (json : Json) : Option ScanOptions := do
  let defaults : ScanOptions := {}
  return {
    distinctInterfaces :=
      ← json.withDefault? "distinctInterfaces" Json.bool? defaults.distinctInterfaces
    lookbackCapacity := ← json.withDefault? "lookbackCapacity" Json.nat64? defaults.lookbackCapacity
    chunkSize := ← json.withDefault? "chunkSize" Json.nat64? defaults.chunkSize }

/-- The items are in fixed order; a short list leaves the rest at the defaults. -/
def ofItems? : List Json → Option ScanOptions
  | [] => some {}
  | [distinct] => do return { distinctInterfaces := ← distinct.bool? }
  | [distinct, capacity] => do
    return { distinctInterfaces := ← distinct.bool?, lookbackCapacity := ← capacity.nat64? }
  | [distinct, capacity, chunk] => do
    return {
      distinctInterfaces := ← distinct.bool?
      lookbackCapacity := ← capacity.nat64?
      chunkSize := ← chunk.nat64? }
  | _ => none

def ofJson? : Json → Option ScanOptions
  | .obj fields => ofObject? (.obj fields)
  | .arr items => ofItems? items
  | _ => none

end ScanOptions

structure Config where
  scan : ScanOptions := {}
  indexWorkspace : Bool := true
  diagnostics : Bool := true
  excludeDirs : List String := ["vendor", "node_modules"]
  maxWorkspaceSymbols : Nat := 200
deriving DecidableEq, Repr

instance : Inhabited Config := ⟨{}⟩

namespace Config

def toJson (config : Config) : Json :=
  .obj (config.scan.toFields ++
    [("indexWorkspace", .bool config.indexWorkspace), ("diagnostics", .bool config.diagnostics),
      ("excludeDirs", .arr (config.excludeDirs.map .str)),
      ("maxWorkspaceSymbols", .nat config.maxWorkspaceSymbols)])

/-- The object also holds the scan options. One wrong value spoils all settings; other fields are
ignored. -/
def ofJson? : Json → Option Config
  | .obj fields => do
    let json := Json.obj fields
    let defaults : Config := {}
    return {
      scan := ← ScanOptions.ofObject? json
      indexWorkspace := ← json.withDefault? "indexWorkspace" Json.bool? defaults.indexWorkspace
      diagnostics := ← json.withDefault? "diagnostics" Json.bool? defaults.diagnostics
      excludeDirs :=
        ← json.withDefault? "excludeDirs" (Json.list? Json.string?) defaults.excludeDirs
      maxWorkspaceSymbols :=
        ← json.withDefault? "maxWorkspaceSymbols" Json.nat64? defaults.maxWorkspaceSymbols }
  | _ => none

/-- The settings of `json` apply completely, or else the defaults do. -/
def ofSettings (json : Option Json) : Config := (json.bind ofJson?).getD {}

end Config

end PhpOutline
