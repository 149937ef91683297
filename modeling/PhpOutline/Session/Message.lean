import PhpOutline.Json.Basic
import PhpOutline.Symbol

/-!
# Messages to the editor

What a session sends to the editor, as answers to requests or of its own accord, and the JSON form of
it. Fields without a value are left out.
-/

namespace PhpOutline

def Span.toJson (span : Span) : Json :=
  let position (line column : Nat) : Json := .obj [("line", .nat line), ("character", .nat column)]
  .obj [("start", position span.startLine span.startColumn),
    ("end", position span.endLine span.endColumn)]

namespace Session

def serverName : String := "php-symbols"

def serverVersion : String := "0.1.0"

/-- A symbol, and where in which file its name stands in UTF-16 units. -/
structure Listing where
  symbol : Symbol
  uri : String
  span : Span
deriving DecidableEq, Repr, Inhabited

def Listing.toJson (listing : Listing) : Json :=
  .obj [("name", .str listing.symbol.name), ("kind", .nat listing.symbol.kind.editorCode),
    ("location", .obj [("uri", .str listing.uri), ("range", listing.span.toJson)])]

/-- A problem in a document, at a place in UTF-16 units. -/
structure Warning where
  span : Span
  message : String
deriving DecidableEq, Repr, Inhabited

def Warning.toJson (warning : Warning) : Json :=
  .obj [("range", warning.span.toJson), ("severity", .nat 2), ("source", .str serverName),
    ("message", .str warning.message)]

/-! ## Messages of the session's own accord -/

inductive LogLevel where
  | info
  | log
deriving DecidableEq, Repr, Inhabited

def LogLevel.code : LogLevel → Nat
  | info => 3
  | log => 4

inductive Progress where
  | begun (title message : String)
  | reported (message : String) (percentage : Nat)
  | ended (message : String)
deriving DecidableEq, Repr, Inhabited

def Progress.toJson : Progress → Json
  | begun title message =>
    .obj [("kind", .str "begin"), ("title", .str title), ("cancellable", .bool false),
      ("message", .str message), ("percentage", .nat 0)]
  | reported message percentage =>
    .obj [("kind", .str "report"), ("message", .str message), ("percentage", .nat percentage)]
  | ended message => .obj [("kind", .str "end"), ("message", .str message)]

/-- The token under which the indexing of the workspace is reported. -/
def progressToken : Json := .str "php-symbols-indexing"

inductive Outgoing where
  | log (level : LogLevel) (message : String)
  /-- The problems of a document, in place of all that were published for it before. -/
  | publish (uri : String) (warnings : List Warning)
  /-- A request for leave to report progress. -/
  | askProgress
  | progress (stage : Progress)
deriving DecidableEq, Repr, Inhabited

namespace Outgoing

def method : Outgoing → String
  | log _ _ => "window/logMessage"
  | publish _ _ => "textDocument/publishDiagnostics"
  | askProgress => "window/workDoneProgress/create"
  | progress _ => "$/progress"

def params : Outgoing → Json
  | log level message => .obj [("type", .nat level.code), ("message", .str message)]
  | publish uri warnings =>
    .obj [("uri", .str uri), ("diagnostics", .arr (warnings.map Warning.toJson))]
  | askProgress => .obj [("token", progressToken)]
  | progress stage => .obj [("token", progressToken), ("value", stage.toJson)]

end Outgoing

/-! ## Answers -/

inductive Refusal where
  | notInitialized
  | invalidRequest
  | unknownMethod
  | invalidParams
deriving DecidableEq, Repr, Inhabited

def Refusal.code : Refusal → Int
  | notInitialized => -32002
  | invalidRequest => -32600
  | unknownMethod => -32601
  | invalidParams => -32602

inductive Result where
  | capabilities
  /-- The symbols of a document, if it has any. -/
  | documentSymbols (listings : Option (List Listing))
  | workspaceSymbols (listings : List Listing)
  | done
deriving DecidableEq, Repr, Inhabited

/-- What the session can do: documents are sent as they are opened and closed, changes as edits, and
saves without their text; symbols can be listed and searched. -/
def capabilities : Json :=
  .obj [
    ("capabilities", .obj [
      ("textDocumentSync", .obj [("openClose", .bool true), ("change", .nat 2),
        ("save", .obj [("includeText", .bool false)])]),
      ("documentSymbolProvider", .bool true),
      ("workspaceSymbolProvider", .bool true)]),
    ("serverInfo", .obj [("name", .str serverName), ("version", .str serverVersion)])]

def Result.toJson : Result → Json
  | capabilities => Session.capabilities
  | documentSymbols none => .null
  | documentSymbols (some listings) => .arr (listings.map Listing.toJson)
  | workspaceSymbols listings => .arr (listings.map Listing.toJson)
  | done => .null

inductive Reply where
  | silent
  | answered (result : Result)
  | refused (refusal : Refusal)
  | exited
deriving DecidableEq, Repr, Inhabited

end Session

end PhpOutline
