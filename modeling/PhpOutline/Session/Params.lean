import PhpOutline.Config
import PhpOutline.Position
import PhpOutline.Protocol.Capabilities

/-!
# Messages from the editor

The parameters of requests and notifications, and how they are read. A message whose parameters do
not have the shape that the protocol gives them is invalid, even if what is wrong is not made use of.
-/

namespace PhpOutline.Session

/-- How much the session tells about what it does. -/
inductive Trace where
  | off
  | messages
  | verbose
deriving DecidableEq, Repr, Inhabited

structure Change where
  span : Option Span
  text : String
deriving DecidableEq, Repr, Inhabited

/-- What the editor says about itself when the session starts. -/
structure Greeting where
  trace : Option Trace
  progress : Bool
  root : Option String
  config : Config
deriving DecidableEq, Repr

inductive Notification where
  | initialized
  | opened (uri text : String)
  | changed (uri : String) (changes : List Change)
  | closed (uri : String)
  | saved (uri : String)
deriving DecidableEq, Repr, Inhabited

inductive Query where
  | documentSymbols (uri : String)
  | workspaceSymbols (query : String)
deriving DecidableEq, Repr, Inhabited

/-! ## Reading -/

def readUri (json : Json) : Option String := json.string?.filter Uri.isValid

def Trace.ofName? : String → Option Trace
  | "off" => some .off
  | "messages" => some .messages
  | "verbose" => some .verbose
  | _ => none

def readTrace (json : Json) : Option Trace := json.word?.bind Trace.ofName?

def readPosition (json : Json) : Option (Nat × Nat) := do
  let position ← Protocol.position.object? json
  return (← position.required? "line" Json.nat32?, ← position.required? "character" Json.nat32?)

def readSpan (json : Json) : Option Span := do
  let range ← Protocol.range.object? json
  let (startLine, startColumn) ← range.required? "start" readPosition
  let (endLine, endColumn) ← range.required? "end" readPosition
  return ⟨startLine, startColumn, endLine, endColumn⟩

def readChange (json : Json) : Option Change := do
  let change ← Protocol.change.object? json
  return ⟨← change.optional? "range" readSpan, ← change.required? "text" Json.string?⟩

def readDocument (json : Json) : Option String := do
  (← Protocol.document.object? json).required? "uri" readUri

def readOpened (json : Json) : Option Notification := do
  let params ← Protocol.opened.object? json
  let document ← params.required? "textDocument" Protocol.documentItem.object?
  return .opened (← document.required? "uri" readUri) (← document.required? "text" Json.string?)

def readChanged (json : Json) : Option Notification := do
  let params ← Protocol.changed.object? json
  let document ← params.required? "textDocument" Protocol.versionedDocument.object?
  let changes ← params.required? "contentChanges" (Json.list? readChange)
  return .changed (← document.required? "uri" readUri) changes

def readClosed (json : Json) : Option Notification := do
  let params ← Protocol.aboutDocument.object? json
  return .closed (← params.required? "textDocument" readDocument)

def readSaved (json : Json) : Option Notification := do
  let params ← Protocol.saved.object? json
  return .saved (← params.required? "textDocument" readDocument)

def readFolder (json : Json) : Option String := do
  (← Protocol.folder.object? json).required? "uri" readUri

/-- Whether the capabilities of the editor include the report of progress. -/
def readProgress (json : Json) : Option Bool := do
  let capabilities ← Protocol.capabilities.object? json
  let window ← capabilities.optional? "window" Protocol.window.object?
  let progress ← (window.getD (.obj [])).optional? "workDoneProgress" Json.bool?
  return progress.getD false

/-- The path of the workspace: that of the first folder, or else of the root URI, if these are file
URIs, or else the root path. -/
def chooseRoot (folders : List String) (uri path : Option String) : Option String :=
  (folders.head?.bind Uri.toPath?).or ((uri.bind Uri.toPath?).or path)

def readGreeting (json : Json) : Option Greeting := do
  let params ← Protocol.greeting.plainObject? json
  let folders ← params.optional? "workspaceFolders" (Json.list? readFolder)
  let uri ← params.optional? "rootUri" readUri
  let path ← params.optional? "rootPath" Json.string?
  return {
    trace := ← params.optional? "trace" readTrace
    progress := ← params.required? "capabilities" readProgress
    root := chooseRoot (folders.getD []) uri path
    config := Config.ofSettings (params.field? "initializationOptions") }

def readDocumentQuery (json : Json) : Option Query := do
  let params ← (Protocol.aboutDocument ++ Protocol.progressInParts).plainObject? json
  return .documentSymbols (← params.required? "textDocument" readDocument)

def readWorkspaceQuery (json : Json) : Option Query := do
  let params ← Protocol.search.plainObject? json
  return .workspaceSymbols (← params.required? "query" Json.string?)

/-! ## Methods -/

def notificationReader? : String → Option (Json → Option Notification)
  | "initialized" => some fun json => (Record.object? [] json).map fun _ => .initialized
  | "textDocument/didOpen" => some readOpened
  | "textDocument/didChange" => some readChanged
  | "textDocument/didClose" => some readClosed
  | "textDocument/didSave" => some readSaved
  | _ => none

def queryReader? : String → Option (Json → Option Query)
  | "textDocument/documentSymbol" => some readDocumentQuery
  | "workspace/symbol" => some readWorkspaceQuery
  | _ => none

end PhpOutline.Session
