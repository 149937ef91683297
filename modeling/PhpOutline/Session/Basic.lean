import PhpOutline.Document
import PhpOutline.Indexing
import PhpOutline.Session.Message
import PhpOutline.Session.Params

/-!
# Sessions

The state of an editor session, and what opening, changing, closing and saving a document does to it.
The symbols of an open document are those of its text; those of any other file come from the disk.
-/

namespace PhpOutline

inductive Session.Phase where
  /-- Nothing but a greeting is answered. -/
  | fresh
  | running
  /-- The editor has said that it is done. -/
  | shutDown
  | exited
deriving DecidableEq, Repr, Inhabited

structure Session where
  phase : Session.Phase
  trace : Session.Trace
  /-- Whether the editor lets progress be reported. -/
  progress : Bool
  root : Option String
  config : Config
  documents : UriMap Document
  index : SymbolIndex
deriving DecidableEq, Repr

namespace Session

def start : Session where
  phase := .fresh
  trace := .off
  progress := false
  root := none
  config := {}
  documents := .empty
  index := .empty

structure Surroundings where
  disk : Disk
  /-- Whether the editor agrees when it is asked for leave to report progress. -/
  grantsProgress : Bool

/-- A session after some work, and the messages it has sent meanwhile, in order. -/
abbrev Worked := Session × List Outgoing

/-- Only those who want to know everything are told. -/
def traceMessage (session : Session) (message : String) : List Outgoing :=
  if session.trace = .verbose then [.log .log message] else []

/-- Problems are published unless they are not wanted. -/
def publishing (session : Session) (uri : String) (warnings : List Warning) : List Outgoing :=
  if session.config.diagnostics then [.publish uri warnings] else []

def warnings (document : Document) (report : Report) : List Warning :=
  report.diagnostics.map fun diagnostic =>
    ⟨document.utf16Span diagnostic.span, diagnostic.problem.message⟩

/-- The symbols of an open document are those of its text. -/
def register (session : Session) (uri : String) (document : Document) : Session :=
  { session with
    documents := session.documents.insert uri document
    index := session.index.insert uri (document.scan session.config.scan).symbols }

def publishScan (session : Session) (uri : String) (document : Document) : List Outgoing :=
  session.publishing uri (warnings document (document.scan session.config.scan))

def countText (symbols : List Symbol) : String := toString symbols.length

def openDocument (session : Session) (uri text : String) : Worked :=
  let document := Document.ofString text
  let symbols := (document.scan session.config.scan).symbols
  (session.register uri document,
    session.traceMessage ("didOpen: " ++ uri) ++
      session.traceMessage ("Indexed " ++ countText symbols ++ " symbols from " ++ uri) ++
      session.publishScan uri document)

def Change.apply (document : Document) (change : Change) : Document :=
  match change.span with
  | some span => document.edit span change.text
  | none => .ofString change.text

/-- Changes of documents that are not open are ignored. -/
def changeDocument (session : Session) (uri : String) (changes : List Change) : Worked :=
  match session.documents.get? uri with
  | some document =>
    let document := changes.foldl Change.apply document
    (session.register uri document, session.publishScan uri document)
  | none => (session, [])

/-- A file that cannot be read has no symbols. -/
def rescan (session : Session) (disk : Disk) (uri path : String) : Worked :=
  match session.index.indexFile disk session.config.scan path with
  | .ok (index, count) =>
    ({ session with index },
      session.traceMessage ("Rescanned " ++ toString count ++ " symbols from " ++ uri))
  | .error _ => ({ session with index := session.index.erase uri }, [])

/-- What was not saved is lost. -/
def closeDocument (session : Session) (disk : Disk) (uri : String) : Worked :=
  let session := { session with documents := session.documents.erase uri }
  let (session, sent) :=
    match (Uri.toPath? uri).filter disk.isFile with
    | some path => session.rescan disk uri path
    | none => ({ session with index := session.index.erase uri }, [])
  (session, sent ++ session.publishing uri [])

/-- The text of an open document is known already. -/
def saveDocument (session : Session) (disk : Disk) (uri : String) : Worked :=
  if session.documents.contains uri then (session, [])
  else
    match Uri.toPath? uri with
    | some path => session.rescan disk uri path
    | none => (session, [])

end Session

end PhpOutline
