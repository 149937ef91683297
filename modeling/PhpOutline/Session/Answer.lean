import PhpOutline.Protocol.Requests
import PhpOutline.Session.Workspace

/-!
# Answering messages

How a session answers the queries of the editor, which messages it takes in which phase, and what it
answers to the others.
-/

namespace PhpOutline.Session

/-! ## Queries -/

/-- For a symbol of a file that is not open, the index has columns in characters. -/
def listing (session : Session) (uri : String) (symbol : Symbol) : Listing :=
  match session.documents.get? uri with
  | some document => ⟨symbol, uri, document.symbolSpan symbol⟩
  | none => ⟨symbol, uri, symbol.nameSpan⟩

/-- The symbols come from the text of the document if it is open, or else from the index. -/
def symbolsOf (session : Session) (uri : String) : List Symbol :=
  match session.documents.get? uri with
  | some document => (document.scan session.config.scan).symbols
  | none => (session.index.get? uri).getD []

def documentSymbols (session : Session) (uri : String) : Option (List Listing) :=
  match session.symbolsOf uri with
  | [] => none
  | symbols => some (symbols.map (session.listing uri))

/-- Of the first matches of a query, as many as the configuration allows, those in files whose URI is
shown. An empty query finds nothing. -/
def firstMatches (session : Session) (isShown : String → Bool) (query : String) : List Listing :=
  if query = "" then []
  else
    (((session.index.search query).take session.config.maxWorkspaceSymbols).filter
      (isShown ·.uri)).map fun hit => session.listing hit.uri hit.symbol

/-- Matches in files whose URI is not well-formed are left out. -/
def workspaceSymbols (session : Session) (query : String) : List Listing :=
  session.firstMatches Uri.isValid query

def answer (session : Session) : Query → Result
  | .documentSymbols uri => .documentSymbols (session.documentSymbols uri)
  | .workspaceSymbols query => .workspaceSymbols (session.workspaceSymbols query)

/-! ## Phases -/

/-- Without a new root or trace the session keeps what it had. -/
def greet (session : Session) (greeting : Greeting) : Session :=
  { session with
    phase := .running
    trace := greeting.trace.getD session.trace
    progress := greeting.progress
    root := greeting.root.or session.root
    config := greeting.config }

def Phase.refusal : Phase → Reply
  | fresh => .refused .notInitialized
  | running | shutDown => .refused .invalidRequest
  | exited => .exited

def notice (session : Session) (around : Surroundings) : Notification → Worked
  | .initialized => session.beginWork around
  | .opened uri text => session.openDocument uri text
  | .changed uri changes => session.changeDocument uri changes
  | .closed uri => session.closeDocument around.disk uri
  | .saved uri => session.saveDocument around.disk uri

/-- Methods that begin with a dollar sign and a slash need no answer. -/
def unknownReply (method : String) : Reply :=
  if ['$', '/'].isPrefixOf method.toList then .silent else .refused .unknownMethod

def requestGreeting (session : Session) (params : Option Json) : Session × Reply :=
  if session.phase = .fresh then
    match params.bind readGreeting with
    | some greeting => (session.greet greeting, .answered .capabilities)
    | none => (session, .refused .invalidParams)
  else (session, .refused .invalidRequest)

/-- The request has no parameters. -/
def requestShutDown (session : Session) (params : Option Json) : Session × Reply :=
  if session.phase = .running then
    ({ session with phase := .shutDown },
      if params.isSome then .refused .invalidParams else .answered .done)
  else (session, session.phase.refusal)

def requestAnswer (session : Session) (read : Json → Option Query) (params : Option Json) : Reply :=
  if session.phase = .running then
    match params.bind read with
    | some query => .answered (session.answer query)
    | none => .refused .invalidParams
  else session.phase.refusal

/-- The parameters are looked at all the same. -/
def requestUnsupported (session : Session) (shape : Shape) (params : Option Json) : Reply :=
  if session.phase = .running then
    if params.any shape then .refused .unknownMethod else .refused .invalidParams
  else session.phase.refusal

/-- Notifications are not taken as requests; the cancellation of a request is refused the same way in every
phase. -/
def requestOther (session : Session) (method : String) (params : Option Json) : Reply :=
  match queryReader? method, Protocol.unsupported.lookup method with
  | some read, _ => session.requestAnswer read params
  | none, some shape => session.requestUnsupported shape params
  | none, none =>
    if method ∈ Protocol.notifications then session.phase.refusal
    else if method = "$/cancelRequest" then .refused .invalidRequest
    else unknownReply method

/-- Parameters that are null are as good as none. -/
def givenParams : Option Json → Option Json
  | some .null => none
  | params => params

/-- The end of the session is not answered. -/
def request (session : Session) (method : String) (params : Option Json) : Session × Reply :=
  let params := givenParams params
  if session.phase = .exited then (session, .exited)
  else if method = "initialize" then session.requestGreeting params
  else if method = "shutdown" then session.requestShutDown params
  else if method = "exit" then ({ session with phase := .exited }, .silent)
  else (session, session.requestOther method params)

/-- A notification that is not known, or not valid, or not expected is ignored. -/
def notify (session : Session) (around : Surroundings) (method : String) (params : Option Json) :
    Session × Reply × List Outgoing :=
  if session.phase = .exited then (session, .exited, [])
  else if method = "exit" then ({ session with phase := .exited }, .silent, [])
  else if session.phase = .running then
    if method = "shutdown" then ({ session with phase := .shutDown }, .silent, [])
    else
      match (notificationReader? method).bind fun read => (givenParams params).bind read with
      | some notification =>
        let (session, sent) := session.notice around notification
        (session, .silent, sent)
      | none => (session, .silent, [])
  else (session, .silent, [])

end PhpOutline.Session
