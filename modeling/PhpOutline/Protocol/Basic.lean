import PhpOutline.Json.Shape
import PhpOutline.Uri

/-!
# Values of the editor protocol

The shapes of what messages between an editor and a language server are made of: places in documents,
documents, problems and edits.
-/

namespace PhpOutline.Protocol

open Shape Record

def uri : Shape := fun json => (json.string?.map Uri.isValid).getD false

/-! ## Places -/

def position : Record := [needed "line" nat32, needed "character" nat32]

def range : Record := [needed "start" (record position), needed "end" (record position)]

def location : Record := [needed "uri" uri, needed "range" (record range)]

/-! ## Documents -/

def document : Record := [needed "uri" uri]

def documentItem : Record :=
  [needed "uri" uri, needed "languageId" text, needed "version" int32, needed "text" text]

def versionedDocument : Record := [needed "uri" uri, needed "version" int32]

/-- A document whose version may be unknown. -/
def editedDocument : Record := [needed "uri" uri, allowed "version" int32]

/-- A change of a document. The length of the range is of no use. -/
def change : Record :=
  [allowed "range" (record range), allowed "rangeLength" nat32, needed "text" text]

/-- A folder of the workspace. -/
def folder : Record := [needed "uri" uri, needed "name" text]

/-! ## Fields that many requests share -/

/-- The name under which the editor follows a request. -/
def token : Shape := either int32 text

/-- The token for reports of progress. -/
def progress : Record := [allowed "workDoneToken" token]

/-- The tokens for reports of progress and for results in parts. -/
def progressInParts : Record := progress ++ [allowed "partialResultToken" token]

def aboutDocument : Record := [needed "textDocument" (record document)]

/-- A place in a document. -/
def aboutPosition : Record := aboutDocument ++ [needed "position" (record position)]

/-- A range of a document. -/
def aboutRange : Record := aboutDocument ++ [needed "range" (record range)]

/-! ## Messages that are made use of -/

def opened : Record := [needed "textDocument" (record documentItem)]

def changed : Record :=
  [needed "textDocument" (record versionedDocument),
    needed "contentChanges" (list (record change))]

/-- A document that was saved, possibly with its text. -/
def saved : Record := aboutDocument ++ [allowed "text" text]

/-- A search of the workspace. -/
def search : Record := [needed "query" text] ++ progressInParts

/-! ## Text for people -/

def markupKind : Shape := word ["plaintext", "markdown"]

def markup : Record := [needed "kind" markupKind, needed "value" text]

/-- Plain text or markup. -/
def documentation : Shape := either text (record markup)

/-! ## Commands and problems -/

def command : Record :=
  [needed "title" text, needed "command" text, allowed "arguments" (list any)]

def relatedInformation : Record :=
  [needed "location" (record location), needed "message" text]

def problem : Record :=
  [needed "range" (record range), allowed "severity" int32, allowed "code" token,
    allowed "codeDescription" (record [needed "href" uri]), allowed "source" text,
    needed "message" text, allowed "relatedInformation" (list (record relatedInformation)),
    allowed "tags" (list int32), allowed "data" any]

/-! ## Edits -/

def textEdit : Record := [needed "range" (record range), needed "newText" text]

def documentEdit : Record :=
  [needed "textDocument" (record editedDocument), needed "edits" (list (record textEdit))]

def overwriting : Shape := record [allowed "overwrite" flag, allowed "ignoreIfExists" flag]

def createFile : Record :=
  [needed "uri" uri, allowed "options" overwriting, allowed "annotationId" text]

def renameFile : Record :=
  [needed "oldUri" uri, needed "newUri" uri, allowed "options" overwriting,
    allowed "annotationId" text]

def deleteFile : Record :=
  [needed "uri" uri,
    allowed "options" (record [allowed "recursive" flag, allowed "ignoreIfNotExists" flag]),
    allowed "annotationId" text]

/-- An operation on a file, or edits of a document. -/
def documentChange : Shape :=
  either (tagged "kind" [("create", createFile), ("rename", renameFile), ("delete", deleteFile)])
    (record documentEdit)

def annotation : Record :=
  [needed "label" text, allowed "needsConfirmation" flag, allowed "description" text]

def workspaceEdit : Record :=
  [allowed "changes" (table Uri.isValid (list (record textEdit))),
    allowed "documentChanges" (list documentChange),
    allowed "changeAnnotations" (table (fun _ => true) (record annotation))]

end PhpOutline.Protocol
