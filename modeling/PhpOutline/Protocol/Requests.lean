import PhpOutline.Protocol.Basic

/-!
# Requests and notifications of the editor protocol

The requests that are known but not supported, with the shapes of their parameters, and the
notifications that are known.
-/

namespace PhpOutline.Protocol

open Shape Record

/-! ## Things that requests are about -/

/-- A symbol in a hierarchy of calls or types; `tags` is the shape of its tags. -/
def hierarchyItem (tags : Shape) : Record :=
  [needed "name" text, needed "kind" int32, allowed "tags" tags, allowed "detail" text,
    needed "uri" uri, needed "range" (record range), needed "selectionRange" (record range),
    allowed "data" any]

def callItem : Record := [needed "item" (record (hierarchyItem (list int32)))]

def typeItem : Record := [needed "item" (record (hierarchyItem int32))]

def documentLink : Record :=
  [needed "range" (record range), allowed "target" uri, allowed "tooltip" text,
    allowed "data" any]

def codeLens : Record :=
  [needed "range" (record range), allowed "command" (record command), allowed "data" any]

def hintPart : Record :=
  [needed "value" text, allowed "tooltip" documentation, allowed "location" (record location),
    allowed "command" (record command)]

def inlayHint : Record :=
  [needed "position" (record position), needed "label" (either text (list (record hintPart))),
    allowed "kind" int32, allowed "textEdits" (list (record textEdit)),
    allowed "tooltip" documentation, allowed "paddingLeft" flag, allowed "paddingRight" flag,
    allowed "data" any]

/-- A text edit, with one range or with one for inserting and one for replacing. -/
def completionEdit : Shape :=
  either (record textEdit)
    (record [needed "newText" text, needed "insert" (record range),
      needed "replace" (record range)])

def completionEntry : Record :=
  [needed "label" text,
    allowed "labelDetails" (record [allowed "detail" text, allowed "description" text]),
    allowed "kind" int32, allowed "detail" text, allowed "documentation" documentation,
    allowed "deprecated" flag, allowed "preselect" flag, allowed "sortText" text,
    allowed "filterText" text, allowed "insertText" text, allowed "insertTextFormat" int32,
    allowed "insertTextMode" int32, allowed "textEdit" completionEdit,
    allowed "additionalTextEdits" (list (record textEdit)), allowed "command" (record command),
    allowed "commitCharacters" (list text), allowed "data" any, allowed "tags" (list int32)]

def completionContext : Record :=
  [needed "triggerKind" int32, allowed "triggerCharacter" text]

def parameter : Record :=
  [needed "label" (either text (pair nat32)), allowed "documentation" documentation]

def signatureInformation : Record :=
  [needed "label" text, allowed "documentation" documentation,
    allowed "parameters" (list (record parameter)), allowed "activeParameter" nat32]

def shownSignatures : Record :=
  [needed "signatures" (list (record signatureInformation)), allowed "activeSignature" nat32,
    allowed "activeParameter" nat32]

def signatureContext : Record :=
  [needed "triggerKind" int32, allowed "triggerCharacter" text, needed "isRetrigger" flag,
    allowed "activeSignatureHelp" (record shownSignatures)]

def actionContext : Record :=
  [needed "diagnostics" (list (record problem)), allowed "only" (list text),
    allowed "triggerKind" int32]

def action : Record :=
  [needed "title" text, allowed "kind" text, allowed "diagnostics" (list (record problem)),
    allowed "edit" (record workspaceEdit), allowed "command" (record command),
    allowed "isPreferred" flag, allowed "disabled" (record [needed "reason" text]),
    allowed "data" any]

def color : Record :=
  [needed "red" number, needed "green" number, needed "blue" number, needed "alpha" number]

/-- Options of formatting; a formatter may have further ones. -/
def formatting : Shape :=
  objectWith
    [needed "tabSize" nat32, needed "insertSpaces" flag, allowed "trimTrailingWhitespace" flag,
      allowed "insertFinalNewline" flag, allowed "trimFinalNewlines" flag]
    (either flag (either int32 text))

def inlineValueContext : Record :=
  [needed "frameId" int32, needed "stoppedLocation" (record range)]

def foundSymbol : Record :=
  [needed "name" text, needed "kind" int32, allowed "tags" (list int32),
    allowed "containerName" text,
    needed "location" (either (record location) (record [needed "uri" uri])),
    allowed "data" any]

/-- Files that are created or deleted. -/
def files : Record := [needed "files" (list (record [needed "uri" text]))]

def renamedFiles : Record :=
  [needed "files" (list (record [needed "oldUri" text, needed "newUri" text]))]

/-! ## Methods -/

/-- The requests that are known but not supported, and their parameters. -/
def unsupported : List (String × Shape) :=
  [("textDocument/willSaveWaitUntil", record (aboutDocument ++ [needed "reason" int32])),
    ("textDocument/declaration", object (aboutPosition ++ progressInParts)),
    ("textDocument/definition", object (aboutPosition ++ progressInParts)),
    ("textDocument/typeDefinition", object (aboutPosition ++ progressInParts)),
    ("textDocument/implementation", object (aboutPosition ++ progressInParts)),
    ("textDocument/references", object (aboutPosition ++ progressInParts ++
      [needed "context" (record [needed "includeDeclaration" flag])])),
    ("textDocument/prepareCallHierarchy", object (aboutPosition ++ progress)),
    ("callHierarchy/incomingCalls", object (callItem ++ progressInParts)),
    ("callHierarchy/outgoingCalls", object (callItem ++ progressInParts)),
    ("textDocument/prepareTypeHierarchy", object (aboutPosition ++ progress)),
    ("typeHierarchy/supertypes", object (typeItem ++ progressInParts)),
    ("typeHierarchy/subtypes", object (typeItem ++ progressInParts)),
    ("textDocument/documentHighlight", object (aboutPosition ++ progressInParts)),
    ("textDocument/documentLink", object (aboutDocument ++ progressInParts)),
    ("documentLink/resolve", record documentLink),
    ("textDocument/hover", object (aboutPosition ++ progress)),
    ("textDocument/codeLens", object (aboutDocument ++ progressInParts)),
    ("codeLens/resolve", record codeLens),
    ("textDocument/foldingRange", object (aboutDocument ++ progressInParts)),
    ("textDocument/selectionRange", object (aboutDocument ++
      [needed "positions" (list (record position))] ++ progressInParts)),
    ("textDocument/semanticTokens/full", object (aboutDocument ++ progressInParts)),
    ("textDocument/semanticTokens/full/delta", object (aboutDocument ++
      [needed "previousResultId" text] ++ progressInParts)),
    ("textDocument/semanticTokens/range", object (aboutRange ++ progressInParts)),
    ("textDocument/inlineValue", object (aboutRange ++
      [needed "context" (record inlineValueContext)] ++ progress)),
    ("textDocument/inlayHint", object (aboutRange ++ progress)),
    ("inlayHint/resolve", record inlayHint),
    ("textDocument/moniker", object (aboutPosition ++ progressInParts)),
    ("textDocument/completion", object (aboutPosition ++
      [allowed "context" (record completionContext)] ++ progressInParts)),
    ("completionItem/resolve", record completionEntry),
    ("textDocument/diagnostic", object (aboutDocument ++
      [allowed "identifier" text, allowed "previousResultId" text] ++ progressInParts)),
    ("workspace/diagnostic", object ([allowed "identifier" text,
      needed "previousResultIds"
        (list (record [needed "uri" uri, needed "value" text]))] ++ progressInParts)),
    ("textDocument/signatureHelp", object (aboutPosition ++
      [allowed "context" (record signatureContext)] ++ progress)),
    ("textDocument/codeAction", object (aboutRange ++
      [needed "context" (record actionContext)] ++ progressInParts)),
    ("codeAction/resolve", record action),
    ("textDocument/documentColor", object (aboutDocument ++ progressInParts)),
    ("textDocument/colorPresentation", object (aboutRange ++
      [needed "color" (record color)] ++ progressInParts)),
    ("textDocument/formatting", object (aboutDocument ++
      [needed "options" formatting] ++ progress)),
    ("textDocument/rangeFormatting", object (aboutRange ++
      [needed "options" formatting] ++ progress)),
    ("textDocument/onTypeFormatting", object (aboutPosition ++
      [needed "ch" text, needed "options" formatting])),
    ("textDocument/rename", object (aboutPosition ++ [needed "newName" text] ++ progress)),
    ("textDocument/prepareRename", record aboutPosition),
    ("textDocument/linkedEditingRange", object (aboutPosition ++ progress)),
    ("workspaceSymbol/resolve", record foundSymbol),
    ("workspace/willCreateFiles", record files),
    ("workspace/willRenameFiles", record renamedFiles),
    ("workspace/willDeleteFiles", record files),
    ("workspace/executeCommand", object ([needed "command" text,
      preset "arguments" (list any)] ++ progress))]

/-- The notifications that are known. -/
def notifications : List String :=
  ["initialized", "textDocument/didOpen", "textDocument/didChange", "textDocument/willSave",
    "textDocument/didSave", "textDocument/didClose", "notebookDocument/didOpen",
    "notebookDocument/didChange", "notebookDocument/didSave", "notebookDocument/didClose",
    "workspace/didChangeConfiguration", "workspace/didChangeWorkspaceFolders",
    "workspace/didCreateFiles", "workspace/didRenameFiles", "workspace/didDeleteFiles",
    "workspace/didChangeWatchedFiles"]

end PhpOutline.Protocol
