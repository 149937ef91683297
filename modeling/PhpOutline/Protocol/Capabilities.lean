import PhpOutline.Protocol.Basic

/-!
# Capabilities of editors

What an editor says about itself when a session starts. Only the report of progress is made use of,
but all of it has to have the right shape.
-/

namespace PhpOutline.Protocol

open Shape Record

def allowedFlag (name : String) : Field := allowed name flag

/-- Fields that say whether the editor can do something. -/
def flags (names : List String) : Shape := record (names.map allowedFlag)

def dynamic : Shape := flags ["dynamicRegistration"]

def refresh : Shape := flags ["refreshSupport"]

/-- The values that the editor knows. -/
def valueSet (value : Shape) : Shape := record [needed "valueSet" (list value)]

/-- The values that the editor knows, if it says so. -/
def someValueSet (value : Shape) : Shape := record [allowed "valueSet" (list value)]

/-- The fields that can be filled in later. -/
def properties : Shape := record [needed "properties" (list text)]

/-- The tags that the editor knows, or just whether it knows tags. -/
def tagSupport : Field :=
  ⟨"tagSupport", .anywhere, nullable (either flag (valueSet int32))⟩

/-! ## The workspace -/

def workspaceEditing : Record :=
  [allowedFlag "documentChanges",
    allowed "resourceOperations" (list (word ["create", "rename", "delete"])),
    allowed "failureHandling"
      (word ["abort", "transactional", "textOnlyTransactional", "undo"]),
    allowedFlag "normalizesLineEndings",
    allowed "changeAnnotationSupport" (flags ["groupsOnLabel"])]

def workspaceSymbol : Record :=
  [allowedFlag "dynamicRegistration", allowed "symbolKind" (someValueSet int32), tagSupport,
    allowed "resolveSupport" properties]

def fileOperations : Shape :=
  flags ["dynamicRegistration", "didCreate", "willCreate", "didRename", "willRename", "didDelete",
    "willDelete"]

def workspace : Record :=
  [allowedFlag "applyEdit", allowed "workspaceEdit" (record workspaceEditing),
    allowed "didChangeConfiguration" dynamic,
    allowed "didChangeWatchedFiles" (flags ["dynamicRegistration", "relativePatternSupport"]),
    allowed "symbol" (record workspaceSymbol), allowed "executeCommand" dynamic,
    allowedFlag "workspaceFolders", allowedFlag "configuration",
    allowed "semanticTokens" refresh, allowed "codeLens" refresh,
    allowed "fileOperations" fileOperations, allowed "inlineValue" refresh,
    allowed "inlayHint" refresh, allowed "diagnostics" refresh]

/-! ## Documents -/

def completionItem : Record :=
  [allowedFlag "snippetSupport", allowedFlag "commitCharactersSupport",
    allowed "documentationFormat" (list markupKind), allowedFlag "deprecatedSupport",
    allowedFlag "preselectSupport", tagSupport, allowedFlag "insertReplaceSupport",
    allowed "resolveSupport" properties, allowed "insertTextModeSupport" (valueSet int32),
    allowedFlag "labelDetailsSupport"]

def completion : Record :=
  [allowedFlag "dynamicRegistration", allowed "completionItem" (record completionItem),
    allowed "completionItemKind" (someValueSet int32), allowedFlag "contextSupport",
    allowed "insertTextMode" int32,
    allowed "completionList" (record [allowed "itemDefaults" (list text)])]

def hover : Record :=
  [allowedFlag "dynamicRegistration", allowed "contentFormat" (list markupKind)]

def signature : Record :=
  [allowed "documentationFormat" (list markupKind),
    allowed "parameterInformation" (flags ["labelOffsetSupport"]),
    allowedFlag "activeParameterSupport"]

def signatureHelp : Record :=
  [allowedFlag "dynamicRegistration", allowed "signatureInformation" (record signature),
    allowedFlag "contextSupport"]

def documentSymbol : Record :=
  [allowedFlag "dynamicRegistration", allowed "symbolKind" (someValueSet int32),
    allowedFlag "hierarchicalDocumentSymbolSupport", tagSupport, allowedFlag "labelSupport"]

/-- Going from a name to where it is declared. -/
def goto : Shape := flags ["dynamicRegistration", "linkSupport"]

def codeAction : Record :=
  [allowedFlag "dynamicRegistration",
    allowed "codeActionLiteralSupport" (record [needed "codeActionKind" (valueSet text)]),
    allowedFlag "isPreferredSupport", allowedFlag "disabledSupport", allowedFlag "dataSupport",
    allowed "resolveSupport" properties, allowedFlag "honorsChangeAnnotations"]

def rename : Record :=
  [allowedFlag "dynamicRegistration", allowedFlag "prepareSupport",
    allowed "prepareSupportDefaultBehavior" int32, allowedFlag "honorsChangeAnnotations"]

def publishDiagnostics : Record :=
  [allowedFlag "relatedInformation", tagSupport, allowedFlag "versionSupport",
    allowedFlag "codeDescriptionSupport", allowedFlag "dataSupport"]

/-- Problems that the editor asks for. Here the tags that it knows have to be listed. -/
def diagnostic : Record :=
  [allowedFlag "dynamicRegistration", allowedFlag "relatedDocumentSupport",
    allowedFlag "relatedInformation", allowed "tagSupport" (valueSet int32),
    allowedFlag "codeDescriptionSupport", allowedFlag "dataSupport"]

def foldingRange : Record :=
  [allowedFlag "dynamicRegistration", allowed "rangeLimit" nat32, allowedFlag "lineFoldingOnly",
    allowed "foldingRangeKind" (someValueSet (word ["comment", "imports", "region"])),
    allowed "foldingRange" (flags ["collapsedText"])]

/-- Whether all tokens can be asked for, or also just what has changed. An object is needed for the
latter. -/
def fullTokens : Shape := either flag (object [allowedFlag "delta"])

def semanticTokens : Record :=
  [allowedFlag "dynamicRegistration",
    needed "requests" (record [allowedFlag "range", allowed "full" fullTokens]),
    needed "tokenTypes" (list text), needed "tokenModifiers" (list text),
    needed "formats" (list text), allowedFlag "overlappingTokenSupport",
    allowedFlag "multilineTokenSupport", allowedFlag "serverCancelSupport",
    allowedFlag "augmentsSyntaxTokens"]

def textDocument : Record :=
  [allowed "synchronization"
      (flags ["dynamicRegistration", "willSave", "willSaveWaitUntil", "didSave"]),
    allowed "completion" (record completion), allowed "hover" (record hover),
    allowed "signatureHelp" (record signatureHelp), allowed "references" dynamic,
    allowed "documentHighlight" dynamic, allowed "documentSymbol" (record documentSymbol),
    allowed "formatting" dynamic, allowed "rangeFormatting" dynamic,
    allowed "onTypeFormatting" dynamic, allowed "declaration" goto, allowed "definition" goto,
    allowed "typeDefinition" goto, allowed "implementation" goto,
    allowed "codeAction" (record codeAction), allowed "codeLens" dynamic,
    allowed "documentLink" (flags ["dynamicRegistration", "tooltipSupport"]),
    allowed "colorProvider" dynamic, allowed "rename" (record rename),
    allowed "publishDiagnostics" (record publishDiagnostics),
    allowed "foldingRange" (record foldingRange), allowed "selectionRange" dynamic,
    allowed "linkedEditingRange" dynamic, allowed "callHierarchy" dynamic,
    allowed "semanticTokens" (record semanticTokens), allowed "moniker" dynamic,
    allowed "typeHierarchy" dynamic, allowed "inlineValue" dynamic,
    allowed "inlayHint"
      (record [allowedFlag "dynamicRegistration", allowed "resolveSupport" properties]),
    allowed "diagnostic" (record diagnostic), allowed "inlineCompletion" dynamic]

def notebookDocument : Record :=
  [needed "synchronization" (flags ["dynamicRegistration", "executionSummaryReport"])]

/-! ## The editor itself -/

def window : Record :=
  [allowedFlag "workDoneProgress",
    allowed "showMessage"
      (record [allowed "messageActionItem" (flags ["additionalPropertiesSupport"])]),
    allowed "showDocument" (record [needed "support" flag])]

def general : Record :=
  [allowed "regularExpressions" (record [needed "engine" text, allowed "version" text]),
    allowed "markdown"
      (record [needed "parser" text, allowed "version" text,
        allowed "allowedTags" (list text)]),
    allowed "staleRequestSupport"
      (record [needed "cancel" flag, needed "retryOnContentModified" (list text)]),
    allowed "positionEncodings" (list text)]

def capabilities : Record :=
  [allowed "workspace" (record workspace), allowed "textDocument" (record textDocument),
    allowed "notebookDocument" (record notebookDocument), allowed "window" (record window),
    allowed "general" (record general), allowed "offsetEncoding" (list text),
    allowed "experimental" any]

def clientInfo : Record := [needed "name" text, allowed "version" text]

/-- The words for how much a session tells about what it does. -/
def traceWords : List String := ["off", "messages", "verbose"]

/-- All that an editor says when a session starts. -/
def greeting : Record :=
  [allowed "processId" nat32, allowed "rootPath" text, allowed "rootUri" uri,
    allowed "initializationOptions" any, needed "capabilities" (record capabilities),
    allowed "trace" (word traceWords), allowed "workspaceFolders" (list (record folder)),
    allowed "clientInfo" (record clientInfo), allowed "locale" text] ++ progress

end PhpOutline.Protocol
