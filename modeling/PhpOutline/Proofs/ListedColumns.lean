import PhpOutline.Proofs.ByteReading
import PhpOutline.Proofs.DocumentLines
import PhpOutline.Session.Answer

/-!
# The columns of listed symbols

The symbols of a document are listed from its text while it is open, and from the index otherwise,
where a scan of the file has put them. Both know the same symbols, but only the text tells how many
UTF-16 units there are before a name: the index counts characters. The two lists are equal as long as
no character up to the end of a declared name takes up two units.
-/

namespace PhpOutline

/-- The line of the symbol up to the end of its name. -/
def Symbol.upToName (symbol : Symbol) (text : List Char) : List Char :=
  ((sourceLines text)[symbol.line - 1]?.getD []).take symbol.endColumn

section Symbols

variable {options : ScanOptions} {text : String} {symbol : Symbol}

theorem exists_line_of_mem_symbols (hlength : text.length < counterMax)
    (hsymbol : symbol ∈ (scan options text).symbols) :
    ∃ chars, (sourceLines text.toList)[symbol.line - 1]? = some chars ∧
      symbol.startColumn ≤ symbol.endColumn ∧ symbol.endColumn ≤ chars.length := by
  have hsymbols := (tracks_close options text).symbols_eq (labelsFit_scanTrace options hlength)
  have hdeclaration : symbol ∈ declarations options (scanTrace options text) := hsymbols ▸ hsymbol
  obtain ⟨name, hmem, -, -, hline, hstart, hend⟩ := exists_label_of_mem_declarations hdeclaration
  have hshort : text.toList.length < counterMax := by rwa [String.length_toList]
  obtain ⟨left, right, -, hchars, hleft, -⟩ := (standsIn_of_mem_scanTrace hmem).on_line hshort
  refine ⟨_, hline ▸ hchars, ?_, ?_⟩
  · rw [hstart, hend]
    exact Nat.le_add_right _ _
  · rw [hend, ← hleft, ← String.length_toList, List.length_append, List.length_append]
    omega

/-- Characters and units put the name at the same place just if no character before its end takes up
two units. -/
theorem symbolSpan_eq_nameSpan_iff (hbreaks : PlainBreaks text.toList)
    (hlength : text.length < counterMax) (hsymbol : symbol ∈ (scan options text).symbols) :
    (Document.ofString text).symbolSpan symbol = symbol.nameSpan ↔
      ∀ c ∈ symbol.upToName text.toList, Utf16.width c = 1 := by
  obtain ⟨chars, hchars, hstart, hend⟩ := exists_line_of_mem_symbols hlength hsymbol
  have hcolumn : ∀ column ≤ chars.length,
      (Document.ofString text).utf16Column (symbol.line - 1) column = column ↔
        ∀ c ∈ chars.take column, Utf16.width c = 1 := by
    intro column hinside
    rw [Document.utf16Column_eq hbreaks hchars hinside, ← Utf16.length_eq_length_iff,
      List.length_take_of_le hinside]
  rw [Symbol.upToName, hchars, Option.getD_some]
  calc
    (Document.ofString text).symbolSpan symbol = symbol.nameSpan ↔
        (Document.ofString text).utf16Column (symbol.line - 1) symbol.startColumn =
            symbol.startColumn ∧
          (Document.ofString text).utf16Column (symbol.line - 1) symbol.endColumn =
            symbol.endColumn := by
      simp [Document.symbolSpan, Document.utf16Span, Symbol.nameSpan, Span.mapColumns, Span.onLine]
    _ ↔ (∀ c ∈ chars.take symbol.startColumn, Utf16.width c = 1) ∧
          ∀ c ∈ chars.take symbol.endColumn, Utf16.width c = 1 := by
      rw [hcolumn _ (hstart.trans hend), hcolumn _ hend]
    _ ↔ ∀ c ∈ chars.take symbol.endColumn, Utf16.width c = 1 := by
      refine and_iff_right_of_imp ?_
      intro hnarrow c hc
      exact hnarrow c (List.take_subset_take_left chars hstart hc)

end Symbols

/-! ## Files and documents -/

theorem Disk.scanFile_of_text {disk : Disk} {path text : String} {place : List String}
    (options : ScanOptions) (hfile : disk.resolve path = .ok (.file place text.toUTF8.data.toList)) :
    disk.scanFile options path = .ok (scan options text) := by
  rw [scanFile, hfile]
  dsimp only [Target.source]
  rw [ByteSource.scan_eq options (by simp), Utf8.lossyText_toUTF8, if_neg (by simp [ByteSource.fails])]

namespace Session

/-- The document is not open, and the index has the symbols that a scan of its file has found. -/
structure ShowsFile (session : Session) (disk : Disk) (uri path : String) : Prop where
  toPath? : Uri.toPath? uri = some path
  closed : session.documents.get? uri = none
  index : ∃ report, disk.scanFile session.config.scan path = .ok report ∧
    session.index.get? uri = some report.symbols

section ShowsFile

variable {session : Session} {disk : Disk} {uri path : String} {report : Report}

theorem showsFile_rescan (hpath : Uri.toPath? uri = some path)
    (hscan : disk.scanFile session.config.scan path = .ok report)
    (hclosed : session.documents.get? uri = none) :
    (session.rescan disk uri path).1.ShowsFile disk uri path := by
  have hrescan : (session.rescan disk uri path).1 =
      { session with index := session.index.insert uri report.symbols } := by
    rw [rescan, SymbolIndex.indexFile, hscan, Uri.ofPath_of_toPath? hpath]
    rfl
  rw [hrescan]
  exact ⟨hpath, hclosed, report, hscan, UriMap.get?_insert_self _ _ _⟩

/-- A file is shown once its document is closed. -/
theorem showsFile_closeDocument (hpath : Uri.toPath? uri = some path) (hfile : disk.isFile path)
    (hscan : disk.scanFile session.config.scan path = .ok report) :
    (session.closeDocument disk uri).1.ShowsFile disk uri path := by
  rw [closeDocument, hpath, Option.filter_some, if_pos hfile]
  exact showsFile_rescan hpath hscan (UriMap.get?_erase_self _ _)

end ShowsFile

/-! ## Both lists -/

/-- The symbol with its place counted in characters. -/
def Listing.inCharacters (listing : Listing) : Listing :=
  { listing with span := listing.symbol.nameSpan }

theorem documentSymbols_eq (session : Session) (uri : String) :
    session.documentSymbols uri =
      if session.symbolsOf uri = [] then none
      else some ((session.symbolsOf uri).map (session.listing uri)) := by
  unfold documentSymbols
  cases session.symbolsOf uri <;> rfl

section Lists

variable {opened closed : Session} {disk : Disk} {uri path text : String} {place : List String}

theorem symbolsOf_of_open (hopened : opened.documents.get? uri = some (.ofString text)) :
    opened.symbolsOf uri = (scan opened.config.scan text).symbols := by
  rw [symbolsOf, hopened]
  rfl

theorem ShowsFile.symbolsOf (hshows : closed.ShowsFile disk uri path)
    (hfile : disk.resolve path = .ok (.file place text.toUTF8.data.toList)) :
    closed.symbolsOf uri = (scan closed.config.scan text).symbols := by
  obtain ⟨report, hscan, hindex⟩ := hshows.index
  rw [Disk.scanFile_of_text _ hfile] at hscan
  obtain rfl := Except.ok.inj hscan
  rw [Session.symbolsOf, hshows.closed, hindex]
  rfl

theorem listing_of_open (hopened : opened.documents.get? uri = some (.ofString text)) (symbol : Symbol) :
    opened.listing uri symbol = ⟨symbol, uri, (Document.ofString text).symbolSpan symbol⟩ := by
  rw [listing, hopened]

theorem listing_of_closed (hclosed : closed.documents.get? uri = none) (symbol : Symbol) :
    closed.listing uri symbol = ⟨symbol, uri, symbol.nameSpan⟩ := by
  rw [listing, hclosed]

/-- **A document open and closed.** Let the text of an open document also be in its file, and let the
index of a session where it is not open have the symbols from a scan of that file. Then the same
symbols are listed for the document, with columns in characters where it is not open. If every line
break of the text is a line feed or has one right after it, the lists are equal just if no character
up to the end of a declared name on its line takes up two UTF-16 units. -/
theorem documentSymbols_open_eq_closed_iff
    (hopened : opened.documents.get? uri = some (.ofString text))
    (hshows : closed.ShowsFile disk uri path) (hoptions : closed.config.scan = opened.config.scan)
    (hfile : disk.resolve path = .ok (.file place text.toUTF8.data.toList)) :
    closed.documentSymbols uri = (opened.documentSymbols uri).map (·.map Listing.inCharacters) ∧
    (PlainBreaks text.toList → text.length < counterMax →
      (opened.documentSymbols uri = closed.documentSymbols uri ↔
        ∀ symbol ∈ (scan opened.config.scan text).symbols,
          ∀ c ∈ symbol.upToName text.toList, Utf16.width c = 1)) := by
  have hfrom := symbolsOf_of_open hopened
  have hsame : closed.symbolsOf uri = opened.symbolsOf uri := by
    rw [hshows.symbolsOf hfile, hoptions, hfrom]
  rw [documentSymbols_eq, documentSymbols_eq, hsame]
  constructor
  · split_ifs with hnone
    · rfl
    · rw [Option.map_some, List.map_map]
      congr 2
      funext symbol
      rw [Function.comp_apply, listing_of_open hopened, listing_of_closed hshows.closed]
      rfl
  · intro hbreaks hlength
    rw [← hfrom]
    split_ifs with hnone
    · simp [hnone]
    · rw [Option.some_inj, List.map_inj_left]
      refine forall₂_congr ?_
      intro symbol hsymbol
      rw [hfrom] at hsymbol
      rw [listing_of_open hopened, listing_of_closed hshows.closed,
        ← symbolSpan_eq_nameSpan_iff hbreaks hlength hsymbol]
      simp

end Lists

/-- A disk with the text in a file. -/
def diskWith (text : String) : Disk := ⟨[(["a.php"], .file text.toUTF8.data.toList)]⟩

/-- A session where a document with the text is open. -/
def opening (text : String) : Session := (Session.start.openDocument "file:///a.php" text).1

/-- The session once the document is closed, when the text is in its file. -/
def closing (text : String) : Session :=
  ((opening text).closeDocument (diskWith text) "file:///a.php").1

/-- A text with an accented letter before a name, and a carriage return at the end of a line. -/
def accented : String := "<?php\x0d\n/*é*/ class A \x7b"

theorem documentSymbols_open_eq_closed_accented :
    (opening accented).documentSymbols "file:///a.php" =
      (closing accented).documentSymbols "file:///a.php" := by
  have hfile : (diskWith accented).resolve "/a.php" =
      .ok (.file ["a.php"] accented.toUTF8.data.toList) := by decide +kernel
  have hshows : (closing accented).ShowsFile (diskWith accented) "file:///a.php" "/a.php" := by
    apply showsFile_closeDocument
    · decide +kernel
    · rw [Disk.isFile, hfile]
    · exact Disk.scanFile_of_text _ hfile
  have hopened : (opening accented).documents.get? "file:///a.php" = some (.ofString accented) :=
    UriMap.get?_insert_self _ _ _
  have hnarrow : (scan (opening accented).config.scan accented).symbols.all (fun symbol =>
      (symbol.upToName accented.toList).all (Utf16.width · == 1)) = true := by decide +kernel
  rw [(documentSymbols_open_eq_closed_iff hopened hshows (by decide +kernel) hfile).2
    (by decide +kernel) (by decide +kernel)]
  simpa using hnarrow

/-- With a character of two units before the name, the columns in characters are too small. -/
theorem documentSymbols_closed_after_wide_character :
    (opening "<?php /* 😀 */ class Foo \x7b\x7d").documentSymbols "file:///a.php" =
      some [⟨⟨"Foo", .classDecl, 1, 20, 23, 0⟩, "file:///a.php", ⟨0, 21, 0, 24⟩⟩] ∧
    (closing "<?php /* 😀 */ class Foo \x7b\x7d").documentSymbols "file:///a.php" =
      some [⟨⟨"Foo", .classDecl, 1, 20, 23, 0⟩, "file:///a.php", ⟨0, 20, 0, 23⟩⟩] := by
  decide +kernel

end Session

end PhpOutline
