import PhpOutline.Discovery
import PhpOutline.SymbolIndex
import PhpOutline.Uri

/-!
# Indexing files

Files are scanned from a disk, and their symbols are stored in the index under their file URIs. A
file that cannot be scanned is counted and otherwise ignored. Whoever asks for the indexing can
decline the symbols of some files.
-/

namespace PhpOutline

/-- Scans a file into the index and gives the number of its symbols. -/
def SymbolIndex.indexFile (index : SymbolIndex) (disk : Disk) (options : ScanOptions) (path : String) :
    Except ScanError (SymbolIndex × Nat) :=
  (disk.scanFile options path).map fun report =>
    (index.insert (Uri.ofPath path) report.symbols, report.symbols.length)

inductive Outcome where
  | failed (error : ScanError)
  /-- The file was scanned, and its symbols were stored or declined. -/
  | scanned (uri : String) (symbols : List Symbol) (stored : Bool)
deriving DecidableEq, Repr, Inhabited

namespace Outcome

def isFailed : Outcome → Bool
  | failed _ => true
  | scanned _ _ _ => false

def isStored : Outcome → Bool
  | scanned _ _ stored => stored
  | failed _ => false

def isSkipped : Outcome → Bool
  | scanned _ _ stored => !stored
  | failed _ => false

def storedSymbols : Outcome → List Symbol
  | scanned _ symbols true => symbols
  | _ => []

def store (index : SymbolIndex) : Outcome → SymbolIndex
  | scanned uri symbols true => index.insert uri symbols
  | _ => index

end Outcome

/-- Scans a file; `accepts` says which URIs have their symbols stored. -/
def Disk.outcome (disk : Disk) (options : ScanOptions) (accepts : String → Bool) (path : String) :
    Outcome :=
  match disk.scanFile options path with
  | .ok report => .scanned (Uri.ofPath path) report.symbols (accepts (Uri.ofPath path))
  | .error error => .failed error

/-- How many files were stored, symbols were stored, files failed and files were declined. -/
structure Tally where
  files : Nat
  symbols : Nat
  failed : Nat
  skipped : Nat
deriving DecidableEq, Repr, Inhabited

namespace Tally

def ofOutcomes (outcomes : List Outcome) : Tally where
  files := outcomes.countP Outcome.isStored
  symbols := (outcomes.flatMap Outcome.storedSymbols).length
  failed := outcomes.countP Outcome.isFailed
  skipped := outcomes.countP Outcome.isSkipped

def add (a b : Tally) : Tally :=
  ⟨a.files + b.files, a.symbols + b.symbols, a.failed + b.failed, a.skipped + b.skipped⟩

def total (tally : Tally) : Nat := tally.files + tally.failed + tally.skipped

end Tally

def SymbolIndex.storeAll (index : SymbolIndex) (outcomes : List Outcome) : SymbolIndex :=
  outcomes.foldl Outcome.store index

theorem Tally.ofOutcomes_append (first second : List Outcome) :
    ofOutcomes (first ++ second) = (ofOutcomes first).add (ofOutcomes second) := by
  simp [ofOutcomes, add]

theorem SymbolIndex.storeAll_append (index : SymbolIndex) (first second : List Outcome) :
    index.storeAll (first ++ second) = (index.storeAll first).storeAll second :=
  List.foldl_append

end PhpOutline
