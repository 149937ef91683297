import PhpOutline.Session.Basic

/-!
# Indexing the workspace

When the editor is ready, the PHP files of the workspace are indexed, in batches between which
progress is reported. Documents that are open are left alone.
-/

namespace PhpOutline.Session

/-- How many files are indexed between two reports. -/
def batchSize : Nat := 25

/-- Batches of `size`, the last of which may be shorter. -/
def batches {α : Type} (size : Nat) (items : List α) : List (List α) :=
  if size = 0 ∨ items = [] then [] else items.take size :: batches size (items.drop size)
termination_by items.length
decreasing_by
  rename_i hsize
  have hlength : 0 < items.length := List.length_pos_iff.mpr fun hnil => hsize (Or.inr hnil)
  simp only [List.length_drop]
  omega

theorem flatten_batches {α : Type} {size : Nat} (h : 0 < size) (items : List α) :
    (batches size items).flatten = items := by
  fun_induction batches size items with
  | case1 items hsize =>
    rcases hsize with hzero | hnil
    · omega
    · simp [hnil]
  | case2 items hsize ih => simp [ih]

/-- In percent, rounded down; the quotient is taken in double precision before it is scaled. -/
def percentage (done total : Nat) : Nat :=
  if total = 0 then 100 else (done.toFloat / total.toFloat * 100.0).toUInt32.toNat

structure IndexingState where
  index : SymbolIndex
  tally : Tally
  reports : List Progress

def indexBatch (disk : Disk) (options : ScanOptions) (accepts : String → Bool) (total : Nat)
    (state : IndexingState) (batch : List String) : IndexingState :=
  let outcomes := batch.map (disk.outcome options accepts)
  let tally := state.tally.add (Tally.ofOutcomes outcomes)
  let message := "Indexed " ++ toString tally.total ++ "/" ++ toString total ++ " files"
  { index := state.index.storeAll outcomes
    tally
    reports := state.reports ++ [.reported message (percentage tally.total total)] }

/-- The PHP files of the workspace that are not open. -/
def closedFiles (session : Session) (disk : Disk) (root : String) : List String :=
  (disk.phpFiles session.config.excludeDirs root).filter
    fun path => !session.documents.contains (Uri.ofPath path)

def indexFiles (session : Session) (disk : Disk) (files : List String) : IndexingState :=
  (batches batchSize files).foldl
    (indexBatch disk session.config.scan (!session.documents.contains ·) files.length)
    { index := session.index, tally := ⟨0, 0, 0, 0⟩, reports := [] }

/-- Progress is reported if the editor can show it and agrees. -/
def indexWorkspace (session : Session) (around : Surroundings) (root : String) : Worked :=
  let files := session.closedFiles around.disk root
  let state := session.indexFiles around.disk files
  let stages :=
    [.begun "Indexing PHP symbols" "Discovering files...",
      .reported ("Indexing " ++ toString files.length ++ " files...") 0] ++
    state.reports ++ [.ended ("Indexed " ++ toString state.tally.files ++ " files")]
  let asked := if session.progress then [.askProgress] else []
  let reported :=
    if session.progress && around.grantsProgress then stages.map .progress else []
  let summary := .log .info ("php-symbols: indexed " ++ toString state.tally.symbols ++
    " symbols from " ++ toString state.tally.files ++ " PHP files")
  ({ session with index := state.index }, asked ++ reported ++ [summary])

def beginWork (session : Session) (around : Surroundings) : Worked :=
  let greeting := .log .info "php-symbols server initialized"
  match session.root with
  | some root =>
    if session.config.indexWorkspace then
      let (session, sent) := session.indexWorkspace around root
      (session, greeting :: sent)
    else (session, [greeting])
  | none => (session, [greeting])

end PhpOutline.Session
