import PhpOutline.ByteSource
import PhpOutline.Proofs.LossyDecoding
import PhpOutline.Proofs.ParallelRuns

/-!
# Reading bytes

A source hands out its bytes in pieces of its own choosing, and any of its reads may be interrupted
first. Blocking and asynchronous readers take the reads that come in the same way, which is why there
is one `scanReads` for both. Its result is a matter of the bytes alone: their lossy reading is scanned
as one text, unless the source fails before it has come to its end.
-/

namespace PhpOutline

/-- The reads hand out the bytes in pieces of one to `most` bytes, with any number of interruptions,
and after these comes the read `last`. What would be read later is left open. -/
inductive Delivers (most : Nat) (last : Read) : List UInt8 → List Read → Prop where
  | done (later : List Read) : Delivers most last [] (last :: later)
  | interrupted {bytes : List UInt8} {reads : List Read} (hreads : Delivers most last bytes reads) :
      Delivers most last bytes (.interrupted :: reads)
  | piece {chunk bytes : List UInt8} {reads : List Read} (hne : chunk ≠ [])
      (hsize : chunk.length ≤ most) (hreads : Delivers most last bytes reads) :
      Delivers most last (chunk ++ bytes) (.bytes chunk :: reads)

/-! ## Reads -/

section Reads

variable {most : Nat} {bytes : List UInt8} {reads : List Read}

theorem Scanner.runReads_of_ne_nil (s : Scanner) (decoder : Utf8.Decoder) {chunk : List UInt8}
    (hne : chunk ≠ []) (reads : List Read) :
    s.runReads decoder (.bytes chunk :: reads) =
      (s.run ((decoder.decode chunk).2.map Utf8.Item.toChar)).runReads (decoder.decode chunk).1
        reads := by
  cases chunk with
  | nil => exact absurd rfl hne
  | cons byte rest => rfl

theorem Scanner.runReads_of_ended (s : Scanner) (decoder : Utf8.Decoder)
    (hreads : Delivers most (.bytes []) bytes reads) :
    s.runReads decoder reads =
      .ok (s.run (((decoder.decode bytes).2 ++ (decoder.decode bytes).1.finish).map
        Utf8.Item.toChar)).report := by
  induction hreads generalizing s decoder with
  | done later => rfl
  | interrupted hreads ih => exact ih s decoder
  | @piece chunk bytes reads hne hsize hreads ih =>
      rw [s.runReads_of_ne_nil decoder hne, ih, ← Scanner.run_append, ← List.map_append,
        decoder.decode_append, List.append_assoc]

theorem Scanner.runReads_of_failed (s : Scanner) (decoder : Utf8.Decoder) {fault : ReadFault}
    (hreads : Delivers most (.failed fault) bytes reads) :
    s.runReads decoder reads = .error (.cannotRead fault) := by
  induction hreads generalizing s decoder with
  | done later => rfl
  | interrupted hreads ih => exact ih s decoder
  | @piece chunk bytes reads hne hsize hreads ih =>
      rw [s.runReads_of_ne_nil decoder hne]
      exact ih _ _

end Reads

/-! ## Sources -/

namespace ByteSource

/-- Whether the source fails before it has come to its end. -/
def fails (source : ByteSource) : Bool := source.failsAfter.any (· ≤ source.rest.length)

/-- The bytes that the source hands out before it ends or fails. -/
def given (source : ByteSource) : List UInt8 :=
  source.rest.take (source.failsAfter.getD source.rest.length)

/-- The read after the last of the bytes. -/
def lastRead (source : ByteSource) : Read :=
  if source.fails then .failed source.fault else .bytes []

/-- The largest number of bytes that a read for `room` bytes gives. -/
def mostPerRead (source : ByteSource) (room : Nat) : Nat := min room (source.maxRead.getD room)

section Advance

variable {source : ByteSource} {room count : Nat}

theorem readSize_le (source : ByteSource) (room : Nat) :
    source.readSize room ≤ source.mostPerRead room ∧
      source.readSize room ≤ source.rest.length ∧
      ∀ limit ∈ source.failsAfter, source.readSize room ≤ limit := by
  refine ⟨Nat.min_le_left _ _, ?_, ?_⟩
  · exact Nat.le_trans (Nat.min_le_right _ _) (Nat.min_le_left _ _)
  · intro limit hlimit
    rw [Option.mem_def] at hlimit
    calc source.readSize room
        ≤ min source.rest.length (source.failsAfter.getD room) := Nat.min_le_right _ _
      _ ≤ source.failsAfter.getD room := Nat.min_le_right _ _
      _ = limit := by rw [hlimit, Option.getD_some]

theorem fails_advance (hrest : count ≤ source.rest.length)
    (hlimit : ∀ limit ∈ source.failsAfter, count ≤ limit) :
    (source.advance count).fails = source.fails := by
  cases hfails : source.failsAfter with
  | none => simp [fails, advance, hfails]
  | some limit =>
      have hle := hlimit limit hfails
      simp only [fails, advance, hfails, Option.map_some, Option.any_some, List.length_drop,
        decide_eq_decide]
      omega

theorem given_advance (hlimit : ∀ limit ∈ source.failsAfter, count ≤ limit) :
    source.rest.take count ++ (source.advance count).given = source.given := by
  cases hfails : source.failsAfter with
  | none =>
      simp only [given, advance, hfails, Option.map_none, Option.getD_none, List.take_length]
      exact List.take_append_drop count source.rest
  | some limit =>
      have hle := hlimit limit hfails
      simp only [given, advance, hfails, Option.map_some, Option.getD_some]
      rw [← List.take_add, Nat.add_sub_of_le hle]

theorem rest_eq_nil_of_readSize_eq_zero (hroom : 0 < room) (hmax : source.maxRead ≠ some 0)
    (hfails : source.failsAfter ≠ some 0) (hsize : source.readSize room = 0) :
    source.rest = [] := by
  have hmaxPos : 0 < source.maxRead.getD room := by
    cases hread : source.maxRead with
    | none => exact hroom
    | some most =>
        apply Nat.pos_of_ne_zero
        rintro rfl
        exact hmax hread
  have hfailsPos : 0 < source.failsAfter.getD room := by
    cases hafter : source.failsAfter with
    | none => exact hroom
    | some limit =>
        apply Nat.pos_of_ne_zero
        rintro rfl
        exact hfails hafter
  apply List.eq_nil_of_length_eq_zero
  unfold readSize at hsize
  omega

/-- A source that gives something on every read hands out its bytes and then ends or fails. -/
theorem delivers_reads (hroom : 0 < room) (hmax : source.maxRead ≠ some 0) :
    Delivers (source.mostPerRead room) source.lastRead source.given (source.reads room) := by
  fun_induction reads source room with
  | case1 source hinterrupt ih => exact .interrupted (ih hmax)
  | case2 source hinterrupt hfails =>
      have hlast : source.lastRead = .failed source.fault := by simp [lastRead, fails, hfails]
      have hgiven : source.given = [] := by simp [given, hfails]
      rw [hlast, hgiven]
      exact .done []
  | case3 source hinterrupt hfails hsize =>
      have hrest := rest_eq_nil_of_readSize_eq_zero hroom hmax hfails hsize
      have hlast : source.lastRead = .bytes [] := by
        cases hafter : source.failsAfter with
        | none => simp [lastRead, fails, hafter]
        | some limit =>
            have hlimit : limit ≠ 0 := fun hzero => hfails (by rw [hafter, hzero])
            simp [lastRead, fails, hafter, hrest, hlimit]
      have hgiven : source.given = [] := by simp [given, hrest]
      rw [hlast, hgiven]
      exact .done []
  | case4 source hinterrupt hfails hsize ih =>
      obtain ⟨hmost, hrest, hlimit⟩ := source.readSize_le room
      have hlast : (source.advance (source.readSize room)).lastRead = source.lastRead := by
        rw [lastRead, lastRead, fails_advance hrest hlimit]
        rfl
      have hreads := ih hmax
      rw [hlast] at hreads
      rw [← given_advance hlimit]
      refine .piece ?_ ?_ hreads
      · rw [← List.length_pos_iff, List.length_take]
        omega
      · rw [List.length_take]
        omega

end Advance

theorem given_eq_rest {source : ByteSource} (hfails : source.fails = false) :
    source.given = source.rest := by
  apply List.take_of_length_le
  cases hafter : source.failsAfter with
  | none => exact Nat.le_refl _
  | some limit =>
      simp only [fails, hafter, Option.any_some, decide_eq_false_iff_not] at hfails
      rw [Option.getD_some]
      omega

end ByteSource

/-! ## The size of a read

It is among the options that the scanner carries along, but the scanner never looks at it.
-/

namespace Scanner

/-- The scanner, told of another size of reads in the middle of a text. -/
def rechunked (s : Scanner) (size : Nat) : Scanner :=
  { s with options := { s.options with chunkSize := size } }

section Rechunked

variable (s : Scanner) (size : Nat)

theorem complete_rechunked : (s.rechunked size).complete = s.complete.rechunked size := by
  cases hpending : s.pending with
  | none => simp only [complete, rechunked, hpending]
  | some ident => simp only [complete, rechunked, hpending]

theorem isParallelInPlace_rechunked : IsParallelInPlace fun s t => t = s.rechunked size where
  region_eq := by rintro s _ rfl; rfl
  tag_eq := by rintro s _ rfl; rfl
  lead_eq := by rintro s _ rfl; rfl
  withTag := by rintro s _ rfl tag; rfl
  withLead := by rintro s _ rfl lead; rfl
  withoutPending := by rintro s _ rfl; rfl
  enter := by rintro s _ rfl region; rfl
  leave := by rintro s _ rfl; rfl
  replace := by rintro s _ rfl region; rfl
  note := by rintro s _ rfl c; rfl
  openBrace := by rintro s _ rfl; rfl
  closeBrace := by rintro s _ rfl; rfl
  extend := by rintro s _ rfl c; rfl
  complete := by
    rintro s _ rfl
    exact s.complete_rechunked size
  confirm := by rintro s _ rfl terminator; rfl
  cancel := by rintro s _ rfl; rfl
  enterCode := by rintro s _ rfl; rfl
  leaveCode := by
    rintro s _ rfl
    rw [leaveCode, complete_rechunked]
    rfl
  position_eq := by rintro s _ rfl; rfl
  withPosition := by rintro s _ rfl position; rfl
  enterAtLead := by rintro s _ rfl region; rfl

theorem run_rechunked (text : List Char) :
    (s.rechunked size).run text = (s.run text).rechunked size :=
  (isParallelInPlace_rechunked size).run rfl text

theorem report_rechunked : (s.rechunked size).report = s.report := by
  have hclose : (s.rechunked size).close = s.close.rechunked size :=
    (isParallelInPlace_rechunked size).close rfl
  unfold report
  rw [hclose]
  rfl

end Rechunked

end Scanner

theorem scan_rechunked (options : ScanOptions) (size : Nat) (text : String) :
    scan { options with chunkSize := size } text = scan options text := by
  calc scan { options with chunkSize := size } text
      = (((Scanner.start options).rechunked size).run text.toList).report := rfl
    _ = (((Scanner.start options).run text.toList).rechunked size).report := by
        rw [Scanner.run_rechunked]
    _ = scan options text := Scanner.report_rechunked _ size

theorem foldl_feed (s : Scanner) (pieces : List String) :
    pieces.foldl Scanner.feed s = s.run (pieces.flatMap String.toList) := by
  induction pieces generalizing s with
  | nil => rfl
  | cons piece rest ih =>
      rw [List.foldl_cons, ih, List.flatMap_cons, Scanner.run_append]
      rfl

theorem scanPieces_eq_scan_join (options : ScanOptions) (pieces : List String) :
    scanPieces options pieces = scan options (String.join pieces) := by
  rw [scanPieces, foldl_feed, scan, Scanner.feed, String.toList_join]

/-! ## The result of reading -/

/-- The lossy reading of the bytes. -/
def Utf8.lossyText (bytes : List UInt8) : String :=
  .ofList (((Decoder.start.decode bytes).2 ++ (Decoder.start.decode bytes).1.finish).map Item.toChar)

theorem Utf8.lossy_lossyText (bytes : List UInt8) : Lossy bytes (lossyText bytes).toList := by
  have hstart : ProperlyBegins Decoder.start.carry := properlyBegins_nil
  have hreads := Decoder.reads_decode bytes hstart
  have hfinish := Decoder.lossy_finish hreads.properlyBegins
  rw [← List.append_nil (Decoder.start.decode bytes).1.carry] at hfinish
  simpa [lossyText, Decoder.start] using hreads.lossy [] _ hfinish

theorem Utf8.lossyText_toUTF8 (text : String) : lossyText text.toUTF8.data.toList = text := by
  have htext : Lossy text.toUTF8.data.toList text.toList := by
    rw [toList_toUTF8]
    exact lossy_flatMap_utf8EncodeChar text.toList
  exact String.toList_inj.1 ((lossy_lossyText _).unique htext)

theorem scanReads_of_ended {most : Nat} {bytes : List UInt8} {reads : List Read}
    (options : ScanOptions) (hreads : Delivers most (.bytes []) bytes reads) :
    scanReads options reads = .ok (scan options (Utf8.lossyText bytes)) := by
  rw [scanReads, Scanner.runReads_of_ended _ _ hreads, scan, Scanner.feed, Utf8.lossyText,
    String.toList_ofList]

theorem ByteSource.scan_eq (options : ScanOptions) {source : ByteSource}
    (hmax : source.maxRead ≠ some 0) :
    source.scan options =
      if source.fails then .error (.cannotRead source.fault)
      else .ok (PhpOutline.scan options (Utf8.lossyText source.rest)) := by
  have hroom : 0 < options.readSize := Nat.lt_of_lt_of_le Nat.zero_lt_one (Nat.le_max_right _ _)
  have hreads := source.delivers_reads hroom hmax
  rw [ByteSource.scan]
  split_ifs with hfails
  · rw [lastRead, if_pos hfails] at hreads
    exact Scanner.runReads_of_failed _ _ hreads
  · rw [Bool.not_eq_true] at hfails
    rw [lastRead, hfails, given_eq_rest hfails] at hreads
    exact scanReads_of_ended options hreads

/-- **The result of reading.** Some text is the lossy reading of the bytes, and it is what is scanned,
whatever the options and however the bytes come: in any pieces that are not empty and not larger than
the reads that are asked for, with any interruptions, or from any source that gives something on
every read. A failure before the end leaves nothing but the failure. The size of the reads does not
matter, and if the bytes are those of a text, it is that text that is scanned, as it would be in any
pieces. -/
theorem scan_bytes_eq_scan_text (bytes : List UInt8) :
    ∃ text : String, Utf8.Lossy bytes text.toList ∧
      (∀ (options : ScanOptions) (maxRead : Nat) (reads : List Read),
        Delivers (min options.readSize maxRead) (.bytes []) bytes reads →
          scanReads options reads = .ok (scan options text)) ∧
      (∀ (options : ScanOptions) (maxRead count : Nat) (fault : ReadFault) (reads : List Read),
        Delivers (min options.readSize maxRead) (.failed fault) (bytes.take count) reads →
          scanReads options reads = .error (.cannotRead fault)) ∧
      (∀ (options : ScanOptions) (source : ByteSource), source.rest = bytes →
        source.maxRead ≠ some 0 →
          source.scan options =
            if source.fails then .error (.cannotRead source.fault) else .ok (scan options text)) ∧
      (∀ (options : ScanOptions) (size : Nat),
        scan { options with chunkSize := size } text = scan options text) ∧
      ∀ whole : String, bytes = whole.toUTF8.data.toList →
        text = whole ∧ ∀ (options : ScanOptions) (pieces : List String),
          String.join pieces = whole → scanPieces options pieces = scan options text := by
  refine ⟨Utf8.lossyText bytes, Utf8.lossy_lossyText bytes, ?_, ?_, ?_, ?_, ?_⟩
  · intro options maxRead reads hreads
    exact scanReads_of_ended options hreads
  · intro options maxRead count fault reads hreads
    exact Scanner.runReads_of_failed _ _ hreads
  · rintro options source rfl hmax
    exact source.scan_eq options hmax
  · intro options size
    exact scan_rechunked options size _
  · rintro whole rfl
    refine ⟨Utf8.lossyText_toUTF8 whole, ?_⟩
    intro options pieces hpieces
    rw [scanPieces_eq_scan_join, hpieces, Utf8.lossyText_toUTF8]

/-- One byte at a time, each after an interruption, through a character of two bytes. -/
theorem scan_bytes_eq_scan_text_byte_by_byte :
    ByteSource.scan { chunkSize := 0 }
        { rest := "<?php class É \x7b".toUTF8.data.toList, maxRead := some 1, interrupts := true } =
      .ok (scan { chunkSize := 0 } "<?php class É \x7b") := by
  obtain ⟨text, -, -, -, hsource, -, hwhole⟩ :=
    scan_bytes_eq_scan_text "<?php class É \x7b".toUTF8.data.toList
  obtain ⟨rfl, -⟩ := hwhole _ rfl
  exact hsource _ _ rfl (by simp)

end PhpOutline
