import PhpOutline.Report
import PhpOutline.SystemError
import PhpOutline.Text.Utf8

/-!
# Scanning byte sources

A byte source is read piece by piece. A read may give fewer bytes than asked for, may be interrupted,
in which case it is tried again, or may fail, in which case there is no report. A read that gives
nothing is the end.
-/

namespace PhpOutline

inductive ReadFault where
  | system (error : SystemError)
  /-- Any other reason, in words. -/
  | other (reason : String)
deriving DecidableEq, Repr, Inhabited

def ReadFault.message : ReadFault → String
  | system error => error.message
  | other reason => reason

inductive ScanError where
  | cannotOpen (path : String) (error : SystemError)
  | cannotRead (fault : ReadFault)
deriving DecidableEq, Repr, Inhabited

def ScanError.message : ScanError → String
  | cannotOpen path error => "failed to open " ++ path ++ ": " ++ error.message
  | cannotRead fault => "failed to read source: " ++ fault.message

inductive Read where
  | bytes (chunk : List UInt8)
  | interrupted
  | failed (fault : ReadFault)
deriving DecidableEq, Repr, Inhabited

/-- Scans what a sequence of reads gives, from the middle of a text. Reads after the end of the
source or after a failure do not matter. -/
def Scanner.runReads (scanner : Scanner) (decoder : Utf8.Decoder) : List Read → Except ScanError Report
  | [] | .bytes [] :: _ => .ok (scanner.run (decoder.finish.map Utf8.Item.toChar)).report
  | .bytes chunk :: rest =>
    let (decoder, items) := decoder.decode chunk
    (scanner.run (items.map Utf8.Item.toChar)).runReads decoder rest
  | .interrupted :: rest => scanner.runReads decoder rest
  | .failed fault :: _ => .error (.cannotRead fault)

def scanReads (options : ScanOptions) (reads : List Read) : Except ScanError Report :=
  (Scanner.start options).runReads .start reads

/-- Bytes that are given out read by read. -/
structure ByteSource where
  rest : List UInt8
  /-- The most that one read gives. -/
  maxRead : Option Nat := none
  /-- If set, reading fails after so many more bytes. -/
  failsAfter : Option Nat := none
  fault : ReadFault := .other ""
  /-- Whether an interrupted read comes before each of the others. -/
  interrupts : Bool := false
  /-- Whether the next read is interrupted. -/
  interruptNext : Bool := interrupts
deriving DecidableEq, Repr

namespace ByteSource

/-- The number of bytes that a read for `room` bytes gives, unless it is interrupted or fails. -/
def readSize (source : ByteSource) (room : Nat) : Nat :=
  min (min room (source.maxRead.getD room)) (min source.rest.length (source.failsAfter.getD room))

def advance (source : ByteSource) (count : Nat) : ByteSource :=
  { source with
    rest := source.rest.drop count
    failsAfter := source.failsAfter.map (· - count)
    interruptNext := source.interrupts }

/-- The reads go on up to the end of the source or a failure. -/
def reads (source : ByteSource) (room : Nat) : List Read :=
  if source.interruptNext then
    .interrupted :: reads { source with interruptNext := false } room
  else if source.failsAfter = some 0 then [.failed source.fault]
  else if source.readSize room = 0 then [.bytes []]
  else
    .bytes (source.rest.take (source.readSize room)) ::
      reads (source.advance (source.readSize room)) room
termination_by 2 * source.rest.length + source.interruptNext.toNat
decreasing_by
  · simp_all
  · have hsize : source.readSize room ≤ source.rest.length := by
      simp only [readSize]
      omega
    have hbit := Bool.toNat_le source.interrupts
    simp only [advance, List.length_drop]
    omega

def scan (options : ScanOptions) (source : ByteSource) : Except ScanError Report :=
  scanReads options (source.reads options.readSize)

end ByteSource

end PhpOutline
