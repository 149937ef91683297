/-!
# Scan options
-/

namespace PhpOutline

structure ScanOptions where
  distinctInterfaces : Bool := true
  lookbackCapacity : Nat := 128
  chunkSize : Nat := 8192
deriving DecidableEq, Repr

instance : Inhabited ScanOptions := ⟨{}⟩

/-- At least one byte. Sizes that cannot be allocated are outside of the model. -/
def ScanOptions.readSize (options : ScanOptions) : Nat := max options.chunkSize 1

end PhpOutline
