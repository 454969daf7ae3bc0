/-!
# Block errors — why a sector was not transferred
-/

namespace PhysMem

/-- Why a sector was not transferred. -/
inductive BlockError where
  | sectorOutOfBounds (sector : Nat)
  | bufferInvalid (length : Nat)
  | readError
  | writeError
  | readOnly
  deriving DecidableEq, Repr

namespace BlockError

/-- The text shown to people. -/
def message : BlockError → String
  | .sectorOutOfBounds sector => s!"sector {sector} out of bounds"
  | .bufferInvalid length => s!"invalid buffer size {length}"
  | .readError => "error reading from the block device"
  | .writeError => "error writing to the block device"
  | .readOnly => "block device is read-only"

/-- The text shown to developers. -/
def describe : BlockError → String
  | .sectorOutOfBounds sector => s!"SectorOutOfBounds({sector})"
  | .bufferInvalid length => s!"BufferInvalid({length})"
  | .readError => "ReadError"
  | .writeError => "WriteError"
  | .readOnly => "ReadOnly"

end BlockError

end PhysMem
