import PhysMem.Address

/-!
# Configuration — what the memory system is told at boot
-/

namespace PhysMem

/-- Where a free run of frames is looked for. -/
inductive PlacementPolicy where
  /-- The lowest run that fits. -/
  | firstFit
  /-- The first run that fits behind the last one handed out, around the table once. -/
  | nextFit
  deriving DecidableEq, Repr

/-- The name of the policy in messages. -/
def PlacementPolicy.name : PlacementPolicy → String
  | .firstFit => "FirstFit"
  | .nextFit => "NextFit"

/-- The part of a block device that is given over to swap slots. -/
structure SwapConfig where
  /-- Bytes for slots, rounded down to whole frames and to what the device holds. -/
  capacity : Nat := 0x100000
  /-- The first sector of the swap area. -/
  firstSector : Nat := 0
  /-- Whether a slot is overwritten with zeros once it has been read back. -/
  scrub : Bool := true
  deriving DecidableEq, Repr

/-- The parameters of the memory system. -/
structure MemoryConfig where
  /-- The first address behind physical memory. -/
  ramEnd : Nat := 32 * 0x100000
  /-- The first address that the kernel image leaves free. -/
  firstFree : Nat := 2 * 0x100000
  placement : PlacementPolicy := .firstFit
  swap : SwapConfig := {}
  deriving DecidableEq, Repr

namespace MemoryConfig

/-- The configuration for `kilobytes` of memory above the firmware's. -/
def ofUpperMemory (kilobytes firstFree : Nat) : Except Fault MemoryConfig := do
  let bytes ← Word.mul Word.bits kilobytes 1024
  let ramEnd ← Word.add Word.bits Address.upperStart bytes
  return { ramEnd, firstFree }

end MemoryConfig

/-- The text that shows the swap configuration. -/
def SwapConfig.describe (c : SwapConfig) : String :=
  "SwapConfig \x7b capacity: " ++ toString c.capacity ++ ", first_sector: " ++
    toString c.firstSector ++ ", scrub_on_restore: " ++ toString c.scrub ++ " \x7d"

/-- The text that shows the whole configuration. -/
def MemoryConfig.describe (c : MemoryConfig) : String :=
  "MemoryConfig \x7b ram_end: " ++ toString c.ramEnd ++ ", first_free: " ++
    toString c.firstFree ++ ", placement: " ++ c.placement.name ++ ", swap: " ++
    c.swap.describe ++ " \x7d"

end PhysMem
