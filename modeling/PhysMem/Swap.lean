import PhysMem.Swap.Device
import PhysMem.Swap.SlotMap

/-!
# The swap area — a slot map and the device its slots lie on

The map says which slots hold a page, the device holds the pages. No operation needs both at once:
a slot is reserved or held first, then its sectors are transferred, then it is settled.
-/

namespace PhysMem

/-- Swap slots, and the device they lie on. -/
structure SwapArea where
  slots : SlotMap
  device : SwapDevice
  /-- Whether a slot is overwritten once it has been read back. -/
  scrub : Bool
  deriving DecidableEq, Repr

namespace SwapArea

/-- A swap area of free slots on a block. -/
def ofBlock (block : Block) (config : SwapConfig) : SwapArea :=
  let device := SwapDevice.ofBlock block config
  { slots := SlotMap.empty device.slots, device, scrub := config.scrub }

/-- The number of slots. -/
def capacity (a : SwapArea) : Nat := a.device.slots

/-- What is said about a new swap area. -/
def notices (a : SwapArea) : List Notice :=
  a.device.notices ++ [.swapReady a.capacity a.device.block.name a.device.firstSector]

end SwapArea

end PhysMem
