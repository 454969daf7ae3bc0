import PhysMem.Block
import PhysMem.Swap.Error

/-!
# The swap device — slots laid over the sectors of a block

A slot is a run of eight sectors, as long as a frame. The slots lie one behind the other from a
first sector on, as many as both the configured capacity and the block allow.

* **`slotSector`** is the place of a sector of a slot on the block, in the block's 32-bit numbers.
* **`readRefusal?`**, **`writeRefusal?`** say why one sector of a slot is not transferred;
  **`fetch`**, **`store`** transfer it.
* **`readSlot`**, **`writeSlot`**, **`scrubSlot`** move a whole slot, sector by sector, and stop at
  the first error.
-/

namespace PhysMem

/-- The swap area of a block device. -/
structure SwapDevice where
  block : Block
  firstSector : Nat
  slots : Nat
  deriving DecidableEq, Repr

namespace SwapDevice

/-- As many slots as the configuration asks for and the block has room for. -/
def ofBlock (block : Block) (config : SwapConfig) : SwapDevice where
  block
  firstSector := config.firstSector
  slots :=
    min (config.capacity / Address.frameSize) ((block.size - config.firstSector) / sectorsPerFrame)

/-- What is said about a new device: a warning if it holds no slot. -/
def notices (d : SwapDevice) : List Notice :=
  if d.slots = 0 then [.noRoomForSlot d.block.name] else []

/-- The first sector of a slot. -/
def slotStart (d : SwapDevice) (slot : Nat) : Except Fault Nat := do
  let offset ← Word.mul Word.bits slot sectorsPerFrame
  Word.add Block.counterBits d.firstSector (offset % Word.span Block.counterBits)

/-- Sector `i` of a slot.

Reading and writing a whole slot take the sectors from a range of 32-bit numbers that has no end, and
ask it for a ninth one before they stop. Where overflow is checked, this overflows if the block has
`2 ^ 32 - 1` sectors and the slot ends on the last of them. Only that is left out here. -/
def slotSector (d : SwapDevice) (slot i : Nat) : Except Fault Nat := do
  let start ← d.slotStart slot
  Word.add Block.counterBits start i

/-- Why sector `i` of a slot is not read. -/
def readRefusal? (d : SwapDevice) (slot i : Nat) : Except Fault (Option SwapError) :=
  if d.slots ≤ slot then .ok (some (.invalidSlot slot))
  else do
    let sector ← d.slotSector slot i
    return (d.block.readRefusal? sector sectorSize).map .io

/-- Why sector `i` of a slot is not written. -/
def writeRefusal? (d : SwapDevice) (slot i : Nat) : Except Fault (Option SwapError) :=
  if d.slots ≤ slot then .ok (some (.invalidSlot slot))
  else do
    let sector ← d.slotSector slot i
    return (d.block.writeRefusal? sector sectorSize).map .io

/-- Has the drive read sector `i` of a slot. -/
def fetch (d : SwapDevice) (slot i : Nat) :
    Except Fault (Except SwapError Sector × SwapDevice) := do
  let sector ← d.slotSector slot i
  let (answer, block) ← d.block.fetch sector
  return (answer.mapError .io, { d with block })

/-- Has the drive write sector `i` of a slot. -/
def store (d : SwapDevice) (slot i : Nat) (data : Sector) :
    Except Fault (Except SwapError Unit × SwapDevice) := do
  let sector ← d.slotSector slot i
  let (answer, block) ← d.block.store sector data
  return (answer.mapError .io, { d with block })

/-! ## Whole slots -/

/-- The places of the sectors of a slot, in the order they are transferred. -/
def places : List (Fin sectorsPerFrame) := List.finRange sectorsPerFrame

/-- Reads the sectors of a slot into a frame, which is answered as it is afterwards. -/
def readPlaces (d : SwapDevice) (slot : Nat) (frame : Contents) :
    List (Fin sectorsPerFrame) → Except Fault (Except SwapError Unit × Contents × SwapDevice)
  | [] => .ok (.ok (), frame, d)
  | i :: rest => do
    match ← d.readRefusal? slot i with
    | some refusal => return (.error refusal, frame, d)
    | none =>
      let (answer, d) ← d.fetch slot i
      match answer with
      | .ok data => d.readPlaces slot (frame.set i data) rest
      | .error e => return (.error e, frame, d)

/-- Writes the sectors of a frame to those of a slot. -/
def writePlaces (d : SwapDevice) (slot : Nat) (frame : Contents) :
    List (Fin sectorsPerFrame) → Except Fault (Except SwapError Unit × SwapDevice)
  | [] => .ok (.ok (), d)
  | i :: rest => do
    match ← d.writeRefusal? slot i with
    | some refusal => return (.error refusal, d)
    | none =>
      let (answer, d) ← d.store slot i frame[i]
      match answer with
      | .ok () => d.writePlaces slot frame rest
      | .error e => return (.error e, d)

/-- Fills `buffer` from a slot. After an error it may be filled in part. -/
def readSlot (d : SwapDevice) (slot : Nat) (buffer : Array UInt8) :
    Except Fault (Except SwapError Unit × Array UInt8 × SwapDevice) :=
  if d.slots ≤ slot then .ok (.error (.invalidSlot slot), buffer, d)
  else match Contents.ofBytes? buffer with
    | none => .ok (.error (.invalidFrame buffer.size), buffer, d)
    | some frame => do
      let (answer, frame, d) ← d.readPlaces slot frame places
      return (answer, frame.toBytes, d)

/-- Writes `buffer` to a slot. -/
def writeSlot (d : SwapDevice) (slot : Nat) (buffer : Array UInt8) :
    Except Fault (Except SwapError Unit × SwapDevice) :=
  if d.slots ≤ slot then .ok (.error (.invalidSlot slot), d)
  else match Contents.ofBytes? buffer with
    | none => .ok (.error (.invalidFrame buffer.size), d)
    | some frame => d.writePlaces slot frame places

/-- Overwrites a slot with zeros. -/
def scrubSlot (d : SwapDevice) (slot : Nat) : Except Fault (Except SwapError Unit × SwapDevice) :=
  if d.slots ≤ slot then .ok (.error (.invalidSlot slot), d)
  else d.writePlaces slot Contents.zero places

end SwapDevice

end PhysMem
