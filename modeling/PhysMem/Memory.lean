import PhysMem.Frame.Bootstrap
import PhysMem.Frame.Verify
import PhysMem.Page.Entry
import PhysMem.Swap

/-!
# Memory — frames, their contents, the swap area and the pager

A `Memory` is the whole state of the memory system: the coremap, what every frame holds, the swap
area, and the pager, which keeps the page entries and is told where an evicted page went.

* **`Memory.create`** puts the parts together, **`Memory.bootstrap`** lays them out at boot.
* **`Memory.contentsAt`** and **`Memory.putContentsAt`** reach every frame of physical memory by its
  address, also those that are not in the table.
* **`Memory.stats`** are its figures.
-/

namespace PhysMem

/-- The side of the page tables: entries by page, and the evictions it was told of. -/
structure Pager where
  entries : List (Page × PageEntry) := []
  /-- Page and slot of every eviction, in the order they were told. -/
  told : List (Page × Nat) := []
  deriving DecidableEq, Repr

namespace Pager

/-- The entry of a page, if it has one. -/
def entry? (p : Pager) (page : Page) : Option PageEntry := p.entries.lookup page

/-- Gives a page an entry in place of the one it had. -/
def put (p : Pager) (page : Page) (entry : PageEntry) : Pager :=
  { p with entries := (page, entry) :: p.entries.filter fun known => known.1 != page }

/-- Takes note that a page went to a slot: its entry now names the slot. -/
def tell (p : Pager) (page : Page) (slot : Nat) : Pager :=
  let p := { p with told := p.told ++ [(page, slot)] }
  match (p.entry? page).bind fun entry => entry.evicted? slot with
  | some entry => p.put page entry
  | none => p

end Pager

/-- The state of the memory system. -/
structure Memory where
  coremap : Coremap
  swap : SwapArea
  /-- What each frame of the table holds. -/
  ram : Array Contents
  /-- What the frames hold that physical memory has beside the table, by address. -/
  spare : List (Nat × Contents) := []
  pager : Pager := {}
  /-- How many evictions came to an end, modulo the word. -/
  evictions : Nat := 0
  /-- How many pages were read back, modulo the word. -/
  restores : Nat := 0
  deriving DecidableEq, Repr

namespace Memory

/-- A memory system of zeroed frames, with no memory beside the table. -/
def create (coremap : Coremap) (swap : SwapArea) : Memory :=
  { coremap, swap, ram := Array.replicate coremap.size .zero }

/-- The whole frames from `start` up to `stop`, zeroed. -/
def blankFrames (start stop : Nat) : List (Nat × Contents) :=
  (List.range ((stop - start) / Address.frameSize)).map fun i =>
    (start + i * Address.frameSize, .zero)

/-- Builds the memory system over the memory that the configuration leaves free, with a block as
its swap area. Below the table lie the frames set aside for its descriptors, above it those that
were left over. -/
def bootstrap (config : MemoryConfig) (block : Block) :
    Except Fault (Except FrameError (Memory × List Notice)) := do
  let boot ← BootAllocator.create config.firstFree config.ramEnd
  let (table, _) ← Coremap.bootstrap boot config.placement
  match table with
  | .error e => return .error e
  | .ok (coremap, notices) =>
    let swap := SwapArea.ofBlock block config.swap
    let ready := Notice.memoryReady coremap.size swap.capacity config.placement
    let tableStop := coremap.base + coremap.size * Address.frameSize
    let below := blankFrames boot.nextFree coremap.base
    let above := blankFrames tableStop config.ramEnd
    let m := { create coremap swap with spare := below ++ above }
    return .ok (m, notices ++ swap.notices ++ [ready])

/-! ## Parts -/

/-- What frame `i` holds. -/
def contents (m : Memory) (i : Nat) : Contents := m.ram[i]?.getD .zero

/-- The memory with what frame `i` holds replaced. -/
def putContents (m : Memory) (i : Nat) (c : Contents) : Memory :=
  { m with ram := m.ram.setIfInBounds i c }

/-- What the frame at an address holds, be it one of the table or not. -/
def contentsAt (m : Memory) (address : Nat) : Except Fault Contents :=
  match m.coremap.indexOf? address with
  | some i => .ok (m.contents i)
  | none =>
    match m.spare.lookup address with
    | some c => .ok c
    | none => .error (.outsideMemory address)

/-- The memory with what the frame at an address holds replaced. -/
def putContentsAt (m : Memory) (address : Nat) (c : Contents) : Memory :=
  match m.coremap.indexOf? address with
  | some i => m.putContents i c
  | none =>
    { m with spare := m.spare.map fun (known, old) => (known, if known = address then c else old) }

/-- The memory with its slot map replaced. -/
def putSlots (m : Memory) (slots : SlotMap) : Memory := { m with swap := { m.swap with slots } }

/-- The memory with its swap device replaced. -/
def putDevice (m : Memory) (device : SwapDevice) : Memory :=
  { m with swap := { m.swap with device } }

/-- The drive under the swap device. -/
def drive (m : Memory) : Drive := m.swap.device.block.drive

/-- The memory with the drive under its swap device replaced. -/
def putDrive (m : Memory) (drive : Drive) : Memory :=
  let device := m.swap.device
  m.putDevice { device with block := { device.block with drive } }

/-- The memory after one more eviction. -/
def countEviction (m : Memory) : Memory :=
  { m with evictions := (m.evictions + 1) % Word.span Word.bits }

/-- The memory after one more page was read back. -/
def countRestore (m : Memory) : Memory :=
  { m with restores := (m.restores + 1) % Word.span Word.bits }

/-- The TLB slot that last mapped the allocated frame at an address. -/
def tlbSlot (m : Memory) (address : Nat) : Except Fault (Except FrameError (Option Nat)) :=
  match m.coremap.indexOf? address with
  | none => .ok (.error (.invalidAddress address))
  | some i => do
    let d ← m.coremap.frame i
    return if d.allocated then .ok d.tlbSlot else .error (.invalidAddress address)

/-! ## Figures -/

/-- The figures of a memory system. -/
structure Stats where
  frames : Coremap.Stats
  swapSlots : Nat
  swapUsed : Nat
  evictions : Nat
  restores : Nat
  deriving DecidableEq, Repr

/-- The figures of the memory system. -/
def stats (m : Memory) : Except Fault Stats := do
  let frames ← m.coremap.stats
  return ⟨frames, m.swap.capacity, m.swap.slots.count, m.evictions, m.restores⟩

/-- The text that shows the figures. -/
def Stats.describe (s : Stats) : String :=
  "MemoryStats \x7b frames: " ++ s.frames.describe ++ ", swap_slots: " ++ toString s.swapSlots ++
    ", swap_used: " ++ toString s.swapUsed ++ ", evictions: " ++ toString s.evictions ++
    ", restores: " ++ toString s.restores ++ " \x7d"

end Memory

end PhysMem
