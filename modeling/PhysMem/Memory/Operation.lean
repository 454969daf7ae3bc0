import PhysMem.Memory

/-!
# Operations — what the memory system is asked for, and what it answers
-/

namespace PhysMem

/-- A request to the memory system. -/
inductive Operation where
  /-- Allocates a run of frames, or one user frame for a page. -/
  | allocate (kind : FrameKind) (count : Nat) (page : Option Page)
  /-- Frees the run that starts at an address. -/
  | free (address : Nat)
  /-- Moves the page that has been resident longest to swap and frees its frame. -/
  | evict
  /-- Copies a slot into the frame at an address and releases the slot. -/
  | restore (slot address : Nat)
  /-- Brings a page back from its slot into a fresh frame. -/
  | pageIn (page : Page) (slot : Nat)
  /-- Frees every frame and every slot of an address space. -/
  | tearDown (space : Nat)
  /-- Allocates a run of kernel frames and answers where the kernel sees it. -/
  | allocateSeen (count : Nat)
  /-- Frees the run that the kernel sees at an address. -/
  | freeSeen (seen : Nat)
  /-- Remembers the TLB slot of the frame at an address. -/
  | recordTlbSlot (address : Nat) (slot : Option Nat)
  /-- Fills a buffer from a slot, whoever holds it. -/
  | readSlot (slot : Nat) (buffer : Array UInt8)
  /-- Writes a buffer to a slot, whoever holds it. -/
  | writeSlot (slot : Nat) (buffer : Array UInt8)
  /-- Overwrites a slot with zeros, whoever holds it. -/
  | scrubSlot (slot : Nat)
  deriving DecidableEq, Repr

/-- Whether the operation is one of the allocator's own, and not a bare transfer to or from the
swap device. -/
def Operation.isManaged : Operation → Bool
  | .readSlot .. | .writeSlot .. | .scrubSlot .. => false
  | _ => true

/-- What an operation answers. -/
inductive Reply where
  /-- The address of a run of frames. -/
  | address (result : Except FrameError Nat)
  | done (result : Except FrameError Unit)
  /-- The frame that was evicted and the slot its page went to. -/
  | evicted (result : Except EvictError (Nat × Nat))
  /-- The end of a restore or of a bare transfer. -/
  | transferred (result : Except SwapError Unit)
  /-- The end of a bare read, and the buffer as it is afterwards. -/
  | filled (result : Except SwapError Unit) (buffer : Array UInt8)
  /-- How many frames and how many slots a teardown freed. -/
  | tornDown (frames slots : Nat)
  deriving DecidableEq, Repr

end PhysMem
