import PhysMem.Memory.Task

/-!
# Probes — looking at the memory system and changing it from outside

A probe is not an operation of the allocator. It looks at a part of the memory system, or changes
one as its surroundings may: a program stores into a frame, the pager maps a page, a drive starts
to fail, somebody else uses the slot map. No probe calls out.

A probe may come at a call-out, and the operation that is stopped there may have lent a frame to the
swap device. A frame that is written out may be looked at but not stored into, and one that is filled
is the device's alone.

* **`act`** is what a probe does where no frame is lent that it needs.
* **`perform`** refuses it otherwise, and then nothing happens.
-/

namespace PhysMem

/-- A look at the memory system, or a change from outside. -/
inductive Probe where
  | stats
  | frameCount
  /-- The TLB slot of the frame at an address. -/
  | tlbSlot (address : Nat)
  | reserveSlot (page : Page)
  | holdSlot (slot : Nat) (page : Page)
  | settleSlot (slot : Nat) (page : Page)
  | releaseSlot (slot : Nat)
  | releaseSlotIfOwned (slot : Nat) (page : Page)
  | releaseSlots (space : Nat)
  | isReserved (slot : Nat)
  | slotOwner (slot : Nat)
  | swapInfo
  /-- Makes one direction of the drive fail, or lets it work again. -/
  | setFailing (direction : Direction) (failing : Bool)
  /-- Limits the further transfers of one direction of the drive. -/
  | setLimit (direction : Direction) (limit : Option Nat)
  /-- Stores bytes at the start of the frame at an address. -/
  | store (address : Nat) (bytes : Array UInt8)
  /-- What the frame at an address holds. -/
  | contents (address : Nat)
  /-- Maps a page to the frame at an address. -/
  | map (page : Page) (address : Nat)
  | entry (page : Page)
  deriving DecidableEq, Repr

/-- What a step of a script answers. -/
inductive Outcome where
  | reply (reply : Reply)
  | done
  | flag (value : Bool)
  | number (value : Nat)
  | text (value : String)
  | slot (result : Except SwapError Nat)
  | released (result : Except SwapError Unit)
  | page (page : Option Page)
  | tlbSlot (result : Except FrameError (Option Nat))
  | swapInfo (capacity used : Nat) (scrub : Bool)
  | contents (contents : Contents)
  | entry (entry : Option PageEntry)
  /-- The frame that was asked for is lent to the swap device. -/
  | refused
  deriving DecidableEq, Repr

namespace Probe

/-- What the probe answers, and the memory behind it. -/
def act (m : Memory) : Probe → Except Fault (Outcome × Memory)
  | .stats => do
    let stats ← m.stats
    return (.text stats.describe, m)
  | .frameCount => .ok (.number m.coremap.size, m)
  | .tlbSlot address => do
    let result ← m.tlbSlot address
    return (.tlbSlot result, m)
  | .reserveSlot page => do
    let (result, slots) ← m.swap.slots.reserve page
    return (.slot result, m.putSlots slots)
  | .holdSlot slot page => do
    let (isHeld, slots) ← m.swap.slots.hold slot page
    return (.flag isHeld, m.putSlots slots)
  | .settleSlot slot page => do
    let (live, slots) ← m.swap.slots.settle slot page
    return (.flag live, m.putSlots slots)
  | .releaseSlot slot => do
    let (result, slots) ← m.swap.slots.release slot
    return (.released result, m.putSlots slots)
  | .releaseSlotIfOwned slot page => do
    let (isReleased, slots) ← m.swap.slots.releaseIfOwned slot page
    return (.flag isReleased, m.putSlots slots)
  | .releaseSlots space => do
    let (count, slots) ← m.swap.slots.releaseSpace space
    return (.number count, m.putSlots slots)
  | .isReserved slot => do
    let used ← m.swap.slots.isUsed slot
    return (.flag used, m)
  | .slotOwner slot => .ok (.page (m.swap.slots.owner slot), m)
  | .swapInfo => .ok (.swapInfo m.swap.capacity m.swap.slots.count m.swap.scrub, m)
  | .setFailing direction failing =>
    .ok (.done, m.putDrive (m.drive.tell direction fun f => { f with failing }))
  | .setLimit direction limit =>
    .ok (.done, m.putDrive (m.drive.tell direction fun f => { f with limit }))
  | .store address bytes => do
    let old ← m.contentsAt address
    return (.done, m.putContentsAt address (old.overwrite bytes))
  | .contents address => do
    let c ← m.contentsAt address
    return (.contents c, m)
  | .map page address =>
    match PageEntry.mapping? address with
    | some mapping => .ok (.flag true, { m with pager := m.pager.put page mapping })
    | none => .ok (.flag false, m)
  | .entry page => .ok (.entry (m.pager.entry? page), m)

/-- Whether the frame that the probe asks for is kept from it by one of these loans. -/
def isRefused (loans : List Task.Loan) (m : Memory) : Probe → Bool
  | .store address _ => loans.any fun loan => m.coremap.indexOf? address = some loan.frame
  | .contents address =>
    loans.any fun loan => loan.exclusive && m.coremap.indexOf? address = some loan.frame
  | _ => false

/-- What the probe answers while these frames are lent, and the memory behind it. -/
def perform (loans : List Task.Loan) (m : Memory) (p : Probe) : Except Fault (Outcome × Memory) :=
  if p.isRefused loans m then .ok (.refused, m) else p.act m

/-- **A probe is refused, and nothing happens, or it acts.** -/
theorem perform_cases {loans : List Task.Loan} {m m' : Memory} {p : Probe} {o : Outcome}
    (h : p.perform loans m = .ok (o, m')) :
    p.isRefused loans m = true ∧ o = .refused ∧ m' = m ∨
      p.isRefused loans m = false ∧ p.act m = .ok (o, m') := by
  unfold perform at h
  split at h
  · next hrefused =>
    cases h
    exact Or.inl ⟨hrefused, rfl, rfl⟩
  · next hrefused => exact Or.inr ⟨Bool.eq_false_iff.mpr hrefused, h⟩

end Probe

end PhysMem
