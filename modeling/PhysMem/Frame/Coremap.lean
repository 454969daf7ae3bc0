import PhysMem.Frame.Error
import PhysMem.Frame.Placement

/-!
# The coremap — a descriptor for every frame, and the chain of resident user frames

Frame `i` of the table lies at `base + 4096 * i`. The resident user frames are linked from the
oldest to the newest. A frame leaves the chain when it is freed or when it is detached to be
evicted, and joins it at the newest end, except that an eviction given up puts its frame back at
the oldest.

* **Chain:** `pushNewest`, `pushOldest`, `unlink`; `chain` and `chainBack` list it.
* **Claims:** `claim` takes a run of free frames, `claimPinned` one user frame that stays off the
  chain until `unpin` or `discardPinned`.
* **Evictions:** `detachOldest`, then `abortEviction` or `finishEviction`.
* **Releases:** `release` frees a run by its first frame, `releaseSpace` all frames of an address
  space. A frame in transit is only orphaned, and freed by whoever holds it.
-/

namespace PhysMem

/-- The descriptors of all frames and the chain through them. -/
structure Coremap where
  frames : Array Descriptor
  /-- The address of the first frame. -/
  base : Nat
  oldest : Option Nat := none
  newest : Option Nat := none
  placement : Placement
  kernelCount : Nat := 0
  userCount : Nat := 0
  evictingCount : Nat := 0
  deriving DecidableEq, Repr

namespace Coremap

/-- A table of `count` free frames from `base` on, which must be the start of a frame. -/
def create (count base : Nat) (placement : Placement) : Except Fault Coremap :=
  if Address.isAligned base then
    .ok { frames := Array.replicate count .free, base, placement }
  else .error (.misalignedBase base)

/-- The number of frames. -/
def size (m : Coremap) : Nat := m.frames.size

/-- The descriptor of frame `i`. -/
def frame (m : Coremap) (i : Nat) : Except Fault Descriptor :=
  match m.frames[i]? with
  | some d => .ok d
  | none => .error (.indexOutOfRange m.size i)

/-- The coremap with the descriptor of frame `i` replaced. -/
def put (m : Coremap) (i : Nat) (d : Descriptor) : Coremap :=
  { m with frames := m.frames.setIfInBounds i d }

/-- The coremap with the descriptor of frame `i` changed. -/
def update (m : Coremap) (i : Nat) (f : Descriptor → Descriptor) : Except Fault Coremap := do
  let d ← m.frame i
  return m.put i (f d)

/-! ## Addresses -/

/-- Where frame `i` would lie, in the table or not. -/
def frameAddress (m : Coremap) (i : Nat) : Except Fault Nat := do
  let offset ← Word.mul Word.bits i Address.frameSize
  Word.add Word.bits m.base offset

/-- The address of a frame of the table. -/
def addressOf (m : Coremap) (i : Nat) : Except Fault Nat :=
  if i < m.size then m.frameAddress i else .error .frameOutsideTable

/-- The frame at an address, if one of the table starts there. -/
def indexOf? (m : Coremap) (address : Nat) : Option Nat :=
  if m.base ≤ address ∧ Address.isAligned (address - m.base) then
    let i := (address - m.base) / Address.frameSize
    if i < m.size then some i else none
  else none

/-- The frame at an address. -/
def indexOf (m : Coremap) (address : Nat) : Except FrameError Nat :=
  match m.indexOf? address with
  | some i => .ok i
  | none => .error (.invalidAddress address)

/-! ## The chain -/

/-- Puts a frame at the newest end of the chain. -/
def pushNewest (m : Coremap) (i : Nat) : Except Fault Coremap := do
  let d ← m.frame i
  if d.prev.isSome || d.next.isSome then throw .alreadyLinked
  let m := m.put i { d with prev := m.newest }
  match m.newest with
  | some last =>
    let m ← m.update last fun d => { d with next := some i }
    return { m with newest := some i }
  | none => return { m with oldest := some i, newest := some i }

/-- Puts a frame at the oldest end of the chain. -/
def pushOldest (m : Coremap) (i : Nat) : Except Fault Coremap := do
  let d ← m.frame i
  if d.prev.isSome || d.next.isSome then throw .alreadyLinked
  let m := m.put i { d with next := m.oldest }
  match m.oldest with
  | some first =>
    let m ← m.update first fun d => { d with prev := some i }
    return { m with oldest := some i }
  | none => return { m with newest := some i, oldest := some i }

/-- Takes a frame off the chain, wherever it stands. -/
def unlink (m : Coremap) (i : Nat) : Except Fault Coremap := do
  let d ← m.frame i
  let m := m.put i { d with prev := none, next := none }
  let m ← match d.prev with
    | some before => m.update before fun b => { b with next := d.next }
    | none =>
      if m.oldest = some i then pure { m with oldest := d.next } else throw .notChainEnd
  match d.next with
  | some after => m.update after fun a => { a with prev := d.prev }
  | none => if m.newest = some i then pure { m with newest := d.prev } else throw .notChainEnd

/-- At most `limit` frames from `start` on, each followed by its newer neighbour. -/
def walk (m : Coremap) : Nat → Option Nat → List Nat
  | 0, _ | _, none => []
  | limit + 1, some i => i :: m.walk limit ((m.frames[i]?).bind (·.next))

/-- At most `limit` frames from `start` on, each followed by its older neighbour. -/
def walkBack (m : Coremap) : Nat → Option Nat → List Nat
  | 0, _ | _, none => []
  | limit + 1, some i => i :: m.walkBack limit ((m.frames[i]?).bind (·.prev))

/-- More frames than the chain can hold, so a walk that long has met a cycle. -/
def walkLimit (m : Coremap) : Nat := m.size + 1

/-- The chain from the oldest frame to the newest. -/
def chain (m : Coremap) : List Nat := m.walk m.walkLimit m.oldest

/-- The chain from the newest frame to the oldest. -/
def chainBack (m : Coremap) : List Nat := m.walkBack m.walkLimit m.newest

/-! ## Claims -/

/-- Marks frames as claimed, as many as asked for from `i` on; all but `last` are followed by
another of their run. The first frame that is in use or outside the table ends it, so a range that
reaches far beyond the table costs no more than the table. -/
def markRun (m : Coremap) (owner : FrameOwner) (pinned : Bool) (last i : Nat) :
    Nat → Except Fault Coremap
  | 0 => .ok m
  | count + 1 => do
    let d ← m.frame i
    if d.allocated then throw (.placedOnAllocated i)
    (m.put i (.claimed owner (i != last) pinned)).markRun owner pinned last (i + 1) count

/-- Claims a run of `count` frames, off the chain. -/
def claimRun (m : Coremap) (owner : FrameOwner) (count : Nat) (pinned : Bool) :
    Except Fault (Option Nat × Coremap) := do
  if count = 0 then throw .emptyRun
  let (range, placement) ← m.placement.place m.frames count
  let m := { m with placement }
  match range with
  | none => return (none, m)
  | some (start, stop) =>
    let last ← Word.sub stop 1
    let m ← m.markRun owner pinned last start (stop - start)
    match owner with
    | .kernel =>
      let kernelCount ← Word.add Word.bits m.kernelCount count
      return (some start, { m with kernelCount })
    | .user _ =>
      let userCount ← Word.add Word.bits m.userCount count
      return (some start, { m with userCount })

/-- Claims a run of `count` free frames. A user frame joins the chain as its newest. -/
def claim (m : Coremap) (owner : FrameOwner) (count : Nat) :
    Except Fault (Option Nat × Coremap) := do
  let (first, m) ← m.claimRun owner count false
  match first, owner with
  | some i, .user _ =>
    let m ← m.pushNewest i
    return (some i, m)
  | _, _ => return (first, m)

/-- Claims a user frame that stays off the chain while it is filled. -/
def claimPinned (m : Coremap) (page : Page) : Except Fault (Option Nat × Coremap) :=
  m.claimRun (.user page) 1 true

/-- Frees a user frame that is off the chain. -/
def clearUser (m : Coremap) (i : Nat) : Except Fault Coremap := do
  let d ← m.frame i
  if d.kind? ≠ some .user then throw .notUserFrame
  let userCount ← Word.sub m.userCount 1
  return { m.put i .free with userCount }

/-- Puts a pinned frame on the chain, and answers whether it did: one that was orphaned is freed
instead. -/
def unpin (m : Coremap) (i : Nat) : Except Fault (Bool × Coremap) := do
  let d ← m.frame i
  if !d.pinned then throw (.notPinned i)
  let m := m.put i { d with pinned := false }
  if d.orphaned then
    let m ← m.clearUser i
    return (false, m)
  let m ← m.pushNewest i
  return (true, m)

/-- Frees a pinned frame that was not filled. -/
def discardPinned (m : Coremap) (i : Nat) : Except Fault Coremap := do
  let d ← m.frame i
  if !d.pinned then throw (.notPinned i)
  m.clearUser i

/-! ## Evictions -/

/-- Takes the frame that has been resident longest off the chain and marks it evicting. -/
def detachOldest (m : Coremap) : Except Fault (Option (Nat × Page) × Coremap) :=
  match m.oldest with
  | none => .ok (none, m)
  | some victim => do
    let m ← m.unlink victim
    let d ← m.frame victim
    match d.page with
    | none => throw (.ownerlessVictim victim)
    | some page =>
      let m := m.put victim { d with evicting := true }
      let evictingCount ← Word.add Word.bits m.evictingCount 1
      return (some (victim, page), { m with evictingCount })

/-- Gives an eviction up: the frame is the oldest of the chain again. Answers whether it is: one
that was orphaned is freed instead. -/
def abortEviction (m : Coremap) (i : Nat) : Except Fault (Bool × Coremap) := do
  let d ← m.frame i
  if !d.evicting then throw (.notEvicting i)
  let evictingCount ← Word.sub m.evictingCount 1
  let m := { m.put i { d with evicting := false } with evictingCount }
  if d.orphaned then
    let m ← m.clearUser i
    return (false, m)
  let m ← m.pushOldest i
  return (true, m)

/-- Frees a frame whose contents are in swap. Answers whether it was orphaned. -/
def finishEviction (m : Coremap) (i : Nat) : Except Fault (Bool × Coremap) := do
  let d ← m.frame i
  if !d.evicting then throw (.notEvicting i)
  let evictingCount ← Word.sub m.evictingCount 1
  let m ← { m with evictingCount }.clearUser i
  return (d.orphaned, m)

/-! ## Releases -/

/-- What a release came to. -/
inductive Release where
  /-- This many frames are free again. -/
  | freed (count : Nat)
  /-- The frame is in transit, and whoever holds it will free it. -/
  | deferred
  deriving DecidableEq, Repr

/-- How many frames from `i` on belong to the run that `i` starts. -/
def runLength (m : Coremap) (i : Nat) : Nat :=
  ((m.frames.toList.drop i).takeWhile (·.tail)).length + 1

/-- Frees the kernel run that starts at frame `i`. -/
def freeRun (m : Coremap) (i : Nat) : Except Fault (Nat × Coremap) := do
  let count := m.runLength i
  if m.size < i + count then throw (.indexOutOfRange m.size (i + count - 1))
  let m := (List.range' i count).foldl (fun m j => m.put j .free) m
  let kernelCount ← Word.sub m.kernelCount count
  return (count, { m with kernelCount })

/-- Whether frame `i` belongs to a run that starts before it. -/
def insideRun (m : Coremap) (i : Nat) : Bool :=
  match i with
  | 0 => false
  | j + 1 => ((m.frames[j]?).map (·.tail)).getD false

/-- Frees the run that starts at frame `i`. -/
def release (m : Coremap) (i : Nat) : Except Fault (Except FrameError Release × Coremap) := do
  let d ← m.frame i
  if !d.allocated || m.insideRun i || d.orphaned then
    let address ← m.frameAddress i
    return (.error (.invalidAddress address), m)
  if d.inTransit then
    return (.ok .deferred, m.put i { d with orphaned := true })
  if d.isUser then
    let m ← m.unlink i
    let m ← m.clearUser i
    return (.ok (.freed 1), m)
  let (count, m) ← m.freeRun i
  return (.ok (.freed count), m)

/-- Gives up frame `i` if it holds a page of `space`. Answers whether it is free now: a frame in
transit is only orphaned. -/
def releaseOne (m : Coremap) (space i : Nat) : Except Fault (Bool × Coremap) := do
  let d ← m.frame i
  if !d.holdsPageOf space then return (false, m)
  if d.inTransit then return (false, m.put i { d with orphaned := true })
  let m ← m.unlink i
  let m ← m.clearUser i
  return (true, m)

/-- Gives up every frame that holds a page of `space`. Answers how many are free now. -/
def releaseSpace (m : Coremap) (space : Nat) : Except Fault (Nat × Coremap) :=
  (List.range m.size).foldlM (fun (freed, m) i => do
    let (isFree, m) ← m.releaseOne space i
    return (if isFree then freed + 1 else freed, m)) (0, m)

/-! ## TLB slots and figures -/

/-- Remembers the TLB slot that last mapped an allocated frame. -/
def setTlbSlot (m : Coremap) (i : Nat) (slot : Option Nat) :
    Except Fault (Except FrameError Unit × Coremap) := do
  let d ← m.frame i
  if !d.allocated then
    let address ← m.frameAddress i
    return (.error (.invalidAddress address), m)
  return (.ok (), m.put i { d with tlbSlot := slot })

/-- How the frames are used. -/
structure Stats where
  total : Nat
  free : Nat
  kernel : Nat
  /-- Frames in transit included. -/
  user : Nat
  evicting : Nat
  deriving DecidableEq, Repr

/-- How the frames are used. -/
def stats (m : Coremap) : Except Fault Stats := do
  let notKernel ← Word.sub m.size m.kernelCount
  let free ← Word.sub notKernel m.userCount
  return ⟨m.size, free, m.kernelCount, m.userCount, m.evictingCount⟩

/-- The text that shows the figures. -/
def Stats.describe (s : Stats) : String :=
  "FrameStats \x7b total: " ++ toString s.total ++ ", free: " ++ toString s.free ++
    ", kernel: " ++ toString s.kernel ++ ", user: " ++ toString s.user ++
    ", evicting: " ++ toString s.evicting ++ " \x7d"

end Coremap

end PhysMem
