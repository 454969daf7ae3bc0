import PhysMem.Memory.Operation

/-!
# Tasks — operations that stop at their call-outs

An operation calls out of the memory system at four kinds of places: when it maps a frame, before
each sector that is read or written, and when it tells the pager of an eviction. Anything may happen
there before it goes on, other operations included. So an operation is run in pieces: `Task.start`
runs it up to its first call-out, and `Task.resume` from one call-out to the next. What an operation
knows while it is stopped is its `Task`; all else it reads anew.

* **Eviction:** detach the oldest frame, reserve a slot, *map*, *write* eight sectors, settle the
  slot, *tell* the pager, free the frame.
* **Page-in:** hold the slot, find room (perhaps by an eviction), *map*, *read* eight sectors, if so
  configured *write* zeros over them, release the slot, put the frame on the chain.
* **`start`** and **`resume`** run one piece, which ends at another call-out or with a reply.
* **`holdsDevice`** and **`loan?`** say what a stopped operation keeps from everybody else: the swap
  device, and the frame whose sectors are being transferred.
-/

namespace PhysMem

/-- Where an operation calls out. -/
inductive Site where
  /-- A frame is mapped for a transfer. -/
  | map
  /-- A sector is about to be read. -/
  | read
  /-- A sector is about to be written. -/
  | write
  /-- The pager has been told of an eviction. -/
  | evicted
  deriving DecidableEq, Repr

/-- What an operation wants a frame for. -/
inductive Need where
  /-- A run of frames for an owner, answered as the kernel sees it or not. -/
  | allocate (owner : FrameOwner) (count : Nat) (seen : Bool)
  /-- A frame for a page that is in a slot, which is held. -/
  | pageIn (page : Page) (slot : Nat)
  deriving DecidableEq, Repr

/-- An eviction on its way. -/
structure Eviction where
  frame : Nat
  address : Nat
  page : Page
  slot : Nat
  /-- What the frame is wanted for, if it is evicted to make room. -/
  need : Option Need
  deriving DecidableEq, Repr

/-- A frame being filled from a slot. -/
structure Filling where
  frame : Nat
  address : Nat
  slot : Nat
  /-- The page of a page-in; a restore has none. -/
  page : Option Page
  deriving DecidableEq, Repr

/-- A place among the sectors of a frame. -/
abbrev Place := Fin sectorsPerFrame

/-- An operation stopped at a call-out. -/
inductive Task where
  | evictMapping (e : Eviction)
  | evictWriting (e : Eviction) (i : Place)
  | evictTelling (e : Eviction)
  | fillMapping (f : Filling)
  | fillReading (f : Filling) (i : Place)
  | fillScrubbing (f : Filling) (i : Place)
  | slotReading (slot : Nat) (buffer : Contents) (i : Place)
  | slotWriting (slot : Nat) (data : Contents) (i : Place)
  deriving DecidableEq, Repr

namespace Task

/-- Where the operation is stopped. -/
def site : Task → Site
  | .evictMapping _ | .fillMapping _ => .map
  | .evictWriting .. | .fillScrubbing .. | .slotWriting .. => .write
  | .fillReading .. | .slotReading .. => .read
  | .evictTelling _ => .evicted

/-- Whether the operation holds the swap device, which it does between the sectors of a slot. -/
def holdsDevice (t : Task) : Bool :=
  match t.site with
  | .read | .write => true
  | .map | .evicted => false

/-- A frame that is lent to the swap device. -/
structure Loan where
  frame : Nat
  /-- Whether the device fills the frame, so that nobody else may even look at it. -/
  exclusive : Bool
  deriving DecidableEq, Repr

/-- The frame that the operation has lent to the swap device. It is lent for as long as its sectors
are transferred, and not yet when it is mapped. -/
def loan? : Task → Option Loan
  | .evictWriting e _ => some ⟨e.frame, false⟩
  | .fillReading f _ => some ⟨f.frame, true⟩
  | _ => none

/-- What an operation has come to: another call-out, or its end. -/
inductive Next where
  | callOut (task : Task)
  | reply (reply : Reply)
  deriving DecidableEq, Repr

/-- A piece of an operation: the memory it leaves, what it said, and what comes next. -/
structure Piece where
  memory : Memory
  notices : List Notice
  next : Next
  deriving DecidableEq, Repr

/-- The last piece of an operation. -/
def finish (m : Memory) (notices : List Notice) (reply : Reply) : Piece :=
  ⟨m, notices, .reply reply⟩

/-- A piece that ends at a call-out. -/
def stop (m : Memory) (notices : List Notice) (task : Task) : Piece := ⟨m, notices, .callOut task⟩

/-- The place behind `i`, if there is one. -/
def nextPlace (i : Place) : Option Place :=
  if h : i.val + 1 < sectorsPerFrame then some ⟨i.val + 1, h⟩ else none

/-- The first place. -/
def firstPlace : Place := ⟨0, by decide⟩

/-- Takes the swap device, unless an operation that is stopped holds it. -/
def takeDevice (held : Bool) : Except Fault Unit :=
  if held then .error .deviceHeld else .ok ()

/-! ## Filling a frame from a slot -/

/-- The frame is full: the slot is released, and a page-in puts its frame on the chain. -/
def filled (m : Memory) (notices : List Notice) (f : Filling) : Except Fault Piece :=
  match f.page with
  | none => do
    let (released, slots) ← m.swap.slots.release f.slot
    let m := m.putSlots slots
    match released with
    | .error e => return finish m notices (.transferred (.error e))
    | .ok () =>
      return finish m.countRestore (notices ++ [.restored f.slot f.address]) (.transferred (.ok ()))
  | some page => do
    let (_, slots) ← m.swap.slots.releaseIfOwned f.slot page
    let m := (m.putSlots slots).countRestore
    let notices := notices ++ [.broughtBack f.slot f.address page]
    let (onChain, coremap) ← m.coremap.unpin f.frame
    return finish { m with coremap } notices
      (.address (if onChain then .ok f.address else .error .ownerReleased))

/-- The slot could not be read: a page-in gives its frame back and lets go of the slot. -/
def fillFailed (m : Memory) (f : Filling) (e : SwapError) : Except Fault Piece :=
  let notices := [Notice.cannotRead f.slot f.address e]
  match f.page with
  | none => .ok (finish m notices (.transferred (.error e)))
  | some page => do
    let coremap ← m.coremap.discardPinned f.frame
    let (_, slots) ← m.swap.slots.settle f.slot page
    return finish ({ m with coremap }.putSlots slots) notices
      (.address (.error (.restoreFailed e)))

/-- Goes on to overwrite sector `i` of the slot. A slot that cannot be overwritten is released all
the same. -/
def scrubAt (m : Memory) (f : Filling) (i : Place) : Except Fault Piece := do
  match ← m.swap.device.writeRefusal? f.slot i with
  | some e => filled m [.cannotScrub f.slot e] f
  | none => return stop m [] (.fillScrubbing f i)

/-- The slot has been read. -/
def slotRead (held : Bool) (m : Memory) (f : Filling) : Except Fault Piece :=
  if m.swap.scrub then do
    takeDevice held
    scrubAt m f firstPlace
  else filled m [] f

/-- Goes on to read sector `i` of the slot. -/
def readAt (m : Memory) (f : Filling) (i : Place) : Except Fault Piece := do
  match ← m.swap.device.readRefusal? f.slot i with
  | some e => fillFailed m f e
  | none => return stop m [] (.fillReading f i)

/-- Reads sector `i` of the slot into the frame. -/
def readNow (held : Bool) (m : Memory) (f : Filling) (i : Place) : Except Fault Piece := do
  let (answer, device) ← m.swap.device.fetch f.slot i
  let m := m.putDevice device
  match answer with
  | .error e => fillFailed m f e
  | .ok data =>
    let m := m.putContents f.frame ((m.contents f.frame).set i data)
    match nextPlace i with
    | some j => readAt m f j
    | none => slotRead held m f

/-- Overwrites sector `i` of the slot. -/
def scrubNow (m : Memory) (f : Filling) (i : Place) : Except Fault Piece := do
  let (answer, device) ← m.swap.device.store f.slot i .zero
  let m := m.putDevice device
  match answer with
  | .error e => filled m [.cannotScrub f.slot e] f
  | .ok () =>
    match nextPlace i with
    | some j => scrubAt m f j
    | none => filled m [] f

/-! ## Finding room -/

/-- Claims frames for a need, if enough of them are free. -/
def claimFor (coremap : Coremap) : Need → Except Fault (Option Nat × Coremap)
  | .allocate owner count _ => coremap.claim owner count
  | .pageIn page _ => coremap.claimPinned page

/-- How many frames a need asks for. -/
def needed : Need → Nat
  | .allocate _ count _ => count
  | .pageIn .. => 1

/-- The need is met by the frames from `i` on. -/
def met (m : Memory) (notices : List Notice) (i : Nat) : Need → Except Fault Piece
  | .allocate owner count seen => do
    let address ← m.coremap.addressOf i
    let notices := notices ++ [.allocated count owner.kind address]
    let shown ← if seen then Address.toKernel address else pure address
    return finish m notices (.address (.ok shown))
  | .pageIn page slot => do
    let address ← m.coremap.addressOf i
    return stop m notices (.fillMapping ⟨i, address, slot, some page⟩)

/-- The need is not met: a page-in lets go of its slot. -/
def unmet (m : Memory) (notices : List Notice) (e : FrameError) : Need → Except Fault Piece
  | .allocate .. => .ok (finish m notices (.address (.error e)))
  | .pageIn page slot => do
    let (_, slots) ← m.swap.slots.settle slot page
    return finish (m.putSlots slots) notices (.address (.error e))

/-- An eviction has come to an end. If it was to make room, what needs the room tries once more. -/
def evictionEnded (m : Memory) (notices : List Notice) (need : Option Need)
    (result : Except EvictError (Nat × Nat)) : Except Fault Piece :=
  match need, result with
  | none, result => .ok (finish m notices (.evicted result))
  | some need, .error .noVictim => unmet m notices .outOfMemory need
  | some need, .error e => unmet m notices (.evictionFailed e) need
  | some need, .ok _ => do
    let (first, coremap) ← claimFor m.coremap need
    let m := { m with coremap }
    match first with
    | some i => met m notices i need
    | none => unmet m notices .outOfMemory need

/-! ## Evictions -/

/-- Puts the frame of an eviction given up back at the oldest end of the chain. -/
def putBack (m : Memory) (frame : Nat) : Except Fault (Memory × List Notice) := do
  let (onChain, coremap) ← m.coremap.abortEviction frame
  return ({ m with coremap }, if onChain then [] else [.victimFreed frame])

/-- Detaches the frame that has been resident longest and reserves a slot for its page. -/
def evict (m : Memory) (need : Option Need) : Except Fault Piece := do
  let (victim, coremap) ← m.coremap.detachOldest
  match victim with
  | none => evictionEnded m [] need (.error .noVictim)
  | some (frame, page) =>
    let m := { m with coremap }
    let address ← m.coremap.addressOf frame
    let (reserved, slots) ← m.swap.slots.reserve page
    let m := m.putSlots slots
    match reserved with
    | .error e =>
      let (m, notices) ← putBack m frame
      evictionEnded m (.cannotEvict address e :: notices) need (.error (.swap e))
    | .ok slot => return stop m [] (.evictMapping ⟨frame, address, page, slot, need⟩)

/-- The frame could not be written: its slot is released, and it goes back to the chain. -/
def writeFailed (m : Memory) (e : Eviction) (cause : SwapError) : Except Fault Piece := do
  let (_, slots) ← m.swap.slots.releaseIfOwned e.slot e.page
  let (m, notices) ← putBack (m.putSlots slots) e.frame
  evictionEnded m (.cannotWrite e.address e.slot cause :: notices) e.need (.error (.swap cause))

/-- Goes on to write sector `i` of the frame. -/
def writeAt (m : Memory) (e : Eviction) (i : Place) : Except Fault Piece := do
  match ← m.swap.device.writeRefusal? e.slot i with
  | some cause => writeFailed m e cause
  | none => return stop m [] (.evictWriting e i)

/-- The frame is in its slot. If its owner is gone, frame and slot are freed at once; otherwise the
pager is told. -/
def written (m : Memory) (e : Eviction) : Except Fault Piece := do
  let (live, slots) ← m.swap.slots.settle e.slot e.page
  let m := m.putSlots slots
  let d ← m.coremap.frame e.frame
  if !live || d.orphaned then
    let (_, coremap) ← m.coremap.finishEviction e.frame
    let (_, slots) ← m.swap.slots.releaseIfOwned e.slot e.page
    let m := ({ m with coremap }.putSlots slots).countEviction
    evictionEnded m [.evictedReleased e.frame e.address e.page] e.need (.ok (e.frame, e.slot))
  else return stop { m with pager := m.pager.tell e.page e.slot } [] (.evictTelling e)

/-- Writes sector `i` of the frame, as it is now, to the slot. -/
def writeNow (m : Memory) (e : Eviction) (i : Place) : Except Fault Piece := do
  let (answer, device) ← m.swap.device.store e.slot i (m.contents e.frame)[i]
  let m := m.putDevice device
  match answer with
  | .error cause => writeFailed m e cause
  | .ok () =>
    match nextPlace i with
    | some j => writeAt m e j
    | none => written m e

/-- The pager has been told: the frame is freed. If its owner gave it up meanwhile, nobody is left
to bring the page back, and the slot is released too. -/
def toldPager (m : Memory) (e : Eviction) : Except Fault Piece := do
  let (orphaned, coremap) ← m.coremap.finishEviction e.frame
  let m := { m with coremap }
  let (_, slots) ←
    if orphaned then m.swap.slots.releaseIfOwned e.slot e.page else pure (true, m.swap.slots)
  let m := (m.putSlots slots).countEviction
  evictionEnded m [.evicted e.frame e.address e.page e.slot] e.need (.ok (e.frame, e.slot))

/-! ## Bare transfers -/

/-- Goes on to read sector `i` of a slot into a buffer. -/
def bareReadAt (m : Memory) (slot : Nat) (buffer : Contents) (i : Place) : Except Fault Piece := do
  match ← m.swap.device.readRefusal? slot i with
  | some e => return finish m [] (.filled (.error e) buffer.toBytes)
  | none => return stop m [] (.slotReading slot buffer i)

/-- Reads sector `i` of a slot into a buffer. -/
def bareReadNow (m : Memory) (slot : Nat) (buffer : Contents) (i : Place) :
    Except Fault Piece := do
  let (answer, device) ← m.swap.device.fetch slot i
  let m := m.putDevice device
  match answer with
  | .error e => return finish m [] (.filled (.error e) buffer.toBytes)
  | .ok data =>
    let buffer : Contents := buffer.set i data
    match nextPlace i with
    | some j => bareReadAt m slot buffer j
    | none => return finish m [] (.filled (.ok ()) buffer.toBytes)

/-- Goes on to write sector `i` of some data to a slot. -/
def bareWriteAt (m : Memory) (slot : Nat) (data : Contents) (i : Place) : Except Fault Piece := do
  match ← m.swap.device.writeRefusal? slot i with
  | some e => return finish m [] (.transferred (.error e))
  | none => return stop m [] (.slotWriting slot data i)

/-- Writes sector `i` of some data to a slot. -/
def bareWriteNow (m : Memory) (slot : Nat) (data : Contents) (i : Place) :
    Except Fault Piece := do
  let (answer, device) ← m.swap.device.store slot i data[i]
  let m := m.putDevice device
  match answer with
  | .error e => return finish m [] (.transferred (.error e))
  | .ok () =>
    match nextPlace i with
    | some j => bareWriteAt m slot data j
    | none => return finish m [] (.transferred (.ok ()))

/-! ## Operations -/

/-- Who the frames of a request are for, if the request makes sense. -/
def requestOwner (kind : FrameKind) (count : Nat) (page : Option Page) :
    Except FrameError FrameOwner :=
  if count = 0 then .error .noFrames
  else match kind, page with
    | .kernel, none => .ok .kernel
    | .kernel, some _ => .error .ownedKernelFrames
    | .user, none => .error .unownedUserFrame
    | .user, some page => if count = 1 then .ok (.user page) else .error .userFrameRun

/-- Meets a need from the free frames, or makes room by one eviction. -/
def provide (m : Memory) (need : Need) : Except Fault Piece :=
  if m.coremap.size < needed need then unmet m [] .outOfMemory need
  else do
    let (first, coremap) ← claimFor m.coremap need
    let m := { m with coremap }
    match first with
    | some i => met m [] i need
    | none => evict m (some need)

/-- Frees the run that starts at an address. -/
def free (m : Memory) (address : Nat) : Except Fault Piece :=
  match m.coremap.indexOf? address with
  | none => .ok (finish m [] (.done (.error (.invalidAddress address))))
  | some i => do
    let (released, coremap) ← m.coremap.release i
    let m := { m with coremap }
    match released with
    | .error e => return finish m [] (.done (.error e))
    | .ok (.freed count) => return finish m [.freed count address] (.done (.ok ()))
    | .ok .deferred => return finish m [.freeDeferred address] (.done (.ok ()))

/-- Frees the run that the kernel sees at an address. -/
def freeSeen (m : Memory) (seen : Nat) : Except Fault Piece :=
  match Address.ofKernel? seen with
  | none => .ok (finish m [] (.done (.error (.invalidAddress seen))))
  | some address => free m address

/-- Allocates frames for a request. -/
def allocate (m : Memory) (kind : FrameKind) (count : Nat) (page : Option Page) (seen : Bool) :
    Except Fault Piece :=
  match requestOwner kind count page with
  | .error e => .ok (finish m [] (.address (.error e)))
  | .ok owner => provide m (.allocate owner count seen)

/-- Holds the slot of a page and finds a frame for it. -/
def pageIn (m : Memory) (page : Page) (slot : Nat) : Except Fault Piece := do
  let (isHeld, slots) ← m.swap.slots.hold slot page
  let m := m.putSlots slots
  if isHeld then provide m (.pageIn page slot)
  else return finish m [] (.address (.error (.restoreFailed (.invalidSlot slot))))

/-- Checks the frame and the slot of a restore. -/
def restore (m : Memory) (slot address : Nat) : Except Fault Piece :=
  match m.coremap.indexOf? address with
  | none => .ok (finish m [] (.transferred (.error (.invalidFrame address))))
  | some i => do
    if ← m.swap.slots.isUsed slot then
      return stop m [] (.fillMapping ⟨i, address, slot, none⟩)
    return finish m [] (.transferred (.error (.invalidSlot slot)))

/-- Frees every frame and then every slot of an address space. -/
def tearDown (m : Memory) (space : Nat) : Except Fault Piece := do
  let (frames, coremap) ← m.coremap.releaseSpace space
  let (cleared, slots) ← m.swap.slots.releaseSpace space
  return finish ({ m with coremap }.putSlots slots) [.tornDown frames cleared space]
    (.tornDown frames cleared)

/-- Remembers the TLB slot of the frame at an address. -/
def recordTlbSlot (m : Memory) (address : Nat) (slot : Option Nat) : Except Fault Piece :=
  match m.coremap.indexOf? address with
  | none => .ok (finish m [] (.done (.error (.invalidAddress address))))
  | some i => do
    let (result, coremap) ← m.coremap.setTlbSlot i slot
    return finish { m with coremap } [] (.done result)

/-- Runs an operation up to its first call-out or to its end. `held` says whether an operation that
is stopped holds the swap device. -/
def start (held : Bool) (m : Memory) : Operation → Except Fault Piece
  | .allocate kind count page => allocate m kind count page false
  | .free address => free m address
  | .evict => evict m none
  | .restore slot address => restore m slot address
  | .pageIn page slot => pageIn m page slot
  | .tearDown space => tearDown m space
  | .allocateSeen count => allocate m .kernel count none true
  | .freeSeen seen => freeSeen m seen
  | .recordTlbSlot address slot => recordTlbSlot m address slot
  | .readSlot slot buffer => do
    takeDevice held
    if m.swap.device.slots ≤ slot then
      return finish m [] (.filled (.error (.invalidSlot slot)) buffer)
    match Contents.ofBytes? buffer with
    | none => return finish m [] (.filled (.error (.invalidFrame buffer.size)) buffer)
    | some frame => bareReadAt m slot frame firstPlace
  | .writeSlot slot buffer => do
    takeDevice held
    if m.swap.device.slots ≤ slot then
      return finish m [] (.transferred (.error (.invalidSlot slot)))
    match Contents.ofBytes? buffer with
    | none => return finish m [] (.transferred (.error (.invalidFrame buffer.size)))
    | some data => bareWriteAt m slot data firstPlace
  | .scrubSlot slot => do
    takeDevice held
    bareWriteAt m slot .zero firstPlace

/-- Goes on behind the call-out where an operation is stopped. `held` says whether another operation
that is stopped holds the swap device. -/
def resume (held : Bool) (m : Memory) : Task → Except Fault Piece
  | .evictMapping e => do
    takeDevice held
    writeAt m e firstPlace
  | .evictWriting e i => writeNow m e i
  | .evictTelling e => toldPager m e
  | .fillMapping f => do
    takeDevice held
    readAt m f firstPlace
  | .fillReading f i => readNow held m f i
  | .fillScrubbing f i => scrubNow m f i
  | .slotReading slot buffer i => bareReadNow m slot buffer i
  | .slotWriting slot data i => bareWriteNow m slot data i

end Task

end PhysMem
