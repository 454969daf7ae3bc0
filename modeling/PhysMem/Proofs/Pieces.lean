import PhysMem.Memory.Task

/-!
# Pieces — the ways a piece of an operation can go

A piece of an operation is put together of a few functions, and each of them can go a few ways only.
Here every function is opened once: its view has one case for each way that it goes well, with what
the function found on that way and with what it calls next or ends with. Whoever shows that pieces
keep something goes through these cases and opens no function.

* **`Checked`** and **`Transferred`** — a sector is checked and then transferred, by whatever piece.
* **`FillingCases`** and **`EvictingCases`** — what an operation comes to that goes on with a filling
  or with an eviction, whichever sector it is at.
* One view for each of the other functions, from **`FilledCases`** to **`RecordCases`**.
-/

namespace PhysMem

/-- The memory with its sectors replaced, those on the device and those in the frames. -/
def Memory.putSectors (m : Memory) (device : SwapDevice) (ram : Array Contents) : Memory :=
  { m with swap := { m.swap with device }, ram }

namespace Task

variable {m n : Memory} {p : Piece} {notices : List Notice} {held : Bool} {f : Filling}
  {e : Eviction} {i : Place}

/-! ## Sectors -/

/-- The device is asked whether it takes a sector: the piece goes on with the refusal, or it ends at
the call-out before the transfer. -/
inductive Checked (refusal : Except Fault (Option SwapError))
    (refused : SwapError → Except Fault Piece) (ready : Piece) : Piece → Prop
  | refused {p : Piece} {error : SwapError} (hrefusal : refusal = .ok (some error))
      (h : refused error = .ok p) : Checked refusal refused ready p
  | ready (hrefusal : refusal = .ok none) : Checked refusal refused ready ready

theorem Checked.of_bind {refusal : Except Fault (Option SwapError)}
    {refused : SwapError → Except Fault Piece} {ready : Piece}
    (h : (refusal >>= fun | some error => refused error | none => .ok ready) = .ok p) :
    Checked refusal refused ready p := by
  obtain ⟨refusal, hrefusal, h⟩ := Fault.bind_eq_ok.mp h
  cases refusal with
  | some error => exact .refused hrefusal h
  | none =>
      cases h
      exact .ready hrefusal

/-- A sector is transferred: the transfer fails, or there is another sector to come, or it was the
last. -/
inductive Transferred {α : Type} (x : Except Fault (Except SwapError α × SwapDevice)) (i : Place)
    (failed : SwapDevice → SwapError → Except Fault Piece)
    (next : SwapDevice → α → Place → Except Fault Piece)
    (last : SwapDevice → α → Except Fault Piece) (p : Piece) : Prop
  | failed (device : SwapDevice) {error : SwapError} (hx : x = .ok (.error error, device))
      (h : failed device error = .ok p)
  | next (device : SwapDevice) (a : α) {j : Place} (hx : x = .ok (.ok a, device))
      (hj : nextPlace i = some j) (h : next device a j = .ok p)
  | last (device : SwapDevice) (a : α) (hx : x = .ok (.ok a, device))
      (hj : nextPlace i = none) (h : last device a = .ok p)

theorem Transferred.of_bind {α : Type} {x : Except Fault (Except SwapError α × SwapDevice)}
    {failed : SwapDevice → SwapError → Except Fault Piece}
    {next : SwapDevice → α → Place → Except Fault Piece}
    {last : SwapDevice → α → Except Fault Piece}
    {g : Except SwapError α × SwapDevice → Except Fault Piece}
    (hfailed : ∀ device error, g (.error error, device) = failed device error)
    (hdone : ∀ device a, g (.ok a, device) = (nextPlace i).elim (last device a) (next device a))
    (h : (x >>= g) = .ok p) : Transferred x i failed next last p := by
  obtain ⟨⟨answer, device⟩, hx, h⟩ := Fault.bind_eq_ok.mp h
  cases answer with
  | error error => exact .failed device hx ((hfailed device error).symm.trans h)
  | ok a =>
      have h := (hdone device a).symm.trans h
      cases hj : nextPlace i with
      | some j =>
          rw [hj] at h
          exact .next device a hx hj h
      | none =>
          rw [hj] at h
          exact .last device a hx hj h

theorem scrubAt_cases (h : scrubAt m f i = .ok p) :
    Checked (m.swap.device.writeRefusal? f.slot i)
      (fun error => filled m [.cannotScrub f.slot error] f)
      (stop m [] (.fillScrubbing f i)) p := .of_bind h

theorem readAt_cases (h : readAt m f i = .ok p) :
    Checked (m.swap.device.readRefusal? f.slot i) (fillFailed m f)
      (stop m [] (.fillReading f i)) p := .of_bind h

theorem writeAt_cases (h : writeAt m e i = .ok p) :
    Checked (m.swap.device.writeRefusal? e.slot i) (writeFailed m e)
      (stop m [] (.evictWriting e i)) p := .of_bind h

theorem bareReadAt_cases {slot : Nat} {buffer : Contents}
    (h : bareReadAt m slot buffer i = .ok p) :
    Checked (m.swap.device.readRefusal? slot i)
      (fun error => .ok (finish m [] (.filled (.error error) buffer.toBytes)))
      (stop m [] (.slotReading slot buffer i)) p := .of_bind h

theorem bareWriteAt_cases {slot : Nat} {data : Contents}
    (h : bareWriteAt m slot data i = .ok p) :
    Checked (m.swap.device.writeRefusal? slot i)
      (fun error => .ok (finish m [] (.transferred (.error error))))
      (stop m [] (.slotWriting slot data i)) p := .of_bind h

theorem scrubNow_cases (h : scrubNow m f i = .ok p) :
    Transferred (m.swap.device.store f.slot i .zero) i
      (fun device error => filled (m.putDevice device) [.cannotScrub f.slot error] f)
      (fun device _ j => scrubAt (m.putDevice device) f j)
      (fun device _ => filled (m.putDevice device) [] f) p := by
  refine .of_bind (fun _ _ => rfl) (fun _ _ => ?_) h
  cases nextPlace i <;> rfl

theorem readNow_cases (h : readNow held m f i = .ok p) :
    Transferred (m.swap.device.fetch f.slot i) i
      (fun device error => fillFailed (m.putDevice device) f error)
      (fun device data j => readAt ((m.putDevice device).putContents f.frame
        ((m.contents f.frame).set i data i.isLt)) f j)
      (fun device data => slotRead held ((m.putDevice device).putContents f.frame
        ((m.contents f.frame).set i data i.isLt)) f) p := by
  refine .of_bind (fun _ _ => rfl) (fun _ _ => ?_) h
  cases nextPlace i <;> rfl

theorem writeNow_cases (h : writeNow m e i = .ok p) :
    Transferred (m.swap.device.store e.slot i ((m.contents e.frame).get i)) i
      (fun device cause => writeFailed (m.putDevice device) e cause)
      (fun device _ j => writeAt (m.putDevice device) e j)
      (fun device _ => written (m.putDevice device) e) p := by
  refine .of_bind (fun _ _ => rfl) (fun _ _ => ?_) h
  cases nextPlace i <;> rfl

theorem bareReadNow_cases {slot : Nat} {buffer : Contents}
    (h : bareReadNow m slot buffer i = .ok p) :
    Transferred (m.swap.device.fetch slot i) i
      (fun device error =>
        .ok (finish (m.putDevice device) [] (.filled (.error error) buffer.toBytes)))
      (fun device data j => bareReadAt (m.putDevice device) slot (buffer.set i data i.isLt) j)
      (fun device data => .ok (finish (m.putDevice device) []
        (.filled (.ok ()) (Contents.toBytes (buffer.set i data i.isLt))))) p := by
  refine .of_bind (fun _ _ => rfl) (fun _ _ => ?_) h
  cases nextPlace i <;> rfl

theorem bareWriteNow_cases {slot : Nat} {data : Contents}
    (h : bareWriteNow m slot data i = .ok p) :
    Transferred (m.swap.device.store slot i (data.get i)) i
      (fun device error => .ok (finish (m.putDevice device) [] (.transferred (.error error))))
      (fun device _ j => bareWriteAt (m.putDevice device) slot data j)
      (fun device _ => .ok (finish (m.putDevice device) [] (.transferred (.ok ())))) p := by
  refine .of_bind (fun _ _ => rfl) (fun _ _ => ?_) h
  cases nextPlace i <;> rfl

/-- An operation takes the device behind a mapping, so nobody else has it. -/
theorem resume_fillMapping (h : resume held m (.fillMapping f) = .ok p) :
    held = false ∧ readAt m f firstPlace = .ok p := by
  obtain ⟨u, htaken, h⟩ := Fault.bind_eq_ok.mp h
  cases held with
  | false => exact ⟨rfl, h⟩
  | true => exact nomatch htaken

theorem resume_evictMapping (h : resume held m (.evictMapping e) = .ok p) :
    held = false ∧ writeAt m e firstPlace = .ok p := by
  obtain ⟨u, htaken, h⟩ := Fault.bind_eq_ok.mp h
  cases held with
  | false => exact ⟨rfl, h⟩
  | true => exact nomatch htaken

/-! ## Filling a frame from a slot -/

/-- The frame is full: a restore releases its slot, if it can, and a page-in puts its frame on the
chain, unless the owner is gone. -/
inductive FilledCases (m : Memory) (notices : List Notice) (f : Filling) : Piece → Prop
  | unreleased {error : SwapError} {slots : SlotMap} (hpage : f.page = none)
      (hrelease : m.swap.slots.release f.slot = .ok (.error error, slots)) :
      FilledCases m notices f (finish (m.putSlots slots) notices (.transferred (.error error)))
  | restored {slots : SlotMap} (hpage : f.page = none)
      (hrelease : m.swap.slots.release f.slot = .ok (.ok (), slots)) :
      FilledCases m notices f (finish (m.putSlots slots).countRestore
        (notices ++ [.restored f.slot f.address]) (.transferred (.ok ())))
  | broughtBack (page : Page) (onChain : Bool) (slots : SlotMap) (coremap : Coremap) {owned : Bool}
      (hpage : f.page = some page)
      (hrelease : m.swap.slots.releaseIfOwned f.slot page = .ok (owned, slots))
      (hunpin : m.coremap.unpin f.frame = .ok (onChain, coremap)) :
      FilledCases m notices f (finish { (m.putSlots slots).countRestore with coremap }
        (notices ++ [.broughtBack f.slot f.address page])
        (.address (if onChain then .ok f.address else .error .ownerReleased)))

theorem filled_cases (h : filled m notices f = .ok p) : FilledCases m notices f p := by
  unfold filled at h
  split at h
  · next hpage =>
      obtain ⟨⟨released, slots⟩, hrelease, h⟩ := Fault.bind_eq_ok.mp h
      cases released with
      | error error =>
          cases h
          exact .unreleased hpage hrelease
      | ok u =>
          cases h
          exact .restored hpage hrelease
  · next page hpage =>
      obtain ⟨⟨owned, slots⟩, hrelease, h⟩ := Fault.bind_eq_ok.mp h
      obtain ⟨⟨onChain, coremap⟩, hunpin, h⟩ := Fault.bind_eq_ok.mp h
      cases h
      exact .broughtBack page onChain slots coremap hpage hrelease hunpin

/-- The slot could not be read: a restore has nothing to undo. -/
inductive FillFailedCases (m : Memory) (f : Filling) (error : SwapError) : Piece → Prop
  | restore (hpage : f.page = none) :
      FillFailedCases m f error
        (finish m [.cannotRead f.slot f.address error] (.transferred (.error error)))
  | pageIn (page : Page) (coremap : Coremap) (slots : SlotMap) {live : Bool}
      (hpage : f.page = some page)
      (hdiscard : m.coremap.discardPinned f.frame = .ok coremap)
      (hsettle : m.swap.slots.settle f.slot page = .ok (live, slots)) :
      FillFailedCases m f error (finish ({ m with coremap }.putSlots slots)
        [.cannotRead f.slot f.address error] (.address (.error (.restoreFailed error))))

theorem fillFailed_cases {error : SwapError} (h : fillFailed m f error = .ok p) :
    FillFailedCases m f error p := by
  unfold fillFailed at h
  dsimp only at h
  split at h
  · next hpage =>
      cases h
      exact .restore hpage
  · next page hpage =>
      obtain ⟨coremap, hdiscard, h⟩ := Fault.bind_eq_ok.mp h
      obtain ⟨⟨live, slots⟩, hsettle, h⟩ := Fault.bind_eq_ok.mp h
      cases h
      exact .pageIn page coremap slots hpage hdiscard hsettle

/-- The slot has been read, and is overwritten first if so configured. -/
theorem slotRead_cases (h : slotRead held m f = .ok p) :
    (m.swap.scrub = true ∧ held = false ∧ scrubAt m f firstPlace = .ok p) ∨
      (m.swap.scrub = false ∧ filled m [] f = .ok p) := by
  unfold slotRead at h
  split at h
  · next hscrub =>
      obtain ⟨u, htaken, h⟩ := Fault.bind_eq_ok.mp h
      cases held with
      | false => exact Or.inl ⟨hscrub, rfl, h⟩
      | true => exact nomatch htaken
  · next hscrub => exact Or.inr ⟨Bool.eq_false_iff.mpr hscrub, h⟩

/-- What becomes of a filling that goes on: the frame is full, the slot could not be read, or another
sector is read or overwritten. Up to there nothing but sectors has changed. -/
inductive FillingCases (m : Memory) (f : Filling) : Piece → Prop
  | full {p : Piece} (device : SwapDevice) (ram : Array Contents) {notices : List Notice}
      (h : filled (m.putSectors device ram) notices f = .ok p) : FillingCases m f p
  | unread {p : Piece} (device : SwapDevice) (ram : Array Contents) {error : SwapError}
      (h : fillFailed (m.putSectors device ram) f error = .ok p) : FillingCases m f p
  | reading {device : SwapDevice} {ram : Array Contents} {i : Place} :
      FillingCases m f (stop (m.putSectors device ram) [] (.fillReading f i))
  | scrubbing {device : SwapDevice} {ram : Array Contents} {i : Place} :
      FillingCases m f (stop (m.putSectors device ram) [] (.fillScrubbing f i))

namespace FillingCases

theorem of_scrubAt (device : SwapDevice) (ram : Array Contents)
    (h : scrubAt (m.putSectors device ram) f i = .ok p) : FillingCases m f p := by
  cases scrubAt_cases h with
  | refused _ h => exact .full device ram h
  | ready => exact .scrubbing

theorem of_readAt (device : SwapDevice) (ram : Array Contents)
    (h : readAt (m.putSectors device ram) f i = .ok p) : FillingCases m f p := by
  cases readAt_cases h with
  | refused _ h => exact .unread device ram h
  | ready => exact .reading

theorem of_slotRead (device : SwapDevice) (ram : Array Contents)
    (h : slotRead held (m.putSectors device ram) f = .ok p) : FillingCases m f p := by
  rcases slotRead_cases h with ⟨-, -, h⟩ | ⟨-, h⟩
  · exact of_scrubAt device ram h
  · exact .full device ram h

theorem of_mapping (h : resume held m (.fillMapping f) = .ok p) : FillingCases m f p :=
  of_readAt m.swap.device m.ram (resume_fillMapping h).2

theorem of_reading (h : readNow held m f i = .ok p) : FillingCases m f p := by
  cases readNow_cases h with
  | failed device _ h => exact .unread device m.ram h
  | next device data _ _ h =>
      exact of_readAt device
        (m.ram.setIfInBounds f.frame ((m.contents f.frame).set i data i.isLt)) h
  | last device data _ _ h =>
      exact of_slotRead device
        (m.ram.setIfInBounds f.frame ((m.contents f.frame).set i data i.isLt)) h

theorem of_scrubbing (h : scrubNow m f i = .ok p) : FillingCases m f p := by
  cases scrubNow_cases h with
  | failed device _ h => exact .full device m.ram h
  | next device _ _ _ h => exact of_scrubAt device m.ram h
  | last device _ _ _ h => exact .full device m.ram h

end FillingCases

/-! ## Finding room -/

/-- The need is met: its frames are answered, as they are or as the kernel sees them, or a page-in
has its frame mapped. -/
inductive MetCases (m : Memory) (notices : List Notice) (i : Nat) : Need → Piece → Prop
  | allocated {owner : FrameOwner} {count address : Nat}
      (haddress : m.coremap.addressOf i = .ok address) :
      MetCases m notices i (.allocate owner count false)
        (finish m (notices ++ [.allocated count owner.kind address]) (.address (.ok address)))
  | seen {owner : FrameOwner} {count address shown : Nat}
      (haddress : m.coremap.addressOf i = .ok address)
      (hshown : Address.toKernel address = .ok shown) :
      MetCases m notices i (.allocate owner count true)
        (finish m (notices ++ [.allocated count owner.kind address]) (.address (.ok shown)))
  | pageIn {page : Page} {slot address : Nat} (haddress : m.coremap.addressOf i = .ok address) :
      MetCases m notices i (.pageIn page slot)
        (stop m notices (.fillMapping ⟨i, address, slot, some page⟩))

theorem met_cases {i : Nat} {need : Need} (h : met m notices i need = .ok p) :
    MetCases m notices i need p := by
  cases need with
  | allocate owner count seen =>
      obtain ⟨address, haddress, h⟩ := Fault.bind_eq_ok.mp h
      cases seen with
      | true =>
          obtain ⟨shown, hshown, h⟩ := Fault.bind_eq_ok.mp h
          cases h
          exact .seen haddress hshown
      | false =>
          cases h
          exact .allocated haddress
  | pageIn page slot =>
      obtain ⟨address, haddress, h⟩ := Fault.bind_eq_ok.mp h
      cases h
      exact .pageIn haddress

/-- The need is not met: a page-in settles its slot. -/
inductive UnmetCases (m : Memory) (notices : List Notice) (e : FrameError) : Need → Piece → Prop
  | allocate {owner : FrameOwner} {count : Nat} {seen : Bool} :
      UnmetCases m notices e (.allocate owner count seen) (finish m notices (.address (.error e)))
  | pageIn {page : Page} {slot : Nat} {live : Bool} {slots : SlotMap}
      (hsettle : m.swap.slots.settle slot page = .ok (live, slots)) :
      UnmetCases m notices e (.pageIn page slot)
        (finish (m.putSlots slots) notices (.address (.error e)))

theorem unmet_cases {e : FrameError} {need : Need} (h : unmet m notices e need = .ok p) :
    UnmetCases m notices e need p := by
  cases need with
  | allocate owner count seen =>
      cases h
      exact .allocate
  | pageIn page slot =>
      obtain ⟨⟨live, slots⟩, hsettle, h⟩ := Fault.bind_eq_ok.mp h
      cases h
      exact .pageIn hsettle

/-- An eviction is over: nothing needs the room, or what needs it has no more than one try. -/
inductive EvictionEndedCases (m : Memory) (notices : List Notice) :
    Option Need → Except EvictError (Nat × Nat) → Piece → Prop
  | ended {result : Except EvictError (Nat × Nat)} :
      EvictionEndedCases m notices none result (finish m notices (.evicted result))
  | noVictim {p : Piece} {need : Need} (h : unmet m notices .outOfMemory need = .ok p) :
      EvictionEndedCases m notices (some need) (.error .noVictim) p
  | failed {p : Piece} {need : Need} {cause : SwapError}
      (h : unmet m notices (.evictionFailed (.swap cause)) need = .ok p) :
      EvictionEndedCases m notices (some need) (.error (.swap cause)) p
  | room {p : Piece} {need : Need} {freed : Nat × Nat} {i : Nat} (coremap : Coremap)
      (hclaim : claimFor m.coremap need = .ok (some i, coremap))
      (h : met { m with coremap } notices i need = .ok p) :
      EvictionEndedCases m notices (some need) (.ok freed) p
  | noRoom {p : Piece} {need : Need} {freed : Nat × Nat} (coremap : Coremap)
      (hclaim : claimFor m.coremap need = .ok (none, coremap))
      (h : unmet { m with coremap } notices .outOfMemory need = .ok p) :
      EvictionEndedCases m notices (some need) (.ok freed) p

theorem evictionEnded_cases {need : Option Need} {result : Except EvictError (Nat × Nat)}
    (h : evictionEnded m notices need result = .ok p) :
    EvictionEndedCases m notices need result p := by
  cases need with
  | none =>
      cases h
      exact .ended
  | some need =>
      cases result with
      | error error =>
          cases error with
          | noVictim => exact .noVictim h
          | swap cause => exact .failed h
      | ok freed =>
          obtain ⟨⟨first, coremap⟩, hclaim, h⟩ := Fault.bind_eq_ok.mp h
          cases first with
          | some i => exact .room coremap hclaim h
          | none => exact .noRoom coremap hclaim h

/-! ## Evictions -/

theorem putBack_eq_ok {frame : Nat} (h : putBack m frame = .ok (n, notices)) :
    ∃ onChain coremap, m.coremap.abortEviction frame = .ok (onChain, coremap) ∧
      n = { m with coremap } ∧ notices = if onChain then [] else [.victimFreed frame] := by
  obtain ⟨⟨onChain, coremap⟩, habort, h⟩ := Fault.bind_eq_ok.mp h
  cases h
  exact ⟨onChain, coremap, habort, rfl, rfl⟩

/-- A victim is looked for: there is none, or it goes back for want of a slot, or its frame is about
to be mapped. -/
inductive EvictCases (m : Memory) (need : Option Need) : Piece → Prop
  | noVictim {p : Piece} {coremap : Coremap}
      (hdetach : m.coremap.detachOldest = .ok (none, coremap))
      (h : evictionEnded m [] need (.error .noVictim) = .ok p) : EvictCases m need p
  | noSlot {p : Piece} {frame address : Nat} {page : Page} {cause : SwapError}
      {notices : List Notice} (coremap : Coremap) (slots : SlotMap) (n : Memory)
      (hdetach : m.coremap.detachOldest = .ok (some (frame, page), coremap))
      (haddress : coremap.addressOf frame = .ok address)
      (hreserve : m.swap.slots.reserve page = .ok (.error cause, slots))
      (hback : putBack ({ m with coremap }.putSlots slots) frame = .ok (n, notices))
      (h : evictionEnded n (.cannotEvict address cause :: notices) need
        (.error (.swap cause)) = .ok p) : EvictCases m need p
  | reserved {frame address slot : Nat} {page : Page} (coremap : Coremap) (slots : SlotMap)
      (hdetach : m.coremap.detachOldest = .ok (some (frame, page), coremap))
      (haddress : coremap.addressOf frame = .ok address)
      (hreserve : m.swap.slots.reserve page = .ok (.ok slot, slots)) :
      EvictCases m need (stop ({ m with coremap }.putSlots slots) []
        (.evictMapping ⟨frame, address, page, slot, need⟩))

theorem evict_cases {need : Option Need} (h : evict m need = .ok p) : EvictCases m need p := by
  obtain ⟨⟨victim, coremap⟩, hdetach, h⟩ := Fault.bind_eq_ok.mp h
  cases victim with
  | none => exact .noVictim hdetach h
  | some entry =>
      obtain ⟨address, haddress, h⟩ := Fault.bind_eq_ok.mp h
      obtain ⟨⟨reserved, slots⟩, hreserve, h⟩ := Fault.bind_eq_ok.mp h
      cases reserved with
      | error cause =>
          obtain ⟨⟨n, notices⟩, hback, h⟩ := Fault.bind_eq_ok.mp h
          exact .noSlot coremap slots n hdetach haddress hreserve hback h
      | ok slot =>
          cases h
          exact .reserved coremap slots hdetach haddress hreserve

/-- An eviction is given up: the slot is released and the frame put back. -/
theorem writeFailed_eq_ok {cause : SwapError} (h : writeFailed m e cause = .ok p) :
    ∃ owned slots n notices, m.swap.slots.releaseIfOwned e.slot e.page = .ok (owned, slots) ∧
      putBack (m.putSlots slots) e.frame = .ok (n, notices) ∧
      evictionEnded n (.cannotWrite e.address e.slot cause :: notices) e.need
        (.error (.swap cause)) = .ok p := by
  obtain ⟨⟨owned, slots⟩, hrelease, h⟩ := Fault.bind_eq_ok.mp h
  obtain ⟨⟨n, notices⟩, hback, h⟩ := Fault.bind_eq_ok.mp h
  exact ⟨owned, slots, n, notices, hrelease, hback, h⟩

/-- The frame is in its slot: if one of them was given up both are freed, else the pager is told. -/
inductive WrittenCases (m : Memory) (e : Eviction) : Piece → Prop
  | freed {p : Piece} {live orphaned owned : Bool} {d : Descriptor} (slots slots' : SlotMap)
      (coremap : Coremap)
      (hsettle : m.swap.slots.settle e.slot e.page = .ok (live, slots))
      (hd : m.coremap.frame e.frame = .ok d) (hgone : live = false ∨ d.orphaned = true)
      (hfinish : m.coremap.finishEviction e.frame = .ok (orphaned, coremap))
      (hrelease : slots.releaseIfOwned e.slot e.page = .ok (owned, slots'))
      (h : evictionEnded ({ m.putSlots slots with coremap }.putSlots slots').countEviction
        [.evictedReleased e.frame e.address e.page] e.need (.ok (e.frame, e.slot)) = .ok p) :
      WrittenCases m e p
  | told {d : Descriptor} (slots : SlotMap)
      (hsettle : m.swap.slots.settle e.slot e.page = .ok (true, slots))
      (hd : m.coremap.frame e.frame = .ok d) (hkept : d.orphaned = false) :
      WrittenCases m e (stop { m.putSlots slots with pager := m.pager.tell e.page e.slot } []
        (.evictTelling e))

theorem written_cases (h : written m e = .ok p) : WrittenCases m e p := by
  obtain ⟨⟨live, slots⟩, hsettle, h⟩ := Fault.bind_eq_ok.mp h
  obtain ⟨d, hd, h⟩ := Fault.bind_eq_ok.mp h
  split at h
  · next hgone =>
      obtain ⟨⟨orphaned, coremap⟩, hfinish, h⟩ := Fault.bind_eq_ok.mp h
      obtain ⟨⟨owned, slots'⟩, hrelease, h⟩ := Fault.bind_eq_ok.mp h
      refine .freed slots slots' coremap hsettle hd ?_ hfinish hrelease h
      simpa using hgone
  · next hgood =>
      cases h
      obtain ⟨hlive, hkept⟩ := Bool.or_eq_false_iff.mp (Bool.eq_false_iff.mpr hgood)
      obtain rfl : live = true := by simpa using hlive
      exact .told slots hsettle hd hkept

/-- The pager has been told: the frame is freed, and its slot too if it was given up meanwhile. -/
inductive ToldPagerCases (m : Memory) (e : Eviction) (p : Piece) : Prop
  | orphaned {owned : Bool} (coremap : Coremap) (slots : SlotMap)
      (hfinish : m.coremap.finishEviction e.frame = .ok (true, coremap))
      (hrelease : m.swap.slots.releaseIfOwned e.slot e.page = .ok (owned, slots))
      (h : evictionEnded ({ m with coremap }.putSlots slots).countEviction
        [.evicted e.frame e.address e.page e.slot] e.need (.ok (e.frame, e.slot)) = .ok p)
  | kept (coremap : Coremap) (hfinish : m.coremap.finishEviction e.frame = .ok (false, coremap))
      (h : evictionEnded { m with coremap }.countEviction
        [.evicted e.frame e.address e.page e.slot] e.need (.ok (e.frame, e.slot)) = .ok p)

theorem toldPager_cases (h : toldPager m e = .ok p) : ToldPagerCases m e p := by
  obtain ⟨⟨orphaned, coremap⟩, hfinish, h⟩ := Fault.bind_eq_ok.mp h
  cases orphaned with
  | true =>
      obtain ⟨⟨owned, slots⟩, hrelease, h⟩ := Fault.bind_eq_ok.mp h
      exact .orphaned coremap slots hfinish hrelease h
  | false => exact .kept coremap hfinish h

/-- What becomes of an eviction that goes on before the pager is told: it is given up, another sector
is written, or all are. -/
inductive EvictingCases (m : Memory) (e : Eviction) : Piece → Prop
  | failed {p : Piece} (device : SwapDevice) {cause : SwapError}
      (h : writeFailed (m.putDevice device) e cause = .ok p) : EvictingCases m e p
  | writing {device : SwapDevice} {i : Place} :
      EvictingCases m e (stop (m.putDevice device) [] (.evictWriting e i))
  | written {p : Piece} (device : SwapDevice)
      (h : written (m.putDevice device) e = .ok p) : EvictingCases m e p

namespace EvictingCases

theorem of_writeAt (device : SwapDevice) (h : writeAt (m.putDevice device) e i = .ok p) :
    EvictingCases m e p := by
  cases writeAt_cases h with
  | refused _ h => exact .failed device h
  | ready => exact .writing

theorem of_mapping (h : resume held m (.evictMapping e) = .ok p) : EvictingCases m e p :=
  of_writeAt m.swap.device (resume_evictMapping h).2

theorem of_writing (h : writeNow m e i = .ok p) : EvictingCases m e p := by
  cases writeNow_cases h with
  | failed device _ h => exact .failed device h
  | next device _ _ _ h => exact of_writeAt device h
  | last device _ _ _ h => exact .written device h

end EvictingCases

/-! ## Operations -/

/-- Room is looked for: the table is too small, or there is room, or an eviction has to make it. -/
inductive ProvideCases (m : Memory) (need : Need) (p : Piece) : Prop
  | tooFew (hsize : m.coremap.size < needed need) (h : unmet m [] .outOfMemory need = .ok p)
  | room {i : Nat} (coremap : Coremap) (hsize : needed need ≤ m.coremap.size)
      (hclaim : claimFor m.coremap need = .ok (some i, coremap))
      (h : met { m with coremap } [] i need = .ok p)
  | noRoom (coremap : Coremap) (hsize : needed need ≤ m.coremap.size)
      (hclaim : claimFor m.coremap need = .ok (none, coremap))
      (h : evict { m with coremap } (some need) = .ok p)

theorem provide_cases {need : Need} (h : provide m need = .ok p) : ProvideCases m need p := by
  unfold provide at h
  split at h
  · next hsize => exact .tooFew hsize h
  · next hsize =>
      obtain ⟨⟨first, coremap⟩, hclaim, h⟩ := Fault.bind_eq_ok.mp h
      cases first with
      | some i => exact .room coremap (Nat.le_of_not_lt hsize) hclaim h
      | none => exact .noRoom coremap (Nat.le_of_not_lt hsize) hclaim h

/-- A request for frames makes no sense, or room is looked for. -/
inductive AllocateCases (m : Memory) (kind : FrameKind) (count : Nat) (page : Option Page)
    (seen : Bool) : Piece → Prop
  | refused {error : FrameError} (hrequest : requestOwner kind count page = .error error) :
      AllocateCases m kind count page seen (finish m [] (.address (.error error)))
  | provided {p : Piece} {owner : FrameOwner} (hrequest : requestOwner kind count page = .ok owner)
      (h : provide m (.allocate owner count seen) = .ok p) :
      AllocateCases m kind count page seen p

theorem allocate_cases {kind : FrameKind} {count : Nat} {page : Option Page} {seen : Bool}
    (h : allocate m kind count page seen = .ok p) : AllocateCases m kind count page seen p := by
  unfold allocate at h
  split at h
  · next error hrequest =>
      cases h
      exact .refused hrequest
  · next owner hrequest => exact .provided hrequest h

/-- There is no frame at the address, or its run is released as far as it can be. -/
inductive FreeCases (m : Memory) (address : Nat) : Piece → Prop
  | noFrame (hindex : m.coremap.indexOf? address = none) :
      FreeCases m address (finish m [] (.done (.error (.invalidAddress address))))
  | refused (i : Nat) {error : FrameError} {coremap : Coremap}
      (hindex : m.coremap.indexOf? address = some i)
      (hrelease : m.coremap.release i = .ok (.error error, coremap)) :
      FreeCases m address (finish { m with coremap } [] (.done (.error error)))
  | freed (i : Nat) {count : Nat} {coremap : Coremap}
      (hindex : m.coremap.indexOf? address = some i)
      (hrelease : m.coremap.release i = .ok (.ok (.freed count), coremap)) :
      FreeCases m address (finish { m with coremap } [.freed count address] (.done (.ok ())))
  | deferred (i : Nat) {coremap : Coremap} (hindex : m.coremap.indexOf? address = some i)
      (hrelease : m.coremap.release i = .ok (.ok .deferred, coremap)) :
      FreeCases m address (finish { m with coremap } [.freeDeferred address] (.done (.ok ())))

theorem free_cases {address : Nat} (h : free m address = .ok p) : FreeCases m address p := by
  unfold free at h
  split at h
  · next hindex =>
      cases h
      exact .noFrame hindex
  · next i hindex =>
      obtain ⟨⟨released, coremap⟩, hrelease, h⟩ := Fault.bind_eq_ok.mp h
      cases released with
      | error error =>
          cases h
          exact .refused i hindex hrelease
      | ok released =>
          cases released with
          | freed count =>
              cases h
              exact .freed i hindex hrelease
          | deferred =>
              cases h
              exact .deferred i hindex hrelease

/-- The kernel sees no frame at the address, or the frame is freed that it sees there. -/
inductive FreeSeenCases (m : Memory) (seen : Nat) : Piece → Prop
  | unseen (hseen : Address.ofKernel? seen = none) :
      FreeSeenCases m seen (finish m [] (.done (.error (.invalidAddress seen))))
  | freed {p : Piece} {address : Nat} (hseen : Address.ofKernel? seen = some address)
      (h : free m address = .ok p) : FreeSeenCases m seen p

theorem freeSeen_cases {seen : Nat} (h : freeSeen m seen = .ok p) : FreeSeenCases m seen p := by
  unfold freeSeen at h
  split at h
  · next hseen =>
      cases h
      exact .unseen hseen
  · next address hseen => exact .freed hseen h

/-- A page-in cannot have its slot, or it holds the slot and looks for room. -/
inductive PageInCases (m : Memory) (page : Page) (slot : Nat) : Piece → Prop
  | refused {slots : SlotMap} (hhold : m.swap.slots.hold slot page = .ok (false, slots)) :
      PageInCases m page slot
        (finish (m.putSlots slots) [] (.address (.error (.restoreFailed (.invalidSlot slot)))))
  | held {p : Piece} (slots : SlotMap) (hhold : m.swap.slots.hold slot page = .ok (true, slots))
      (h : provide (m.putSlots slots) (.pageIn page slot) = .ok p) : PageInCases m page slot p

theorem pageIn_cases {page : Page} {slot : Nat} (h : pageIn m page slot = .ok p) :
    PageInCases m page slot p := by
  obtain ⟨⟨isHeld, slots⟩, hhold, h⟩ := Fault.bind_eq_ok.mp h
  cases isHeld with
  | false =>
      cases h
      exact .refused hhold
  | true => exact .held slots hhold h

/-- A restore finds no frame or no slot, or its frame is about to be mapped. -/
inductive RestoreCases (m : Memory) (slot address : Nat) : Piece → Prop
  | noFrame (hindex : m.coremap.indexOf? address = none) :
      RestoreCases m slot address (finish m [] (.transferred (.error (.invalidFrame address))))
  | noSlot {i : Nat} (hindex : m.coremap.indexOf? address = some i)
      (hused : m.swap.slots.isUsed slot = .ok false) :
      RestoreCases m slot address (finish m [] (.transferred (.error (.invalidSlot slot))))
  | filling {i : Nat} (hindex : m.coremap.indexOf? address = some i)
      (hused : m.swap.slots.isUsed slot = .ok true) :
      RestoreCases m slot address (stop m [] (.fillMapping ⟨i, address, slot, none⟩))

theorem restore_cases {slot address : Nat} (h : restore m slot address = .ok p) :
    RestoreCases m slot address p := by
  unfold restore at h
  split at h
  · next hindex =>
      cases h
      exact .noFrame hindex
  · next i hindex =>
      obtain ⟨used, hused, h⟩ := Fault.bind_eq_ok.mp h
      cases used with
      | false =>
          cases h
          exact .noSlot hindex hused
      | true =>
          cases h
          exact .filling hindex hused

theorem tearDown_eq_ok {space : Nat} (h : tearDown m space = .ok p) :
    ∃ frames coremap cleared slots, m.coremap.releaseSpace space = .ok (frames, coremap) ∧
      m.swap.slots.releaseSpace space = .ok (cleared, slots) ∧
      p = finish ({ m with coremap }.putSlots slots) [.tornDown frames cleared space]
        (.tornDown frames cleared) := by
  obtain ⟨⟨frames, coremap⟩, hframes, h⟩ := Fault.bind_eq_ok.mp h
  obtain ⟨⟨cleared, slots⟩, hslots, h⟩ := Fault.bind_eq_ok.mp h
  cases h
  exact ⟨frames, coremap, cleared, slots, hframes, hslots, rfl⟩

/-- There is no frame at the address, or its TLB slot is remembered if it can be. -/
inductive RecordCases (m : Memory) (address : Nat) (slot : Option Nat) : Piece → Prop
  | noFrame (hindex : m.coremap.indexOf? address = none) :
      RecordCases m address slot (finish m [] (.done (.error (.invalidAddress address))))
  | recorded (i : Nat) {result : Except FrameError Unit} {coremap : Coremap}
      (hindex : m.coremap.indexOf? address = some i)
      (hset : m.coremap.setTlbSlot i slot = .ok (result, coremap)) :
      RecordCases m address slot (finish { m with coremap } [] (.done result))

theorem recordTlbSlot_cases {address : Nat} {slot : Option Nat}
    (h : recordTlbSlot m address slot = .ok p) : RecordCases m address slot p := by
  unfold recordTlbSlot at h
  split at h
  · next hindex =>
      cases h
      exact .noFrame hindex
  · next i hindex =>
      obtain ⟨⟨result, coremap⟩, hset, h⟩ := Fault.bind_eq_ok.mp h
      cases h
      exact .recorded i hindex hset

end Task

end PhysMem
