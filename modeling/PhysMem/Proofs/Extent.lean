import Mathlib.Algebra.Group.Nat.Defs
import PhysMem.Proofs.Calls
import PhysMem.Proofs.Entries
import PhysMem.Proofs.Requests
import PhysMem.Proofs.SlotRequests
import PhysMem.Proofs.Steals

/-!
# Extent — what is handed out lies in the memory system

An operation that is stopped knows addresses and slots, and it keeps them until it answers. They stay
good because nothing ever moves the frames or changes how many frames and slots there are. This needs
no soundness: it holds of every operation, probe and bare transfer, in whatever order they come.

* **`Extent`** is what never changes, **`Extent.Allows`** what an operation may know and answer.
* **`start_within`** and **`resume_within`** — every piece of an operation keeps to it.
* **`Machine.run_within`** — so does every run.
* **`bootstrap_extent`** is the extent that a configuration leads to.
* **`entries_encode_what_is_handed_out`** is the result.
-/

namespace PhysMem

/-- Where the frames of a memory system begin, and how many frames and slots there are. -/
structure Extent where
  base : Nat
  frames : Nat
  slots : Nat
  deriving DecidableEq, Repr

/-- The extent of the memory system. -/
def Memory.extent (m : Memory) : Extent :=
  ⟨m.coremap.base, m.coremap.size, m.swap.slots.capacity⟩

namespace Extent

/-- One of the frames begins at the address. -/
def HasFrame (x : Extent) (address : Nat) : Prop :=
  ∃ i, i < x.frames ∧ address = x.base + i * Address.frameSize

/-- How an operation answers the address of a frame: as it is, or as the kernel sees it. -/
def shown (op : Operation) (address : Nat) : Nat :=
  match op with
  | .allocateSeen _ => address + Address.kernelBase
  | _ => address

/-- What an operation knows while it is stopped: an eviction its slot, a page-in its frame. -/
def Knows (x : Extent) (op : Operation) : Task → Prop
  | .evictMapping e | .evictWriting e _ | .evictTelling e =>
    e.slot < x.slots ∧ Task.NeedServes op e.need
  | .fillMapping f | .fillReading f _ | .fillScrubbing f _ =>
    ∀ page, f.page = some page → op = .pageIn page f.slot ∧ x.HasFrame f.address
  | .slotReading .. | .slotWriting .. => True

/-- What an operation answers. -/
def Gives (x : Extent) (op : Operation) : Reply → Prop
  | .address (.ok address) => ∃ frame, x.HasFrame frame ∧ address = shown op frame
  | .evicted (.ok (_, slot)) => slot < x.slots
  | _ => True

/-- What an operation may come to. -/
def Allows (x : Extent) (op : Operation) : Task.Next → Prop
  | .callOut task => x.Knows op task
  | .reply reply => x.Gives op reply

end Extent

/-! ## What never changes -/

theorem SlotMap.shape_of {m : SlotMap} {α : Type} {a : α} {c : Except Fault α}
    {f : α → Answer × SlotMap} (request : Request)
    (hperform : m.perform request = c >>= fun a => .ok (f a)) (h : c = .ok a) :
    m.SameShape (f a).2 :=
  perform_shape (hperform.trans (Fault.bind_eq_ok.mpr ⟨a, h, rfl⟩))

/-- A slot that is reserved is one of the map. -/
theorem SlotMap.lt_capacity_of_reserve {m m' : SlotMap} {page : Page} {slot : Nat}
    (h : m.reserve page = .ok (.ok slot, m')) : slot < m.capacity := by
  cases reserve_cases h with
  | reserved _ hslot => exact hslot

theorem Coremap.table_of {m : Coremap} {α : Type} {a : α} {c : Except Fault α}
    {f : α → Answer × Coremap} (request : Request)
    (hperform : m.perform request = c >>= fun a => .ok (f a)) (h : c = .ok a) :
    m.SameTable (f a).2 :=
  perform_table (hperform.trans (Fault.bind_eq_ok.mpr ⟨a, h, rfl⟩))

namespace Memory

variable {m : Memory} {x : Extent} {slots : SlotMap} {coremap : Coremap}

theorem extent_putSlots (hm : m.extent = x) (h : m.swap.slots.SameShape slots) :
    (m.putSlots slots).extent = x := by
  rw [← hm]
  exact congrArg (Extent.mk _ _) h.capacity

theorem extent_coremap (hm : m.extent = x) (h : m.coremap.SameTable coremap) :
    extent { m with coremap } = x := by
  rw [← hm]
  exact congrArg₂ (Extent.mk · · _) h.base h.size

theorem extent_countEviction (hm : m.extent = x) : m.countEviction.extent = x := hm

/-- The address of a frame. -/
theorem hasFrame_of_addressOf {i address : Nat} (hm : m.extent = x)
    (h : m.coremap.addressOf i = .ok address) : x.HasFrame address := by
  unfold Coremap.addressOf at h
  split at h
  · next hi =>
      obtain ⟨offset, hmul, hadd⟩ := Fault.bind_eq_ok.mp h
      cases Word.eq_of_mul hmul
      cases Word.eq_of_add hadd
      rw [← hm]
      exact ⟨i, hi, rfl⟩
  · exact nomatch h

end Memory

namespace Task

open Memory

/-- A piece of an operation that leaves the extent as it is and keeps to it. -/
structure Piece.Within (p : Piece) (x : Extent) (op : Operation) : Prop where
  extent : p.memory.extent = x
  next : x.Allows op p.next

variable {m : Memory} {p : Piece} {notices : List Notice} {op : Operation} {held : Bool}
  {x : Extent}

/-! ## Filling a frame from a slot -/

section

variable {f : Filling} {i : Place} (hf : x.Knows op (.fillMapping f)) (hm : m.extent = x)

include hf hm

theorem filled_within (h : filled m notices f = .ok p) : p.Within x op := by
  cases filled_cases h with
  | unreleased _ hrelease | restored _ hrelease =>
      have hslots := extent_putSlots hm (SlotMap.shape_of (.release f.slot) rfl hrelease)
      exact ⟨hslots, trivial⟩
  | broughtBack page onChain slots coremap hpage hrelease hunpin =>
      have hslots :=
        extent_putSlots hm (SlotMap.shape_of (.releaseIfOwned f.slot page) rfl hrelease)
      refine ⟨extent_coremap hslots (Coremap.table_of (.unpin f.frame) rfl hunpin), ?_⟩
      cases onChain with
      | true =>
          obtain ⟨rfl, hframe⟩ := hf page hpage
          exact ⟨f.address, hframe, rfl⟩
      | false => trivial

omit hf in
theorem fillFailed_within {e : SwapError} (h : fillFailed m f e = .ok p) : p.Within x op := by
  cases fillFailed_cases h with
  | restore => exact ⟨hm, trivial⟩
  | pageIn page coremap slots _ hdiscard hsettle =>
      have hframes := extent_coremap hm (Coremap.table_of (.discardPinned f.frame) rfl hdiscard)
      exact ⟨extent_putSlots hframes (SlotMap.shape_of (.settle f.slot page) rfl hsettle), trivial⟩

theorem filling_within (h : FillingCases m f p) : p.Within x op := by
  cases h with
  | full device ram h => exact filled_within (m := m.putSectors device ram) hf hm h
  | unread device ram h => exact fillFailed_within (m := m.putSectors device ram) hm h
  | reading | scrubbing => exact ⟨hm, hf⟩

end

/-! ## Finding room -/

theorem met_within {i : Nat} {need : Need} (hop : NeedServes op (some need)) (hm : m.extent = x)
    (h : met m notices i need = .ok p) : p.Within x op := by
  cases met_cases h with
  | seen haddress hshown =>
      obtain ⟨rfl, -⟩ := hop
      exact ⟨hm, _, hasFrame_of_addressOf hm haddress, Word.eq_of_add hshown⟩
  | allocated haddress =>
      obtain ⟨kind, page, rfl, -⟩ := hop
      exact ⟨hm, _, hasFrame_of_addressOf hm haddress, rfl⟩
  | @pageIn page slot _ haddress =>
      have hserves : op = .pageIn page slot := hop
      refine ⟨hm, fun q hq => ?_⟩
      cases hq
      exact ⟨hserves, hasFrame_of_addressOf hm haddress⟩

theorem unmet_within {e : FrameError} {need : Need} (hm : m.extent = x)
    (h : unmet m notices e need = .ok p) : p.Within x op := by
  cases unmet_cases h with
  | allocate => exact ⟨hm, trivial⟩
  | @pageIn page slot _ _ hsettle =>
      exact ⟨extent_putSlots hm (SlotMap.shape_of (.settle slot page) rfl hsettle), trivial⟩

theorem evictionEnded_within {need : Option Need} {result : Except EvictError (Nat × Nat)}
    (hop : NeedServes op need) (hresult : x.Gives op (.evicted result)) (hm : m.extent = x)
    (h : evictionEnded m notices need result = .ok p) : p.Within x op := by
  cases evictionEnded_cases h with
  | ended => exact ⟨hm, hresult⟩
  | noVictim h | failed h => exact unmet_within hm h
  | room coremap hclaim h => exact met_within hop (extent_coremap hm (claimFor_table hclaim)) h
  | noRoom coremap hclaim h => exact unmet_within (extent_coremap hm (claimFor_table hclaim)) h

/-! ## Evictions -/

/-- An eviction that fails answers no slot. -/
theorem gives_failed (e : EvictError) : x.Gives op (.evicted (.error e)) := trivial

/-- An eviction that succeeds answers its slot. -/
theorem gives_freed {e : Eviction} (he : x.Knows op (.evictMapping e)) :
    x.Gives op (.evicted (.ok (e.frame, e.slot))) := he.1

theorem putBack_extent {frame : Nat} {n : Memory} (hm : m.extent = x)
    (h : putBack m frame = .ok (n, notices)) : n.extent = x := by
  obtain ⟨hswap, -, htable⟩ := putBack_same h
  rw [← hm]
  unfold extent
  rw [hswap, htable.base, htable.size]

theorem evict_within {need : Option Need} (hop : NeedServes op need) (hm : m.extent = x)
    (h : evict m need = .ok p) : p.Within x op := by
  cases evict_cases h with
  | noVictim _ h => exact evictionEnded_within hop (gives_failed .noVictim) hm h
  | @noSlot _ _ _ page cause _ coremap slots n hdetach _ hreserve hback h =>
      have hdetached := extent_coremap hm (Coremap.table_of .detachOldest rfl hdetach)
      have hslots := extent_putSlots hdetached (SlotMap.shape_of (.reserve page) rfl hreserve)
      exact evictionEnded_within hop (gives_failed (.swap cause)) (putBack_extent hslots hback) h
  | @reserved _ _ _ page coremap slots hdetach _ hreserve =>
      have hdetached := extent_coremap hm (Coremap.table_of .detachOldest rfl hdetach)
      have hslots := extent_putSlots hdetached (SlotMap.shape_of (.reserve page) rfl hreserve)
      refine ⟨hslots, ?_, hop⟩
      rw [← hm]
      exact SlotMap.lt_capacity_of_reserve hreserve

section

variable {e : Eviction} {i : Place} (he : x.Knows op (.evictMapping e)) (hm : m.extent = x)

include he hm

theorem writeFailed_within {cause : SwapError} (h : writeFailed m e cause = .ok p) :
    p.Within x op := by
  obtain ⟨owned, slots, n, notices, hrelease, hback, h⟩ := writeFailed_eq_ok h
  have hslots := extent_putSlots hm (SlotMap.shape_of (.releaseIfOwned e.slot e.page) rfl hrelease)
  exact evictionEnded_within he.2 (gives_failed (.swap cause)) (putBack_extent hslots hback) h

theorem written_within (h : written m e = .ok p) : p.Within x op := by
  cases written_cases h with
  | freed slots slots' coremap hsettle _ _ hfinish hrelease h =>
      have hslots := extent_putSlots hm (SlotMap.shape_of (.settle e.slot e.page) rfl hsettle)
      have hframes := extent_coremap hslots (Coremap.table_of (.finishEviction e.frame) rfl hfinish)
      have hreleased := extent_putSlots hframes
        (SlotMap.shape_of (.releaseIfOwned e.slot e.page) rfl hrelease)
      exact evictionEnded_within he.2 (gives_freed he) (extent_countEviction hreleased) h
  | told slots hsettle =>
      have hslots := extent_putSlots hm (SlotMap.shape_of (.settle e.slot e.page) rfl hsettle)
      exact ⟨hslots, he⟩

theorem evicting_within (h : EvictingCases m e p) : p.Within x op := by
  cases h with
  | failed device h => exact writeFailed_within (m := m.putDevice device) he hm h
  | writing => exact ⟨hm, he⟩
  | written device h => exact written_within (m := m.putDevice device) he hm h

theorem toldPager_within (h : toldPager m e = .ok p) : p.Within x op := by
  cases toldPager_cases h with
  | orphaned coremap slots hfinish hrelease h =>
      have hframes := extent_coremap hm (Coremap.table_of (.finishEviction e.frame) rfl hfinish)
      have hreleased := extent_putSlots hframes
        (SlotMap.shape_of (.releaseIfOwned e.slot e.page) rfl hrelease)
      exact evictionEnded_within he.2 (gives_freed he) (extent_countEviction hreleased) h
  | kept coremap hfinish h =>
      have hframes := extent_coremap hm (Coremap.table_of (.finishEviction e.frame) rfl hfinish)
      exact evictionEnded_within he.2 (gives_freed he) (extent_countEviction hframes) h

end

/-! ## Bare transfers -/

theorem bareReadAt_within {slot : Nat} {buffer : Contents} {i : Place} (hm : m.extent = x)
    (h : bareReadAt m slot buffer i = .ok p) : p.Within x op := by
  cases bareReadAt_cases h with
  | refused _ h =>
      cases h
      exact ⟨hm, trivial⟩
  | ready => exact ⟨hm, trivial⟩

theorem bareWriteAt_within {slot : Nat} {data : Contents} {i : Place} (hm : m.extent = x)
    (h : bareWriteAt m slot data i = .ok p) : p.Within x op := by
  cases bareWriteAt_cases h with
  | refused _ h =>
      cases h
      exact ⟨hm, trivial⟩
  | ready => exact ⟨hm, trivial⟩

theorem bareReadNow_within {slot : Nat} {buffer : Contents} {i : Place} (hm : m.extent = x)
    (h : bareReadNow m slot buffer i = .ok p) : p.Within x op := by
  cases bareReadNow_cases h with
  | failed _ _ h | last _ _ _ _ h =>
      cases h
      exact ⟨hm, trivial⟩
  | next device _ _ _ h => exact bareReadAt_within (m := m.putDevice device) hm h

theorem bareWriteNow_within {slot : Nat} {data : Contents} {i : Place} (hm : m.extent = x)
    (h : bareWriteNow m slot data i = .ok p) : p.Within x op := by
  cases bareWriteNow_cases h with
  | failed _ _ h | last _ _ _ _ h =>
      cases h
      exact ⟨hm, trivial⟩
  | next device _ _ _ h => exact bareWriteAt_within (m := m.putDevice device) hm h

/-! ## Operations -/

/-- **Going on keeps to the extent.** -/
theorem resume_within {t : Task} (ht : x.Knows op t) (hm : m.extent = x)
    (h : resume held m t = .ok p) : p.Within x op := by
  cases t with
  | evictMapping e => exact evicting_within ht hm (.of_mapping h)
  | evictWriting e i => exact evicting_within ht hm (.of_writing h)
  | evictTelling e => exact toldPager_within ht hm h
  | fillMapping f => exact filling_within ht hm (.of_mapping h)
  | fillReading f i => exact filling_within ht hm (.of_reading h)
  | fillScrubbing f i => exact filling_within ht hm (.of_scrubbing h)
  | slotReading slot buffer i => exact bareReadNow_within hm h
  | slotWriting slot data i => exact bareWriteNow_within hm h

theorem provide_within {need : Need} (hop : NeedServes op (some need)) (hm : m.extent = x)
    (h : provide m need = .ok p) : p.Within x op := by
  cases provide_cases h with
  | tooFew _ h => exact unmet_within hm h
  | room coremap _ hclaim h => exact met_within hop (extent_coremap hm (claimFor_table hclaim)) h
  | noRoom coremap _ hclaim h =>
      exact evict_within hop (extent_coremap hm (claimFor_table hclaim)) h

theorem free_within {address : Nat} (hm : m.extent = x) (h : free m address = .ok p) :
    p.Within x op := by
  cases free_cases h with
  | noFrame => exact ⟨hm, trivial⟩
  | refused i _ hrelease | freed i _ hrelease | deferred i _ hrelease =>
      exact ⟨extent_coremap hm (Coremap.table_of (.release i) rfl hrelease), trivial⟩

theorem allocate_within {kind : FrameKind} {count : Nat} {page : Option Page} {seen : Bool}
    (hop : ∀ owner, requestOwner kind count page = .ok owner →
      NeedServes op (some (.allocate owner count seen)))
    (hm : m.extent = x) (h : allocate m kind count page seen = .ok p) : p.Within x op := by
  cases allocate_cases h with
  | refused => exact ⟨hm, trivial⟩
  | provided hrequest h => exact provide_within (hop _ hrequest) hm h

theorem pageIn_within {page : Page} {slot : Nat} (hm : m.extent = x)
    (h : pageIn m page slot = .ok p) : p.Within x (.pageIn page slot) := by
  cases pageIn_cases h with
  | refused hhold =>
      exact ⟨extent_putSlots hm (SlotMap.shape_of (.hold slot page) rfl hhold), trivial⟩
  | held slots hhold h =>
      have hserves : NeedServes (.pageIn page slot) (some (.pageIn page slot)) := rfl
      have hslots := extent_putSlots hm (SlotMap.shape_of (.hold slot page) rfl hhold)
      exact provide_within hserves hslots h

theorem restore_within {slot address : Nat} (hm : m.extent = x)
    (h : restore m slot address = .ok p) : p.Within x op := by
  cases restore_cases h with
  | noFrame | noSlot => exact ⟨hm, trivial⟩
  | filling => exact ⟨hm, nofun⟩

theorem recordTlbSlot_within {address : Nat} {slot : Option Nat} (hm : m.extent = x)
    (h : recordTlbSlot m address slot = .ok p) : p.Within x op := by
  cases recordTlbSlot_cases h with
  | noFrame => exact ⟨hm, trivial⟩
  | recorded i _ hset =>
      exact ⟨extent_coremap hm (Coremap.table_of (.setTlbSlot i slot) rfl hset), trivial⟩

theorem tearDown_within {space : Nat} (hm : m.extent = x) (h : tearDown m space = .ok p) :
    p.Within x op := by
  obtain ⟨frames, coremap, cleared, slots, hframes, hslots, rfl⟩ := tearDown_eq_ok h
  have hreleased := extent_coremap hm (Coremap.table_of (.releaseSpace space) rfl hframes)
  exact ⟨extent_putSlots hreleased (SlotMap.shape_of (.releaseSpace space) rfl hslots), trivial⟩

/-- **So does starting.** -/
theorem start_within (hm : m.extent = x) (h : start held m op = .ok p) : p.Within x op := by
  cases op with
  | allocate kind count page => exact allocate_within (fun _ hr => needServes_request hr) hm h
  | allocateSeen count => exact allocate_within (fun _ hr => needServes_seen hr) hm h
  | evict =>
      have hserves : NeedServes .evict none := rfl
      exact evict_within hserves hm h
  | pageIn page slot => exact pageIn_within hm h
  | restore slot address => exact restore_within hm h
  | free address => exact free_within hm h
  | freeSeen seen =>
      cases freeSeen_cases h with
      | unseen => exact ⟨hm, trivial⟩
      | freed _ h => exact free_within hm h
  | tearDown space => exact tearDown_within hm h
  | recordTlbSlot address slot => exact recordTlbSlot_within hm h
  | readSlot slot buffer =>
      obtain ⟨-, -, h⟩ := Fault.bind_eq_ok.mp h
      split at h
      · cases h
        exact ⟨hm, trivial⟩
      · split at h
        · cases h
          exact ⟨hm, trivial⟩
        · exact bareReadAt_within hm h
  | writeSlot slot buffer =>
      obtain ⟨-, -, h⟩ := Fault.bind_eq_ok.mp h
      split at h
      · cases h
        exact ⟨hm, trivial⟩
      · split at h
        · cases h
          exact ⟨hm, trivial⟩
        · exact bareWriteAt_within hm h
  | scrubSlot slot =>
      obtain ⟨-, -, h⟩ := Fault.bind_eq_ok.mp h
      exact bareWriteAt_within hm h

end Task

/-! ## Runs -/

/-- No probe moves a frame or changes how many slots there are. -/
theorem Probe.act_extent {p : Probe} {m m' : Memory} {o : Outcome}
    (h : p.act m = .ok (o, m')) : m'.extent = m.extent := by
  have leaves : p.leavesSlots = true → m'.extent = m.extent := fun hp => by
    have hleaves := Probe.act_leaves hp h
    unfold Memory.extent
    rw [hleaves.coremap, hleaves.slots]
  cases p with
  | reserveSlot page =>
      obtain ⟨⟨result, slots⟩, hreserve, h⟩ := Fault.bind_eq_ok.mp h
      cases h
      exact Memory.extent_putSlots rfl (SlotMap.shape_of (.reserve page) rfl hreserve)
  | holdSlot slot page =>
      obtain ⟨⟨result, slots⟩, hhold, h⟩ := Fault.bind_eq_ok.mp h
      cases h
      exact Memory.extent_putSlots rfl (SlotMap.shape_of (.hold slot page) rfl hhold)
  | settleSlot slot page =>
      obtain ⟨⟨result, slots⟩, hsettle, h⟩ := Fault.bind_eq_ok.mp h
      cases h
      exact Memory.extent_putSlots rfl (SlotMap.shape_of (.settle slot page) rfl hsettle)
  | releaseSlot slot =>
      obtain ⟨⟨result, slots⟩, hrelease, h⟩ := Fault.bind_eq_ok.mp h
      cases h
      exact Memory.extent_putSlots rfl (SlotMap.shape_of (.release slot) rfl hrelease)
  | releaseSlotIfOwned slot page =>
      obtain ⟨⟨result, slots⟩, hrelease, h⟩ := Fault.bind_eq_ok.mp h
      cases h
      exact Memory.extent_putSlots rfl (SlotMap.shape_of (.releaseIfOwned slot page) rfl hrelease)
  | releaseSlots space =>
      obtain ⟨⟨count, slots⟩, hrelease, h⟩ := Fault.bind_eq_ok.mp h
      cases h
      exact Memory.extent_putSlots rfl (SlotMap.shape_of (.releaseSpace space) rfl hrelease)
  | _ => exact leaves rfl

theorem Probe.perform_extent {loans : List Task.Loan} {p : Probe} {m m' : Memory} {o : Outcome}
    (h : p.perform loans m = .ok (o, m')) : m'.extent = m.extent := by
  rcases perform_cases h with ⟨-, -, rfl⟩ | ⟨-, h⟩
  · rfl
  · exact act_extent h

/-- What an event shows lies in the extent. -/
def Extent.Shows (x : Extent) : Event → Prop
  | .told _ slot _ => slot < x.slots
  | .answered _ op reply => x.Gives op reply

namespace Machine

variable {w w' : Machine} {move : Move} {events : List Event} {x : Extent}

/-- A machine of some extent whose calls keep to it. -/
structure Within (w : Machine) (x : Extent) : Prop where
  extent : w.memory.extent = x
  knows : ∀ c ∈ w.calls, x.Knows c.op c.task

/-- A piece that keeps to the extent leaves a machine that does. -/
theorem follow_within {op : Operation} {outer : List Call} {p : Task.Piece} (hp : p.Within x op)
    (houter : ∀ c ∈ outer, x.Knows c.op c.task) :
    (follow op outer p).1.Within x ∧ ∀ event ∈ (follow op outer p).2, x.Shows event := by
  refine ⟨⟨(follow_memory op outer p).symm ▸ hp.extent, forall_follow ?_ houter⟩, ?_⟩
  · intro t ht
    have hnext := hp.next
    rw [ht] at hnext
    exact hnext
  · rintro (⟨page, slot, c⟩ | ⟨n, o, r⟩) hevent
    · obtain ⟨e, hnext, -, rfl, -⟩ := told_of_follow hevent
      have hknows := hp.next
      rw [hnext] at hknows
      exact hknows.1
    · obtain ⟨hnext, rfl, -⟩ := answered_of_follow hevent
      have hgives := hp.next
      rw [hnext] at hgives
      exact hgives

/-- **Every move keeps to the extent.** -/
theorem step_within (hw : w.Within x) (h : w.step move = .ok (w', events)) :
    w'.Within x ∧ ∀ event ∈ events, x.Shows event := by
  cases move with
  | start op =>
      obtain ⟨p, hp, hfollow⟩ := start_cases h
      have hfollowed := follow_within (Task.start_within hw.extent hp) hw.knows
      rw [hfollow] at hfollowed
      exact hfollowed
  | resume =>
      rcases resume_cases h with ⟨-, rfl, rfl⟩ | ⟨call, outer, p, hcalls, hp, hfollow⟩
      · exact ⟨hw, fun _ he => nomatch he⟩
      · obtain ⟨hcall, houter⟩ := List.forall_mem_cons.mp (hcalls ▸ hw.knows)
        have hfollowed := follow_within (Task.resume_within hcall hw.extent hp) houter
        rw [hfollow] at hfollowed
        exact hfollowed
  | probe probe =>
      obtain ⟨outcome, m, hp, rfl, rfl⟩ := probe_cases h
      exact ⟨⟨(Probe.perform_extent hp).trans hw.extent, hw.knows⟩, fun _ he => nomatch he⟩

/-- **Whatever a run shows lies in the extent it began with.** -/
theorem run_within {rules : Machine → Move → Bool} {m : Memory} {moves : List Move}
    (h : (Machine.idle m).run rules moves = some (w, events)) :
    ∀ event ∈ events, m.extent.Shows event := by
  refine (run_induction (l := [])
    (P := fun w past => w.Within m.extent ∧ ∀ event ∈ past, m.extent.Shows event) ?_
    ⟨⟨rfl, List.forall_mem_nil _⟩, List.forall_mem_nil _⟩ h).2
  rintro w past move w' events ⟨hw, hpast⟩ - hstep
  obtain ⟨hw', hevents⟩ := step_within hw hstep
  exact ⟨hw', List.forall_mem_append.mpr ⟨hpast, hevents⟩⟩

end Machine

/-! ## What a configuration leads to -/

/-- A coremap that is laid out lies in the memory that was left, from the start of a frame on. -/
theorem Coremap.bootstrap_inside {boot after : BootAllocator} {policy : PlacementPolicy}
    {m : Coremap} {notices : List Notice}
    (h : bootstrap boot policy = .ok (.ok (m, notices), after)) :
    Address.isAligned m.base = true ∧ m.base + m.size * Address.frameSize ≤ boot.stop := by
  unfold bootstrap at h
  dsimp only at h
  split at h
  · exact nomatch h
  · split at h
    · exact nomatch h
    · next table left hsteal =>
        split at h
        · exact nomatch h
        · next hcount =>
            obtain ⟨made, hcreate, h⟩ := Fault.bind_eq_ok.mp h
            cases h
            unfold create at hcreate
            split at hcreate
            · next haligned =>
                cases hcreate
                refine ⟨haligned, ?_⟩
                have hstop := BootAllocator.steal_stop hsteal
                simp only [size, Array.size_replicate, BootAllocator.remaining,
                  Address.frameSize, descriptorSize] at hcount ⊢
                omega
            · cases hcreate

/-- **The extent of a memory system, by its configuration.** -/
theorem Memory.bootstrap_extent {config : MemoryConfig} {block : Block} {m : Memory}
    {notices : List Notice} (h : bootstrap config block = .ok (.ok (m, notices))) :
    Address.isAligned m.extent.base = true ∧
      m.extent.base + m.extent.frames * Address.frameSize ≤ config.ramEnd ∧
      m.extent.slots * Address.frameSize ≤ config.swap.capacity := by
  obtain ⟨boot, hboot, h⟩ := Fault.bind_eq_ok.mp h
  obtain ⟨⟨table, after⟩, htable, h⟩ := Fault.bind_eq_ok.mp h
  cases table with
  | error e => cases h
  | ok made =>
      cases h
      have hstop : boot.stop = config.ramEnd := BootAllocator.create_stop hboot
      obtain ⟨haligned, hinside⟩ := Coremap.bootstrap_inside htable
      have hslots : (SwapDevice.ofBlock block config.swap).slots ≤
          config.swap.capacity / Address.frameSize := Nat.min_le_left _ _
      refine ⟨haligned, hstop ▸ hinside, ?_⟩
      show (Array.replicate (SwapDevice.ofBlock block config.swap).slots none).size * _ ≤ _
      rw [Array.size_replicate]
      exact (Nat.le_div_iff_mul_le (by decide)).mp hslots

/-! ## The entries of what is handed out -/

namespace PageEntry

/-- A frame that begins below 4 GiB is encoded exactly. -/
theorem mapping?_of_hasFrame {x : Extent} {address : Nat}
    (haligned : Address.isAligned x.base = true)
    (hinside : x.base + x.frames * Address.frameSize ≤ Word.span 32) (h : x.HasFrame address) :
    ∃ e, mapping? address = some e ∧ e.frameAddress? = some address := by
  obtain ⟨i, hi, rfl⟩ := h
  have hlt : x.base + i * Address.frameSize < Word.span 32 := by
    have hbelow : (i + 1) * Address.frameSize ≤ x.frames * Address.frameSize :=
      Nat.mul_le_mul_right _ hi
    simp only [Address.frameSize] at hbelow hinside ⊢
    omega
  have hround : (x.base + i * Address.frameSize) / Address.frameSize * Address.frameSize =
      x.base + i * Address.frameSize := by
    refine Nat.div_mul_cancel (Nat.dvd_of_mod_eq_zero ?_)
    rw [Nat.add_mul_mod_self_right]
    exact beq_iff_eq.mp haligned
  refine ⟨_, mapping?_eq hlt, ?_⟩
  rw [(decode_home hlt).1, hround]

/-- What the kernel sees lies in its window. -/
theorem ofKernel?_shown (address : Nat) :
    Address.ofKernel? (address + Address.kernelBase) = some address := by
  rw [Address.ofKernel?, if_pos (Nat.le_add_left _ _), Nat.add_sub_cancel]

/-- **Entries encode all that is handed out.** An entry takes up a slot if and only if its number
fits into 20 bits. Then it names the slot and no frame, and all its bits but `present`, `accessed`,
`dirty`, `swapped` and the field are as they were. It takes up the frame at an address exactly below
4 GiB, and then names the frame and no slot. No entry at all names both.

So in a machine of at most 4 GiB, with at most 4 GiB for slots, whatever is done there and however
operations are interleaved: every address that an allocation or a page-in answers has an entry that
names it, also where it is answered as the kernel sees it, and every slot that the pager is told of
is named by every entry that takes it up. -/
theorem entries_encode_what_is_handed_out :
    (∀ (e : PageEntry) (slot : Nat), ((e.evicted? slot).isSome = true ↔ slot < 2 ^ 20) ∧
      ∀ away, e.evicted? slot = some away → away.slot? = some slot ∧ away.frameAddress? = none ∧
        ∀ i, i < 12 → (∀ flag ∈ [Flag.present, .accessed, .dirty, .swapped], i ≠ flag.place) →
          away.bit i = e.bit i) ∧
    (∀ address : Nat, ((mapping? address).isSome = true ↔ address < 2 ^ 32) ∧
      ∀ home, mapping? address = some home →
        home.frameAddress? = some (address / Address.frameSize * Address.frameSize) ∧
        home.slot? = none) ∧
    (∀ e : PageEntry, ¬ (e.frameAddress?.isSome = true ∧ e.slot?.isSome = true)) ∧
    ∀ (config : MemoryConfig) (block : Block) (m : Memory) (notices : List Notice)
      (rules : Machine → Move → Bool) (moves : List Move) (w : Machine) (events : List Event),
      config.ramEnd ≤ 2 ^ 32 → config.swap.capacity ≤ 2 ^ 32 →
      Memory.bootstrap config block = .ok (.ok (m, notices)) →
      (Machine.idle m).run rules moves = some (w, events) →
      (∀ outer kind count page address,
        .answered outer (.allocate kind count page) (.address (.ok address)) ∈ events →
          ∃ e, mapping? address = some e ∧ e.frameAddress? = some address) ∧
      (∀ outer page slot address,
        .answered outer (.pageIn page slot) (.address (.ok address)) ∈ events →
          ∃ e, mapping? address = some e ∧ e.frameAddress? = some address) ∧
      (∀ outer count seen, .answered outer (.allocateSeen count) (.address (.ok seen)) ∈ events →
        ∃ address e, Address.ofKernel? seen = some address ∧ mapping? address = some e ∧
          e.frameAddress? = some address) ∧
      ∀ page slot contents, .told page slot contents ∈ events →
        ∀ e : PageEntry, ∃ away, e.evicted? slot = some away ∧ away.slot? = some slot := by
  refine ⟨fun e slot => ⟨evicted?_isSome, fun away haway => ?_⟩,
    fun address => ⟨mapping?_isSome, fun home hhome => ?_⟩, fun e h => ?_, ?_⟩
  · have hslot : slot < Word.span 20 := evicted?_isSome.mp (Option.isSome_of_eq_some haway)
    cases (evicted?_eq hslot).symm.trans haway
    exact ⟨(decode_away hslot).1, (decode_away hslot).2,
      fun i hi hflags => bit_away e slot hi hflags⟩
  · have haddress : address < Word.span 32 := mapping?_isSome.mp (Option.isSome_of_eq_some hhome)
    cases (mapping?_eq haddress).symm.trans hhome
    exact decode_home haddress
  · rcases e.frameAddress?_or_slot? with hnone | hnone <;> simp [hnone] at h
  · intro config block m notices rules moves w events hram hcapacity hboot hrun
    obtain ⟨haligned, hinside, hslots⟩ := Memory.bootstrap_extent hboot
    have hshows := Machine.run_within hrun
    have hbelow : m.extent.base + m.extent.frames * Address.frameSize ≤ Word.span 32 :=
      Nat.le_trans hinside hram
    refine ⟨fun outer kind count page address hin => ?_, fun outer page slot address hin => ?_,
      fun outer count seen hin => ?_, fun page slot contents hin e => ?_⟩
    · obtain ⟨frame, hframe, rfl⟩ := hshows _ hin
      exact mapping?_of_hasFrame haligned hbelow hframe
    · obtain ⟨frame, hframe, rfl⟩ := hshows _ hin
      exact mapping?_of_hasFrame haligned hbelow hframe
    · obtain ⟨frame, hframe, rfl⟩ := hshows _ hin
      obtain ⟨e, hmapping, haddress⟩ := mapping?_of_hasFrame haligned hbelow hframe
      exact ⟨frame, e, ofKernel?_shown frame, hmapping, haddress⟩
    · have hslot : slot < m.extent.slots := hshows _ hin
      have hfits : slot < Word.span 20 := by
        have hall := Nat.le_trans hslots hcapacity
        simp only [Address.frameSize] at hall
        show slot < 2 ^ 20
        omega
      exact ⟨_, evicted?_eq hfits, (decode_away hfits).1⟩

/-- Three frames behind one of descriptors, and two slots: a page is given a frame and evicted. -/
theorem entries_encode_what_three_frames_hand_out :
    let config : MemoryConfig := { ramEnd := 20480, firstFree := 4096 }
    let block : Block := { kind := .swap, name := "disk", size := 16, drive := .blank 16 }
    let moves : List Move := .start (.allocate .user 1 (some ⟨1, 0⟩)) :: .start .evict ::
      List.replicate 9 .resume
    (config.ramEnd ≤ 2 ^ 32 ∧ config.swap.capacity ≤ 2 ^ 32) ∧ ∃ m notices w events c,
      Memory.bootstrap config block = .ok (.ok (m, notices)) ∧
      (Machine.idle m).run (fun _ _ => true) moves = some (w, events) ∧
      .answered 0 (.allocate .user 1 (some ⟨1, 0⟩)) (.address (.ok 8192)) ∈ events ∧
      (∃ e, mapping? 8192 = some e ∧ e.frameAddress? = some 8192) ∧
      .told ⟨1, 0⟩ 0 c ∈ events ∧
      ∀ e : PageEntry, ∃ away, e.evicted? 0 = some away ∧ away.slot? = some 0 := by
  intro config block moves
  have hseen : (match Memory.bootstrap config block with
      | .ok (.ok (m, _)) => ((Machine.idle m).run (fun _ _ => true) moves).map fun r =>
          (r.2.head?, r.2.any (Machine.tells ⟨1, 0⟩ 0))
      | .ok (.error _) => none
      | .error _ => none) =
      some (some (.answered 0 (.allocate .user 1 (some ⟨1, 0⟩)) (.address (.ok 8192))), true) := by
    decide +kernel
  split at hseen
  · next m notices hboot =>
      obtain ⟨⟨w, events⟩, hrun, hevents⟩ := Option.map_eq_some_iff.mp hseen
      obtain ⟨hhead, htold⟩ := Prod.mk.inj hevents
      have hanswered := List.mem_of_head? hhead
      obtain ⟨c, hc⟩ := Machine.told_of_any htold
      obtain ⟨haddress, -, -, hslot⟩ := entries_encode_what_is_handed_out.2.2.2 config block m
        notices _ moves w events (by decide) (by decide) hboot hrun
      exact ⟨⟨by decide, by decide⟩, m, notices, w, events, c, hboot, hrun, hanswered,
        haddress _ _ _ _ _ hanswered, hc, hslot _ _ _ hc⟩
  · cases hseen
  · cases hseen

end PageEntry

end PhysMem
