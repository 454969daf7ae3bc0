import PhysMem.Proofs.Atomicity

/-!
# Page-ins alone — what they have done so far

A page-in that is left alone holds its slot, makes room, reads the slot into a frame that it has
pinned, overwrites the slot if so configured, releases it and puts the frame on the chain. When it
fails, at any of the sectors or before there was room, it gives back the frame and lets go of the
slot, and what stays is at most the eviction that made room.

* **`MakesRoom`** is the memory once there may be room: the slot is held, and at most the oldest
  frame was evicted. **`MakesRoom.gaveUp`** lets go of the slot again.
* **`GaveUp`** and **`BroughtBack`** are the two ends.
* **`FillStage`** says of each call-out of a filling what has been done so far, and
  **`fillStage_of_performs`** that a page-in alone goes through these stages.
-/

namespace PhysMem

open SlotMap

namespace Memory

/-- Apart from these slots nothing has happened to any slot, neither to what is known of it nor to
what it holds. -/
def KeepsSlots (m : Memory) (slots : Nat → Prop) (n : Memory) : Prop :=
  ∀ x, ¬ slots x → n.swap.slots.state? x = m.swap.slots.state? x ∧
    n.swap.device.stored x = m.swap.device.stored x

/-- Apart from this slot, at most one slot is not as it was: it was free and has got the page of the
oldest frame, with what the frame held. -/
def FillsAtMost (m : Memory) (slot : Nat) (n : Memory) : Prop :=
  m.KeepsSlots (· = slot) n ∨
    ∃ frame page x, m.coremap.oldest = some frame ∧ m.coremap.HasRole frame (.resident page) ∧
      x ≠ slot ∧ m.swap.slots.state? x = none ∧ n.swap.slots.state? x = some (page, .idle) ∧
      (∀ i : Place, n.swap.device.stored x i = some ((m.contents frame).get i)) ∧
      m.KeepsSlots (fun y => y = slot ∨ y = x) n

/-- At most one eviction, of the oldest frame, has been done to the coremap and the slot map. -/
def EvictsAtMost (m : Memory) (coremap : Coremap) (slots : SlotMap) : Prop :=
  coremap = m.coremap ∧ slots = m.swap.slots ∨
    ∃ frame page slot, m.coremap.oldest = some frame ∧ m.coremap.Evicts frame page coremap ∧
      m.swap.slots.Fills page slot slots

/-- A page-in has failed: the slot is the page's as before, no slot that was used holds anything
else, and coremap and slot map are as before but for at most one eviction and the place where the
next search begins. So no frame is used that was not. -/
structure GaveUp (m : Memory) (page : Page) (slot : Nat) (n : Memory) : Prop where
  held : n.swap.slots.state? slot = some (page, .idle)
  stored : ∀ x, m.swap.slots.state? x ≠ none → n.swap.device.stored x = m.swap.device.stored x
  evicts : ∃ coremap, m.EvictsAtMost coremap n.swap.slots ∧
    n.coremap = { coremap with placement := n.coremap.placement }
  unclaimed : ∀ i r, n.coremap.HasRole i r → r ≠ .free → m.coremap.HasRole i r

/-- The frame at the address is the page's and the newest of the chain. -/
structure NewestAt (m : Memory) (page : Page) (address i : Nat) : Prop where
  placed : m.coremap.indexOf? address = some i
  resident : m.coremap.HasRole i (.resident page)
  newest : m.coremap.newest = some i
  last : m.coremap.chain.getLast? = some i

/-- A page-in has succeeded: the frame at the address is the page's and the newest of the chain, it
has the bytes of the slot, and the slot is free. At most one other slot is not as it was, which was
free and has got the page of the oldest frame. -/
structure BroughtBack (m : Memory) (page : Page) (slot address : Nat) (p : Task.Piece) : Prop where
  frame : ∃ i, p.memory.NewestAt page address i
  contents : ∃ c, p.memory.contentsAt address = .ok c ∧
    ∀ i : Place, m.swap.device.stored slot i = some (c.get i)
  free : p.memory.swap.slots.state? slot = none
  /-- If slots are overwritten and no write was reported to have failed, the slot is zero. -/
  scrubbed : m.swap.scrub = true → (∀ e, .cannotScrub slot e ∉ p.notices) →
    ∀ i : Place, p.memory.swap.device.stored slot i = some .zero
  slots : m.FillsAtMost slot p.memory

variable {m n r : Memory} {page : Page} {slot : Nat} {d : SwapDevice}

theorem KeepsSlots.putDevice {slots : Nat → Prop} (h : m.KeepsSlots slots n)
    (hd : n.swap.device.Touches (fun _ => False) d) : m.KeepsSlots slots (n.putDevice d) :=
  fun x hx => ⟨(h x hx).1, (hd.stored x id).trans (h x hx).2⟩

theorem FillsAtMost.putDevice (h : m.FillsAtMost slot n)
    (hd : n.swap.device.Touches (fun _ => False) d) : m.FillsAtMost slot (n.putDevice d) := by
  rcases h with h | ⟨frame, q, x, hold, hres, hne, hfree, hidle, hstored, h⟩
  · exact Or.inl (h.putDevice hd)
  · exact Or.inr ⟨frame, q, x, hold, hres, hne, hfree, hidle,
      fun i => (congrFun (hd.stored x id) i).trans (hstored i), h.putDevice hd⟩

/-! ## Room -/

/-- The slot is held for the page, and at most one frame has been evicted. -/
inductive MakesRoom (m : Memory) (page : Page) (slot : Nat) : Memory → Prop
  | spare {held : SlotMap} (hold : m.swap.slots.hold slot page = .ok (true, held)) :
      MakesRoom m page slot (m.putSlots held)
  | evicted {held : SlotMap} {frame x : Nat} {q : Page} {r : Memory}
      (hold : m.swap.slots.hold slot page = .ok (true, held))
      (h : (m.putSlots held).Evicted frame q x r) : MakesRoom m page slot r

/-- A slot that is held, before anything else happens. -/
theorem held_sound {held : SlotMap} (ha : m.swap.Sound)
    (hold : m.swap.slots.hold slot page = .ok (true, held)) : (m.putSlots held).swap.Sound := by
  obtain ⟨-, hset⟩ := hold_true ha.slots hold
  exact ⟨hset.sound, ha.fits, hset.capacity.trans ha.capacity⟩

/-- What is free while the slot is held was free before. -/
theorem held_state {held : SlotMap} (ha : m.swap.Sound)
    (hold : m.swap.slots.hold slot page = .ok (true, held)) (x : Nat) :
    held.state? x = none ↔ m.swap.slots.state? x = none := by
  obtain ⟨hidle, hset⟩ := hold_true ha.slots hold
  by_cases hx : x = slot
  · rw [hx, hset.self, hidle]
    exact ⟨nofun, nofun⟩
  · rw [hset.other hx]

/-- The slot that is held is not the one that is filled. -/
theorem held_ne {held : SlotMap} {frame x : Nat} {q : Page} (ha : m.swap.Sound)
    (hold : m.swap.slots.hold slot page = .ok (true, held))
    (h : (m.putSlots held).Evicted frame q x r) : x ≠ slot := by
  rintro rfl
  obtain ⟨hidle, -⟩ := hold_true ha.slots hold
  have hfree := (held_state ha hold x).mp (h.slots.spec (held_sound ha hold).slots).1
  exact nomatch hfree.symm.trans hidle

namespace MakesRoom

theorem exact (hm : m.coremap.Exact) (h : m.MakesRoom page slot r) : r.coremap.Exact := by
  cases h with
  | spare hold => exact hm
  | evicted hold h => exact h.coremap.exact hm

theorem area (ha : m.swap.Sound) (h : m.MakesRoom page slot r) : r.swap.Sound := by
  cases h with
  | spare hold => exact held_sound ha hold
  | evicted hold h =>
      have hs := held_sound ha hold
      obtain ⟨-, hset⟩ := h.slots.spec hs.slots
      exact ⟨hset.sound, hs.fits.of_layout h.device.layout,
        (hset.capacity.trans hs.capacity).trans h.device.layout.slots.symm⟩

theorem ram (h : m.MakesRoom page slot r) : r.ram = m.ram := by
  cases h with
  | spare hold => rfl
  | evicted hold h => exact h.ram

theorem scrub (h : m.MakesRoom page slot r) : r.swap.scrub = m.swap.scrub := by
  cases h with
  | spare hold => rfl
  | evicted hold h => exact h.scrub

theorem size (hm : m.coremap.Sound) (h : m.MakesRoom page slot r) :
    r.coremap.size = m.coremap.size := by
  cases h with
  | spare hold => rfl
  | evicted hold h => exact (h.coremap.spec hm).2.2.2.size

/-- No frame is used that was not used before. -/
theorem used {i : Nat} {role : FrameRole} (hm : m.coremap.Sound) (h : m.MakesRoom page slot r)
    (hr : r.coremap.HasRole i role) (hne : role ≠ .free) : m.coremap.HasRole i role := by
  cases h with
  | spare hold => exact hr
  | @evicted held frame x q _ hold h =>
      obtain ⟨-, -, -, hput⟩ := h.coremap.spec hm
      by_cases hi : i = frame
      · rw [hi] at hr
        exact absurd (hr.unique hput.role_self) hne
      · exact (hput.role_other hi).mp hr

theorem held (ha : m.swap.Sound) (h : m.MakesRoom page slot r) :
    r.swap.slots.state? slot = some (page, .busy) := by
  cases h with
  | spare hold => exact (hold_true ha.slots hold).2.self
  | evicted hold h =>
      obtain ⟨-, hfills⟩ := h.slots.spec (held_sound ha hold).slots
      rw [hfills.other (held_ne ha hold h).symm]
      exact (hold_true ha.slots hold).2.self

/-- Slots that were used hold what they held. -/
theorem stored (ha : m.swap.Sound) (h : m.MakesRoom page slot r) {x : Nat}
    (hx : m.swap.slots.state? x ≠ none) : r.swap.device.stored x = m.swap.device.stored x := by
  cases h with
  | spare hold => rfl
  | evicted hold h =>
      refine h.device.stored x ?_
      rintro rfl
      exact hx ((held_state ha hold x).mp (h.slots.spec (held_sound ha hold).slots).1)

theorem stored_slot (ha : m.swap.Sound) (h : m.MakesRoom page slot r) :
    r.swap.device.stored slot = m.swap.device.stored slot := by
  refine h.stored ha ?_
  have hidle : m.swap.slots.state? slot = some (page, .idle) := by
    cases h with
    | spare hold => exact (hold_true ha.slots hold).1
    | evicted hold h => exact (hold_true ha.slots hold).1
  rw [hidle]
  exact nofun

/-- **Letting go of the slot** leaves at most one eviction. -/
theorem gaveUp {b : Bool} (hm : m.coremap.Exact) (ha : m.swap.Sound) (h : m.MakesRoom page slot r)
    (hcoremap : n.coremap = { r.coremap with placement := n.coremap.placement })
    (hsettle : r.swap.slots.settle slot page = .ok (b, n.swap.slots))
    (hstored : ∀ x, m.swap.slots.state? x ≠ none →
      n.swap.device.stored x = r.swap.device.stored x) : m.GaveUp page slot n := by
  refine ⟨?_, ?_, ⟨r.coremap, ?_, hcoremap⟩, ?_⟩
  · exact (settle_live (h.area ha).slots (h.held ha) nofun hsettle).2.self
  · intro x hx
    rw [hstored x hx, h.stored ha hx]
  · cases h with
    | spare hold => exact Or.inl ⟨rfl, settle_undoes_hold ha.slots hold hsettle⟩
    | evicted hold h =>
        obtain ⟨holdest, -⟩ := h.coremap.spec hm.toSound
        exact Or.inr ⟨_, _, _, holdest, h.coremap, .of_held ha.slots hold h.slots hsettle⟩
  · intro i role hr hne
    refine h.used hm.toSound ?_ hne
    rw [hcoremap] at hr
    exact hr

/-- **Releasing the slot** leaves at most one other that is not as it was. -/
theorem released (hm : m.coremap.Sound) (ha : m.swap.Sound) (h : m.MakesRoom page slot r)
    (hset : r.swap.slots.Sets slot none n.swap.slots)
    (hdevice : r.swap.device.Touches (· = slot) n.swap.device) : m.FillsAtMost slot n := by
  cases h with
  | spare hold =>
      refine Or.inl fun x hx => ⟨?_, hdevice.stored x hx⟩
      rw [hset.other hx]
      exact (hold_true ha.slots hold).2.other hx
  | @evicted held frame x q _ hold h =>
      obtain ⟨hfree, hfills⟩ := h.slots.spec (held_sound ha hold).slots
      obtain ⟨holdest, hres, -⟩ := h.coremap.spec hm
      have hne := held_ne ha hold h
      refine Or.inr ⟨frame, q, x, holdest, hres, hne, (held_state ha hold x).mp hfree, ?_, ?_, ?_⟩
      · rw [hset.other hne]
        exact hfills.self
      · intro i
        rw [hdevice.stored x hne]
        exact h.stored i
      · intro y hy
        obtain ⟨hslot, hx⟩ := not_or.mp hy
        refine ⟨?_, ?_⟩
        · rw [hset.other hslot, hfills.other hx]
          exact (hold_true ha.slots hold).2.other hslot
        · rw [hdevice.stored y hslot]
          exact h.device.stored y hx

end MakesRoom

/-- The memory with its coremap, what its frames hold and its swap device replaced. -/
def putFrames (m : Memory) (coremap : Coremap) (ram : Array Contents) (device : SwapDevice) :
    Memory :=
  { m with coremap, ram, swap := { m.swap with device } }

end Memory

/-! ## Stages -/

/-- A transfer of a sector of the slots fails for what the block says. -/
theorem SwapDevice.readRefusal?_io {d : SwapDevice} {slot i : Nat} {e : SwapError}
    (hslot : slot < d.slots) (h : d.readRefusal? slot i = .ok (some e)) :
    ∃ cause, e = .io cause := by
  unfold readRefusal? at h
  rw [if_neg (Nat.not_le_of_lt hslot)] at h
  obtain ⟨sector, -, h⟩ := Fault.bind_eq_ok.mp h
  obtain ⟨cause, -, he⟩ := Option.map_eq_some_iff.mp (Except.ok.inj h)
  exact ⟨cause, he.symm⟩

theorem SwapDevice.fetch_io {d d' : SwapDevice} {slot i : Nat} {e : SwapError}
    (h : d.fetch slot i = .ok (.error e, d')) : ∃ cause, e = .io cause := by
  obtain ⟨sector, -, h⟩ := Fault.bind_eq_ok.mp h
  obtain ⟨⟨answer, block⟩, -, h⟩ := Fault.bind_eq_ok.mp h
  cases answer with
  | ok data => exact nomatch h
  | error cause =>
      cases h
      exact ⟨cause, rfl⟩

namespace Task

/-- There was room, frame `i` has been claimed for the page, and of the slots only its own may have
been touched since. -/
structure Arriving (m : Memory) (page : Page) (slot i address : Nat) (r : Memory) (c : Coremap)
    (ram : Array Contents) (d : SwapDevice) : Prop where
  room : m.MakesRoom page slot r
  claimed : r.coremap.claimPinned page = .ok (some i, c)
  placed : c.indexOf? address = some i
  size : ram.size = m.ram.size
  device : r.swap.device.Touches (· = slot) d

/-- The first sectors of the slot are these. -/
def Fetched (m : Memory) (slot : Nat) (bytes : Contents) (n : Nat) : Prop :=
  ∀ j : Place, j.val < n → m.swap.device.stored slot j = some (bytes.get j)

/-- The first sectors of the slot are zero. -/
def Zeroed (d : SwapDevice) (slot n : Nat) : Prop :=
  ∀ j : Place, j.val < n → d.stored slot j = some .zero

/-- How far a page-in alone has come that has a frame, and how it ends. -/
inductive FillStage (m : Memory) (page : Page) (slot : Nat) : Piece → Prop
  | mapping {i address : Nat} {r : Memory} {c : Coremap} {ram : Array Contents} {d : SwapDevice}
      {notices : List Notice} (h : Arriving m page slot i address r c ram d)
      (hunread : d.stored slot = m.swap.device.stored slot) :
      FillStage m page slot
        ⟨r.putFrames c ram d, notices, .callOut (.fillMapping ⟨i, address, slot, some page⟩)⟩
  | reading {i address : Nat} {r : Memory} {c : Coremap} {ram : Array Contents} {d : SwapDevice}
      {notices : List Notice} {k : Place} (h : Arriving m page slot i address r c ram d)
      (hunread : d.stored slot = m.swap.device.stored slot)
      (hread : Fetched m slot (ram[i]?.getD .zero) k) :
      FillStage m page slot
        ⟨r.putFrames c ram d, notices, .callOut (.fillReading ⟨i, address, slot, some page⟩ k)⟩
  | scrubbing {i address : Nat} {r : Memory} {c : Coremap} {ram : Array Contents} {d : SwapDevice}
      {notices : List Notice} {k : Place} (h : Arriving m page slot i address r c ram d)
      (hread : Fetched m slot (ram[i]?.getD .zero) sectorsPerFrame) (hzero : Zeroed d slot k) :
      FillStage m page slot
        ⟨r.putFrames c ram d, notices, .callOut (.fillScrubbing ⟨i, address, slot, some page⟩ k)⟩
  | failed {n : Memory} {notices : List Notice} {e : FrameError}
      (he : e ≠ .restoreFailed (.invalidSlot slot)) (h : m.GaveUp page slot n) :
      FillStage m page slot ⟨n, notices, .reply (.address (.error e))⟩
  | full {n : Memory} {notices : List Notice} {address : Nat}
      (h : m.BroughtBack page slot address ⟨n, notices, .reply (.address (.ok address))⟩) :
      FillStage m page slot ⟨n, notices, .reply (.address (.ok address))⟩

variable {m r : Memory} {page : Page} {slot i address : Nat} {c : Coremap} {ram : Array Contents}
  {d : SwapDevice} {p q : Piece} {k : Place} {notices : List Notice}

namespace Arriving

theorem touches {d' : SwapDevice} (h : Arriving m page slot i address r c ram d)
    (hd : d.Touches (· = slot) d') : Arriving m page slot i address r c ram d' :=
  ⟨h.room, h.claimed, h.placed, h.size, h.device.trans hd⟩

/-- The slot is one of the device's, whose sectors are computed exactly. -/
theorem proper (ha : m.swap.Sound) (h : Arriving m page slot i address r c ram d) :
    d.Fits ∧ slot < d.slots := by
  have hs := h.room.area ha
  refine ⟨hs.fits.of_layout h.device.layout, ?_⟩
  rw [h.device.layout.slots, ← hs.capacity]
  exact lt_capacity_of_owner (owner_of_state? (h.room.held ha))

/-- The frame is pinned for the page. -/
theorem pinned (hm : m.coremap.Exact) (h : Arriving m page slot i address r c ram d) :
    c.Sound ∧ c.size = m.coremap.size ∧ c.HasRole i (.transit true page false) := by
  obtain ⟨hsound, ⟨hnone, -⟩ | ⟨i', hi, -, hput⟩⟩ :=
    (h.room.exact hm).toSound.claimPinned h.claimed
  · exact nomatch hnone
  · cases hi
    exact ⟨hsound, hput.size.trans (h.room.size hm.toSound), hput.role_self⟩

end Arriving

/-- **A filling that cannot read its slot gives up.** -/
theorem fillFailed_stage {e : SwapError} (hm : m.coremap.Exact) (ha : m.swap.Sound)
    (h : Arriving m page slot i address r c ram d)
    (hunread : d.stored slot = m.swap.device.stored slot) (he : ∃ cause, e = .io cause)
    (hp : fillFailed (r.putFrames c ram d) ⟨i, address, slot, some page⟩ e = .ok p) :
    FillStage m page slot p := by
  cases fillFailed_cases hp with
  | restore hpage => exact nomatch hpage
  | pageIn _ c' s hpage hdiscard hsettle =>
      cases hpage
      obtain ⟨cause, rfl⟩ := he
      have hback := (h.room.exact hm).discard_undoes_claim h.claimed hdiscard
      refine .failed nofun (h.room.gaveUp hm ha ?_ hsettle fun x hx => ?_)
      · show c' = { r.coremap with placement := c'.placement }
        rw [hback]
      · by_cases hslot : x = slot
        · rw [hslot, h.room.stored_slot ha]
          exact hunread
        · exact h.device.stored x hslot

/-- **A filling that has read its slot succeeds**: nobody has given its frame up. -/
theorem filled_stage (hm : m.coremap.Exact) (ha : m.swap.Sound)
    (h : Arriving m page slot i address r c ram d)
    (hread : Fetched m slot (ram[i]?.getD .zero) sectorsPerFrame)
    (hzero : m.swap.scrub = true → (∀ e, .cannotScrub slot e ∉ notices) →
      Zeroed d slot sectorsPerFrame)
    (hp : filled (r.putFrames c ram d) notices ⟨i, address, slot, some page⟩ = .ok p) :
    FillStage m page slot p := by
  cases filled_cases hp with
  | unreleased hpage => exact nomatch hpage
  | restored hpage => exact nomatch hpage
  | broughtBack _ onChain s c' hpage hrelease hunpin =>
      cases hpage
      have hset : r.swap.slots.Sets slot none s := by
        rcases releaseIfOwned_ok (h.room.area ha).slots hrelease with ⟨hother, -⟩ | ⟨-, -, hset⟩
        · exact absurd (owner_of_state? (h.room.held ha)) hother
        · exact hset
      obtain ⟨hc, -, hpinned⟩ := h.pinned hm
      obtain ⟨hc', page', orphaned, hrole, hon, hput⟩ := hc.unpin hunpin
      have hsame := hpinned.unique hrole
      injection hsame with _ hpage horphaned
      subst hpage
      subst horphaned
      obtain rfl : onChain = true := hon
      obtain ⟨l, hl, -⟩ := hc.chain
      have hnewest : c'.Linked (l ++ [i]) := hc.unpin_requeue hl hunpin
      have hplaced : c'.indexOf? address = some i := (hput.indexOf? address).trans h.placed
      refine .full ⟨⟨i, hplaced, hput.role_self, ?_, ?_⟩, ⟨ram[i]?.getD .zero, ?_, ?_⟩, hset.self,
        ?_, ?_⟩
      · show c'.newest = some i
        rw [hnewest.newest, List.getLast?_concat]
      · show c'.chain.getLast? = some i
        rw [hnewest.chain, List.getLast?_concat]
      · unfold Memory.contentsAt
        rw [show Coremap.indexOf? _ address = some i from hplaced]
        rfl
      · exact fun j => hread j j.isLt
      · intro hscrub hno j
        exact hzero hscrub (fun e he => hno e (List.mem_append_left _ he)) j j.isLt
      · exact h.room.released hm.toSound ha hset h.device

theorem scrubAt_stage (hm : m.coremap.Exact) (ha : m.swap.Sound)
    (h : Arriving m page slot i address r c ram d)
    (hread : Fetched m slot (ram[i]?.getD .zero) sectorsPerFrame) (hzero : Zeroed d slot k)
    (hp : scrubAt (r.putFrames c ram d) ⟨i, address, slot, some page⟩ k = .ok p) :
    FillStage m page slot p := by
  cases scrubAt_cases hp with
  | refused _ hp =>
      refine filled_stage hm ha h hread (fun _ hno => ?_) hp
      exact absurd List.mem_cons_self (hno _)
  | ready => exact .scrubbing h hread hzero

theorem scrubNow_stage (hm : m.coremap.Exact) (ha : m.swap.Sound)
    (h : Arriving m page slot i address r c ram d)
    (hread : Fetched m slot (ram[i]?.getD .zero) sectorsPerFrame) (hzero : Zeroed d slot k)
    (hp : scrubNow (r.putFrames c ram d) ⟨i, address, slot, some page⟩ k = .ok p) :
    FillStage m page slot p := by
  obtain ⟨hfits, hlt⟩ := h.proper ha
  -- one sector more is zero
  have hmore {d' : SwapDevice} {u : Unit} (hstore : d.store slot k .zero = .ok (.ok u, d')) :
      Zeroed d' slot (k + 1) := by
    obtain ⟨-, hother, hwritten, -⟩ := SwapDevice.store_ok hfits hlt hstore
    refine forall_place_lt_succ (hwritten rfl) fun j hj => ?_
    rw [hother slot j fun hx => Nat.ne_of_lt hj (congrArg Fin.val hx.2)]
    exact hzero j hj
  cases scrubNow_cases hp with
  | failed d' hstore hp =>
      refine filled_stage hm ha (h.touches (.of_store hfits hlt hstore)) hread
        (fun _ hno => ?_) hp
      exact absurd List.mem_cons_self (hno _)
  | next d' _ hstore hnext hp =>
      refine scrubAt_stage hm ha (h.touches (.of_store hfits hlt hstore)) hread ?_ hp
      rw [nextPlace_eq_some hnext]
      exact hmore hstore
  | last d' _ hstore hnext hp =>
      refine filled_stage hm ha (h.touches (.of_store hfits hlt hstore)) hread
        (fun _ _ j _ => ?_) hp
      exact hmore hstore j (lt_of_nextPlace_eq_none hnext j)

theorem readAt_stage (hm : m.coremap.Exact) (ha : m.swap.Sound)
    (h : Arriving m page slot i address r c ram d)
    (hunread : d.stored slot = m.swap.device.stored slot)
    (hread : Fetched m slot (ram[i]?.getD .zero) k)
    (hp : readAt (r.putFrames c ram d) ⟨i, address, slot, some page⟩ k = .ok p) :
    FillStage m page slot p := by
  cases readAt_cases hp with
  | refused hrefusal hp =>
      exact fillFailed_stage hm ha h hunread
        (SwapDevice.readRefusal?_io (h.proper ha).2 hrefusal) hp
  | ready => exact .reading h hunread hread

theorem slotRead_stage (hm : m.coremap.Exact) (ha : m.swap.Sound)
    (h : Arriving m page slot i address r c ram d)
    (hread : Fetched m slot (ram[i]?.getD .zero) sectorsPerFrame)
    (hp : slotRead false (r.putFrames c ram d) ⟨i, address, slot, some page⟩ = .ok p) :
    FillStage m page slot p := by
  rcases slotRead_cases hp with ⟨-, -, hp⟩ | ⟨hno, hp⟩
  · exact scrubAt_stage hm ha h hread (fun j hj => absurd hj (Nat.not_lt_zero _)) hp
  · refine filled_stage hm ha h hread (fun hscrub _ => ?_) hp
    rw [← h.room.scrub] at hscrub
    exact nomatch hno.symm.trans hscrub

theorem readNow_stage (hm : m.coremap.Exact) (ha : m.swap.Sound)
    (hram : m.ram.size = m.coremap.size) (h : Arriving m page slot i address r c ram d)
    (hunread : d.stored slot = m.swap.device.stored slot)
    (hread : Fetched m slot (ram[i]?.getD .zero) k)
    (hp : readNow false (r.putFrames c ram d) ⟨i, address, slot, some page⟩ k = .ok p) :
    FillStage m page slot p := by
  obtain ⟨hfits, hlt⟩ := h.proper ha
  have hfetched {answer : Except SwapError Sector} {d' : SwapDevice}
      (hfetch : d.fetch slot k = .ok (answer, d')) :
      Arriving m page slot i address r c ram d' ∧ d'.stored slot = m.swap.device.stored slot := by
    obtain ⟨hlayout, hsame, -⟩ := SwapDevice.fetch_ok hfits hlt hfetch
    exact ⟨h.touches ⟨hlayout, fun x _ => hsame x⟩, (hsame slot).trans hunread⟩
  have hi : i < ram.size := by
    rw [h.size, hram, ← (h.pinned hm).2.1]
    exact Coremap.lt_size_of_indexOf? h.placed
  have hput {d' : SwapDevice} {data : Sector} (h : Arriving m page slot i address r c ram d') :
      Arriving m page slot i address r c
        (ram.setIfInBounds i ((ram[i]?.getD .zero).set k data)) d' :=
    ⟨h.room, h.claimed, h.placed, Array.size_setIfInBounds.trans h.size, h.device⟩
  -- one sector more is in the frame
  have hmore {data : Sector} {d' : SwapDevice} (hfetch : d.fetch slot k = .ok (.ok data, d')) :
      Fetched m slot ((ram.setIfInBounds i ((ram[i]?.getD .zero).set k data))[i]?.getD .zero)
        (k + 1) := by
    obtain ⟨-, -, hdata⟩ := SwapDevice.fetch_ok hfits hlt hfetch
    rw [Array.getElem?_setIfInBounds_self_of_lt hi]
    refine forall_place_lt_succ ?_ fun j hj => ?_
    · rw [← hunread, hdata data rfl]
      exact congrArg some (Vector.getElem_set_self k.isLt).symm
    · rw [hread j hj]
      exact congrArg some (Vector.getElem_set_ne k.isLt j.isLt (Nat.ne_of_gt hj)).symm
  cases readNow_cases hp with
  | failed d' hfetch hp =>
      obtain ⟨h', hunread'⟩ := hfetched hfetch
      exact fillFailed_stage hm ha h' hunread' (SwapDevice.fetch_io hfetch) hp
  | next d' data hfetch hnext hp =>
      obtain ⟨h', hunread'⟩ := hfetched hfetch
      refine readAt_stage hm ha (hput h') hunread' ?_ hp
      rw [nextPlace_eq_some hnext]
      exact hmore hfetch
  | last d' data hfetch hnext hp =>
      obtain ⟨h', -⟩ := hfetched hfetch
      refine slotRead_stage hm ha (hput h') (fun j _ => hmore hfetch j ?_) hp
      exact lt_of_nextPlace_eq_none hnext j

/-- The stages of a filling follow each other. -/
theorem FillStage.resumed {t : Task} {p' : Piece} (hm : m.coremap.Exact) (ha : m.swap.Sound)
    (hram : m.ram.size = m.coremap.size) (h : FillStage m page slot p) (hn : p.next = .callOut t)
    (hp : resume false p.memory t = .ok p') : FillStage m page slot p' := by
  cases h with
  | mapping h hunread =>
      cases hn
      refine readAt_stage hm ha h hunread (fun j hj => ?_) (resume_fillMapping hp).2
      exact absurd hj (Nat.not_lt_zero _)
  | reading h hunread hread =>
      cases hn
      exact readNow_stage hm ha hram h hunread hread hp
  | scrubbing h hread hzero =>
      cases hn
      exact scrubNow_stage hm ha h hread hzero hp
  | failed he h => exact nomatch hn
  | full h => exact nomatch hn

/-- A fault of the drive takes a filling nowhere. -/
theorem FillStage.faulted {probe : Probe} {o : Outcome} {n : Memory}
    (h : FillStage m page slot p) (hfault : probe.isFault = true)
    (hn : probe.act p.memory = .ok (o, n)) : FillStage m page slot { p with memory := n } := by
  obtain ⟨d', rfl, hd⟩ := Probe.act_fault hfault hn
  have spared : ∀ x, d'.stored x = p.memory.swap.device.stored x := fun x => hd.stored x id
  have touches : p.memory.swap.device.Touches (· = slot) d' := hd.mono fun _ hx => hx.elim
  cases h with
  | @mapping i address r c ram _ _ h hunread =>
      show FillStage m page slot ⟨r.putFrames c ram d', _, _⟩
      exact .mapping (h.touches touches) ((spared slot).trans hunread)
  | @reading i address r c ram _ _ _ h hunread hread =>
      show FillStage m page slot ⟨r.putFrames c ram d', _, _⟩
      exact .reading (h.touches touches) ((spared slot).trans hunread) hread
  | @scrubbing i address r c ram _ _ _ h hread hzero =>
      show FillStage m page slot ⟨r.putFrames c ram d', _, _⟩
      refine .scrubbing (h.touches touches) hread fun j hj => ?_
      rw [spared]
      exact hzero j hj
  | failed he h =>
      refine .failed he ⟨h.held, fun x hx => ?_, h.evicts, h.unclaimed⟩
      exact (spared x).trans (h.stored x hx)
  | @full n _ address h =>
      obtain ⟨i, hplaced, hres, hnewest, hlast⟩ := h.frame
      refine .full ⟨⟨i, hplaced, hres, hnewest, hlast⟩, h.contents, h.free,
        fun hscrub hno j => ?_, h.slots.putDevice hd⟩
      exact (congrFun (spared slot) j).trans (h.scrubbed hscrub hno j)

/-- Notices that came before say nothing more. -/
theorem FillStage.behind (h : FillStage m page slot p) (before : List Notice) :
    FillStage m page slot { p with notices := before ++ p.notices } := by
  cases h with
  | mapping h hunread => exact .mapping h hunread
  | reading h hunread hread => exact .reading h hunread hread
  | scrubbing h hread hzero => exact .scrubbing h hread hzero
  | failed he h => exact .failed he h
  | full h =>
      refine .full ⟨h.frame, h.contents, h.free, fun hscrub hno => ?_, h.slots⟩
      exact h.scrubbed hscrub fun e he => hno e (List.mem_append_right _ he)

/-- **A filling alone goes through these stages.** -/
theorem Leads.fillStage (hm : m.coremap.Exact) (ha : m.swap.Sound)
    (hram : m.ram.size = m.coremap.size) (h : FillStage m page slot p) (hlead : Leads p q) :
    FillStage m page slot q := by
  refine hlead.keeps (P := FillStage m page slot) h ?_ ?_
  · intro q r t hq hn hr
    exact (hq.resumed hm ha hram hn hr).behind q.notices
  · intro q probe o n hq hfault hn
    exact hq.faulted hfault hn

end Task

end PhysMem
