import PhysMem.Proofs.Alone
import PhysMem.Proofs.Undo

/-!
# Evictions alone — all or nothing

An eviction that is left alone either succeeds or leaves the coremap, the slot map and the counters
exactly as they were: the frame is back at the oldest end of the chain, the slot it had reserved is
free again, and all that it may have written lies in that slot. This holds for every length of the
chain and wherever the eviction fails, at the reservation or at any sector.

* **`Evicted`** is what an eviction that succeeds has done, **`Unchanged`** what one that fails
  leaves.
* **`EvictStage`** says of each call-out what has been done so far, **`evictStage_of_performs`** that
  an eviction alone goes through these stages.
* **`WantStage`** and **`Leads.wantStage`** take an eviction that makes room apart.
-/

namespace PhysMem

/-- Both devices lie alike, and apart from these slots both hold the same. -/
structure SwapDevice.Touches (d : SwapDevice) (slots : Nat → Prop) (d' : SwapDevice) : Prop where
  layout : d.SameLayout d'
  stored : ∀ x, ¬ slots x → d'.stored x = d.stored x

theorem SwapDevice.Touches.refl (d : SwapDevice) (slots : Nat → Prop) : d.Touches slots d :=
  ⟨.refl d, fun _ _ => rfl⟩

theorem SwapDevice.Touches.trans {d d' d'' : SwapDevice} {slots : Nat → Prop}
    (h : d.Touches slots d') (h' : d'.Touches slots d'') : d.Touches slots d'' :=
  ⟨h.layout.trans h'.layout, fun x hx => (h'.stored x hx).trans (h.stored x hx)⟩

theorem SwapDevice.Touches.mono {d d' : SwapDevice} {slots more : Nat → Prop}
    (h : d.Touches slots d') (hle : ∀ x, slots x → more x) : d.Touches more d' :=
  ⟨h.layout, fun x hx => h.stored x fun hs => hx (hle x hs)⟩

/-- What is written to a slot touches no other. -/
theorem SwapDevice.Touches.of_store {d d' : SwapDevice} {slot : Nat} {i : Place} {data : Sector}
    {answer : Except SwapError Unit} (hd : d.Fits) (hslot : slot < d.slots)
    (h : d.store slot i data = .ok (answer, d')) : d.Touches (· = slot) d' := by
  obtain ⟨hlayout, hother, -⟩ := SwapDevice.store_ok hd hslot h
  refine ⟨hlayout, fun x hx => ?_⟩
  funext j
  exact hother x j fun hxj => hx hxj.1

/-- A fault of the drive touches no sector. -/
theorem Probe.act_fault {p : Probe} {m n : Memory} {o : Outcome} (hp : p.isFault = true)
    (h : p.act m = .ok (o, n)) :
    ∃ d, n = m.putDevice d ∧ m.swap.device.Touches (fun _ => False) d := by
  cases p with
  | setFailing direction failing =>
      cases h
      have hleaves := Probe.leaves_tell m direction fun f => { f with failing }
      exact ⟨_, rfl, hleaves.layout, fun x _ => hleaves.stored x⟩
  | setLimit direction limit =>
      cases h
      have hleaves := Probe.leaves_tell m direction fun f => { f with limit }
      exact ⟨_, rfl, hleaves.layout, fun x _ => hleaves.stored x⟩
  | _ => exact nomatch hp

namespace Memory

/-- The memory with its coremap, its slot map and its swap device replaced. -/
def putParts (m : Memory) (coremap : Coremap) (slots : SlotMap) (device : SwapDevice) : Memory :=
  { m with coremap, swap := { m.swap with slots, device } }

/-- Nothing is different but the faults and the counters of the drive and what lies in slots that
are free. -/
structure Unchanged (m n : Memory) : Prop where
  coremap : n.coremap = m.coremap
  slots : n.swap.slots = m.swap.slots
  ram : n.ram = m.ram
  pager : n.pager = m.pager
  evictions : n.evictions = m.evictions
  restores : n.restores = m.restores
  stored : ∀ x, m.swap.slots.state? x ≠ none → n.swap.device.stored x = m.swap.device.stored x

theorem Unchanged.refl {m : Memory} : m.Unchanged m :=
  ⟨rfl, rfl, rfl, rfl, rfl, rfl, fun _ _ => rfl⟩

/-- What touches no slot changes nothing. -/
theorem Unchanged.putDevice {m n : Memory} {d : SwapDevice} (h : m.Unchanged n)
    (hd : n.swap.device.Touches (fun _ => False) d) : m.Unchanged (n.putDevice d) :=
  ⟨h.coremap, h.slots, h.ram, h.pager, h.evictions, h.restores,
    fun x hx => (hd.stored x id).trans (h.stored x hx)⟩

/-- The frame was the oldest of the chain and is free; the page that it held is in the slot, which
was free, and the pager was told. Nothing else is different. -/
structure Evicted (m : Memory) (frame : Nat) (page : Page) (slot : Nat) (n : Memory) : Prop where
  coremap : m.coremap.Evicts frame page n.coremap
  slots : m.swap.slots.Fills page slot n.swap.slots
  device : m.swap.device.Touches (· = slot) n.swap.device
  stored : ∀ i : Place, n.swap.device.stored slot i = some ((m.contents frame).get i)
  ram : n.ram = m.ram
  scrub : n.swap.scrub = m.swap.scrub
  pager : n.pager = m.pager.tell page slot
  evictions : n.evictions = (m.evictions + 1) % Word.span Word.bits
  restores : n.restores = m.restores

end Memory

namespace Task

/-- The eviction has detached its frame and reserved its slot, and has touched no other slot. -/
structure Leaving (m : Memory) (e : Eviction) (c : Coremap) (s : SlotMap) (d : SwapDevice) :
    Prop where
  plain : e.need = none
  detached : m.coremap.detachOldest = .ok (some (e.frame, e.page), c)
  reserved : m.swap.slots.reserve e.page = .ok (.ok e.slot, s)
  device : m.swap.device.Touches (· = e.slot) d

/-- The first sectors of the slot hold what the frame held. -/
def Copied (m : Memory) (e : Eviction) (d : SwapDevice) (n : Nat) : Prop :=
  ∀ i : Place, i.val < n → d.stored e.slot i = some ((m.contents e.frame).get i)

/-- How far an eviction alone has come. -/
inductive EvictStage (m : Memory) : Memory → Next → Prop
  | mapping {e : Eviction} {c : Coremap} {s : SlotMap} {d : SwapDevice} (h : Leaving m e c s d) :
      EvictStage m (m.putParts c s d) (.callOut (.evictMapping e))
  | writing {e : Eviction} {i : Place} {c : Coremap} {s : SlotMap} {d : SwapDevice}
      (h : Leaving m e c s d) (hcopied : Copied m e d i) :
      EvictStage m (m.putParts c s d) (.callOut (.evictWriting e i))
  | telling {e : Eviction} {c : Coremap} {s s' : SlotMap} {d : SwapDevice} (h : Leaving m e c s d)
      (hcopied : Copied m e d sectorsPerFrame) (hsettle : s.settle e.slot e.page = .ok (true, s')) :
      EvictStage m { m.putParts c s' d with pager := m.pager.tell e.page e.slot }
        (.callOut (.evictTelling e))
  | failed {n : Memory} {e : EvictError} (h : m.Unchanged n) :
      EvictStage m n (.reply (.evicted (.error e)))
  | ended {n : Memory} {frame slot : Nat} {page : Page} (h : m.Evicted frame page slot n) :
      EvictStage m n (.reply (.evicted (.ok (frame, slot))))

variable {m n : Memory} {e : Eviction} {c : Coremap} {s : SlotMap} {d : SwapDevice} {p q : Piece}
  {i : Place} {cause : SwapError}

theorem Leaving.touches {d' : SwapDevice} (h : Leaving m e c s d)
    (hd : d.Touches (· = e.slot) d') : Leaving m e c s d' :=
  ⟨h.plain, h.detached, h.reserved, h.device.trans hd⟩

/-- A fault of the drive takes an eviction nowhere. -/
theorem EvictStage.faulted {next : Next} {probe : Probe} {o : Outcome} {n' : Memory}
    (h : EvictStage m n next) (hp : probe.isFault = true)
    (hn : probe.act n = .ok (o, n')) : EvictStage m n' next := by
  obtain ⟨d', rfl, hd⟩ := Probe.act_fault hp hn
  have spared : ∀ x, d'.stored x = n.swap.device.stored x := fun x => hd.stored x id
  have touches : ∀ slot, n.swap.device.Touches (· = slot) d' :=
    fun slot => hd.mono fun _ hx => hx.elim
  cases h with
  | mapping h => exact .mapping (h.touches (touches _))
  | writing h hcopied =>
      refine .writing (h.touches (touches _)) fun i hi => ?_
      rw [spared]
      exact hcopied i hi
  | telling h hcopied hsettle =>
      refine .telling (h.touches (touches _)) (fun i hi => ?_) hsettle
      rw [spared]
      exact hcopied i hi
  | failed h => exact .failed (h.putDevice hd)
  | ended h =>
      refine .ended ⟨h.coremap, h.slots, h.device.trans (touches _), fun i => ?_, h.ram, h.scrub,
        h.pager, h.evictions, h.restores⟩
      exact (congrFun (spared _) i).trans (h.stored i)

/-- The frame and the slot of an eviction on its way. -/
theorem Leaving.spec (hm : m.coremap.Sound) (hs : m.swap.slots.Sound) (h : Leaving m e c s d) :
    c.Sound ∧ c.HasRole e.frame (.transit false e.page false) ∧
      m.swap.slots.state? e.slot = none ∧ s.Sound ∧ s.state? e.slot = some (e.page, .busy) := by
  obtain ⟨hc, -, hput⟩ := hm.detachOldest h.detached
  obtain ⟨hfree, hset⟩ := SlotMap.reserve_ok hs h.reserved
  exact ⟨hc, hput.role_self, hfree, hset.sound, hset.self⟩

/-- The slot is one of the device's, whose sectors are computed exactly. -/
theorem Leaving.proper (hm : m.coremap.Sound) (ha : m.swap.Sound) (h : Leaving m e c s d) :
    d.Fits ∧ e.slot < d.slots := by
  obtain ⟨-, -, -, -, hbusy⟩ := h.spec hm ha.slots
  have hcap := SlotMap.lt_capacity_of_owner (SlotMap.owner_of_state? hbusy)
  rw [(SlotMap.reserve_ok ha.slots h.reserved).2.capacity, ha.capacity] at hcap
  rw [h.device.layout.slots]
  exact ⟨ha.fits.of_layout h.device.layout, hcap⟩

/-- **An eviction that cannot write leaves everything as it was.** -/
theorem writeFailed_stage (hm : m.coremap.Sound) (hs : m.swap.slots.Sound)
    (h : Leaving m e c s d) (hp : writeFailed (m.putParts c s d) e cause = .ok p) :
    EvictStage m p.memory p.next := by
  obtain ⟨-, -, hfree, -⟩ := h.spec hm hs
  obtain ⟨owned, slots, n, notices, hrelease, hback, hp⟩ := writeFailed_eq_ok hp
  obtain rfl := SlotMap.release_undoes_reserve hs h.reserved hrelease
  obtain ⟨onChain, coremap, habort, rfl, -⟩ := putBack_eq_ok hback
  obtain ⟨-, rfl⟩ := hm.abort_undoes_detach h.detached habort
  rw [h.plain] at hp
  cases hp
  refine .failed ⟨rfl, rfl, rfl, rfl, rfl, rfl, fun x hx => h.device.stored x ?_⟩
  rintro rfl
  exact hx hfree

theorem writeAt_stage (hm : m.coremap.Sound) (hs : m.swap.slots.Sound) (h : Leaving m e c s d)
    (hcopied : Copied m e d i) (hp : writeAt (m.putParts c s d) e i = .ok p) :
    EvictStage m p.memory p.next := by
  cases writeAt_cases hp with
  | refused _ hp => exact writeFailed_stage hm hs h hp
  | ready => exact .writing h hcopied

theorem written_stage (hm : m.coremap.Sound) (hs : m.swap.slots.Sound) (h : Leaving m e c s d)
    (hcopied : Copied m e d sectorsPerFrame) (hp : written (m.putParts c s d) e = .ok p) :
    EvictStage m p.memory p.next := by
  obtain ⟨-, hrole, -, hsound, hbusy⟩ := h.spec hm hs
  cases written_cases hp with
  | told slots hsettle => exact .telling h hcopied hsettle
  | freed slots slots' coremap hsettle hd hgone =>
      rcases hgone with rfl | horphaned
      · exact nomatch (SlotMap.settle_live hsound hbusy nofun hsettle).1
      · obtain ⟨f, hf, huse⟩ := hrole.frame
        have hkept : f.orphaned = false := congrArg Descriptor.orphaned huse
        cases hf.symm.trans hd
        exact nomatch hkept.symm.trans horphaned

theorem writeNow_stage (hm : m.coremap.Sound) (ha : m.swap.Sound) (h : Leaving m e c s d)
    (hcopied : Copied m e d i) (hp : writeNow (m.putParts c s d) e i = .ok p) :
    EvictStage m p.memory p.next := by
  obtain ⟨hfits, hlt⟩ := h.proper hm ha
  have touches : ∀ {answer d'}, d.store e.slot i ((m.contents e.frame).get i) = .ok (answer, d') →
      Leaving m e c s d' := fun hstore => h.touches (.of_store hfits hlt hstore)
  -- behind a write that passes one sector more is in the slot
  have more : ∀ {d'}, d.store e.slot i ((m.contents e.frame).get i) = .ok (.ok (), d') →
      Copied m e d' (i + 1) := by
    intro d' hstore
    obtain ⟨-, hother, hwritten, -⟩ := SwapDevice.store_ok hfits hlt hstore
    refine forall_place_lt_succ (hwritten rfl) fun j hj => ?_
    rw [hother e.slot j fun hx => Nat.ne_of_lt hj (congrArg Fin.val hx.2)]
    exact hcopied j hj
  cases writeNow_cases hp with
  | failed d' hstore hp => exact writeFailed_stage hm ha.slots (touches hstore) hp
  | next d' _ hstore hj hp =>
      refine writeAt_stage hm ha.slots (touches hstore) ?_ hp
      rw [nextPlace_eq_some hj]
      exact more hstore
  | last d' _ hstore hj hp =>
      refine written_stage hm ha.slots (touches hstore) (fun j _ => more hstore j ?_) hp
      exact lt_of_nextPlace_eq_none hj j

/-- The pager has been told, and the frame is free. -/
theorem toldPager_stage (hm : m.coremap.Sound) (hs : m.swap.slots.Sound) {s' : SlotMap}
    (h : Leaving m e c s d) (hcopied : Copied m e d sectorsPerFrame)
    (hsettle : s.settle e.slot e.page = .ok (true, s'))
    (hp : toldPager { m.putParts c s' d with pager := m.pager.tell e.page e.slot } e = .ok p) :
    EvictStage m p.memory p.next := by
  obtain ⟨hc, hrole, -⟩ := h.spec hm hs
  cases toldPager_cases hp with
  | orphaned coremap slots hfinish =>
      obtain ⟨-, page, hrole', -⟩ := hc.finishEviction hfinish
      injection hrole.unique hrole' with _ _ horphaned
      exact nomatch horphaned
  | kept coremap hfinish hp =>
      rw [h.plain] at hp
      cases hp
      exact .ended ⟨⟨c, h.detached, hfinish⟩, ⟨s, h.reserved, hsettle⟩, h.device,
        fun i => hcopied i i.isLt, rfl, rfl, rfl, rfl, rfl⟩

theorem resume_stage {t : Task} (hm : m.coremap.Sound) (ha : m.swap.Sound)
    (h : EvictStage m n (.callOut t)) (hp : resume false n t = .ok p) :
    EvictStage m p.memory p.next := by
  cases h with
  | mapping h =>
      refine writeAt_stage hm ha.slots h ?_ (resume_evictMapping hp).2
      exact fun j hj => absurd hj (Nat.not_lt_zero _)
  | writing h hcopied => exact writeNow_stage hm ha h hcopied hp
  | telling h hcopied hsettle => exact toldPager_stage hm ha.slots h hcopied hsettle hp

theorem evict_stage (hm : m.coremap.Sound) (hp : evict m none = .ok p) :
    EvictStage m p.memory p.next := by
  cases evict_cases hp with
  | noVictim _ hp =>
      cases hp
      exact .failed .refl
  | noSlot c s n hdetach _ hreserve hback hp =>
      obtain ⟨rfl, -⟩ := SlotMap.reserve_error hreserve
      obtain ⟨onChain, coremap, habort, rfl, -⟩ := putBack_eq_ok hback
      obtain ⟨-, rfl⟩ := hm.abort_undoes_detach hdetach habort
      cases hp
      exact .failed .refl
  | reserved c s hdetach _ hreserve =>
      exact .mapping (m := m) (d := m.swap.device) ⟨rfl, hdetach, hreserve, .refl _ _⟩

/-- **An eviction alone goes through these stages**: it succeeds, or it leaves everything as it
was. -/
theorem evictStage_of_performs (hm : m.coremap.Sound) (ha : m.swap.Sound)
    (h : m.Performs .evict p) : EvictStage m p.memory p.next := by
  obtain ⟨first, hfirst, hlead⟩ := h
  refine hlead.keeps (P := fun p => EvictStage m p.memory p.next) (evict_stage hm hfirst) ?_ ?_
  · intro q r t hq hn hr
    rw [hn] at hq
    have hstage : EvictStage m r.memory r.next := resume_stage hm ha hq hr
    exact hstage
  · intro q probe o n hq hfault hn
    exact hq.faulted hfault hn

theorem EvictStage.isPlain {t : Task} (h : EvictStage m n (.callOut t)) : t.isPlain = true := by
  cases h with
  | mapping h =>
      show Option.isNone _ = true
      rw [h.plain]
      rfl
  | writing h hcopied =>
      show Option.isNone _ = true
      rw [h.plain]
      rfl
  | telling h hcopied hsettle =>
      show Option.isNone _ = true
      rw [h.plain]
      rfl

theorem EvictStage.evicted {reply : Reply} (h : EvictStage m n (.reply reply)) :
    ∃ result, reply = .evicted result := by
  cases h <;> exact ⟨_, rfl⟩

/-- Behind an answer only the drive may be told something. -/
theorem Leads.putDevice {reply : Reply} (h : Leads p q) (hn : p.next = .reply reply) :
    ∃ d, q.memory = p.memory.putDevice d ∧
      p.memory.swap.device.Touches (fun _ => False) d := by
  refine (h.keeps (P := fun q => q.next = .reply reply ∧ ∃ d, q.memory = p.memory.putDevice d ∧
    p.memory.swap.device.Touches (fun _ => False) d) ⟨hn, _, rfl, .refl _ _⟩ ?_ ?_).2
  · rintro q r t ⟨hreply, -⟩ hq -
    rw [hreply] at hq
    exact nomatch hq
  · rintro q probe o n ⟨hreply, d, hd, htouches⟩ hfault hn
    obtain ⟨d', rfl, hd'⟩ := Probe.act_fault hfault hn
    rw [hd] at hd' ⊢
    exact ⟨hreply, d', rfl, htouches.trans hd'⟩

/-! ## Making room -/

/-- An eviction that makes room is on its way, as it would be alone, or it has ended, and the need
has gone on from there. -/
inductive WantStage (m : Memory) (need : Need) (q : Piece) : Prop
  | evicting {r : Piece} {t : Task} (hr : m.Performs .evict r) (hn : r.next = .callOut t)
      (hmemory : q.memory = r.memory) (hnext : q.next = .callOut (t.wants need))
  | ended {r first : Piece} {result : Except EvictError (Nat × Nat)}
      {notices before : List Notice} (hr : m.Performs .evict r)
      (hn : r.next = .reply (.evicted result))
      (hended : evictionEnded r.memory notices (some need) result = .ok first)
      (hlead : Leads { first with notices := before ++ first.notices } q)

/-- A piece of the eviction alone, and what the need makes of it. -/
theorem WantStage.of_afterwards {need : Need} {r s first : Piece} (before : List Notice)
    (hm : m.coremap.Sound) (ha : m.swap.Sound) (hr : m.Performs .evict r)
    (hmemory : r.memory = s.memory) (hnext : r.next = s.next)
    (hafter : afterwards need s = .ok first) :
    WantStage m need { first with notices := before ++ first.notices } := by
  have hstage := evictStage_of_performs hm ha hr
  unfold afterwards at hafter
  rw [← hnext, ← hmemory] at hafter
  cases hn : r.next with
  | callOut t =>
      rw [hn] at hafter
      cases hafter
      exact .evicting hr hn rfl rfl
  | reply reply =>
      rw [hn] at hstage
      obtain ⟨result, rfl⟩ := hstage.evicted
      rw [hn] at hafter
      exact .ended hr hn hafter .refl

/-- **An eviction that makes room** is an eviction alone, and when that has answered, what the need
makes of its answer. -/
theorem Leads.wantStage {need : Need} (hm : m.coremap.Sound) (ha : m.swap.Sound) (h : Leads p q)
    (hp : evict m (some need) = .ok p) : WantStage m need q := by
  refine h.keeps (P := WantStage m need) ?_ ?_ ?_
  · rw [evict_wants] at hp
    obtain ⟨r, hr, hafter⟩ := Fault.bind_eq_ok.mp hp
    have hstart : m.Performs .evict r := ⟨r, hr, .refl⟩
    exact .of_afterwards [] hm ha hstart rfl rfl hafter
  · intro q first t' hstage hq hfirst
    cases hstage with
    | @evicting r t hr hn hmemory hnext =>
        obtain rfl : t.wants need = t' := Next.callOut.inj (hnext.symm.trans hq)
        have hplain : t.isPlain = true := by
          have hstage := evictStage_of_performs hm ha hr
          rw [hn] at hstage
          exact hstage.isPlain
        rw [resume_wants hplain, hmemory] at hfirst
        obtain ⟨r', hr', hafter⟩ := Fault.bind_eq_ok.mp hfirst
        obtain ⟨start, hstart, hlead⟩ := hr
        exact .of_afterwards (s := r') q.notices hm ha ⟨start, hstart, hlead.resumed hn hr'⟩ rfl rfl
          hafter
    | ended hr hn hended hlead => exact .ended hr hn hended (hlead.resumed hq hfirst)
  · intro q probe o n hstage hfault hprobe
    cases hstage with
    | evicting hr hn hmemory hnext =>
        obtain ⟨start, hstart, hlead⟩ := hr
        rw [hmemory] at hprobe
        exact .evicting ⟨start, hstart, hlead.faulted hfault hprobe⟩ hn rfl hnext
    | ended hr hn hended hlead => exact .ended hr hn hended (hlead.faulted hfault hprobe)

end Task

end PhysMem
