import PhysMem.Proofs.Answers
import PhysMem.Proofs.Atomicity
import PhysMem.Proofs.Conservation
import PhysMem.Proofs.Residency

/-!
# Pressure — an allocation of one frame always knows where to turn

As long as a frame is free, an allocation of one frame takes it and looks no further. When none is
free and no page can be moved out either, the memory is used up. In between, the oldest page is
moved to the lowest free slot. If that fails, the allocation fails for the same reason; if it
succeeds, one frame is free, and as a search finds any frame that is free, the allocation gets this
one.

* **`claim_one`** — a search for one frame misses none: it fails only if no frame is free.
* **`HandsOver`** is what a claim of one frame does to the coremap, **`Gives`** what the allocation
  does to the memory.
* **`provide_answers_of_free`**, **`provide_answers_of_exhausted`** and
  **`provide_answers_of_chain`** are the three cases.
* **`one_frame_under_pressure`** is what they say of the states that sequential operations lead to.
-/

namespace PhysMem

/-- The role of a single frame that is claimed for this owner. -/
def FrameOwner.role : FrameOwner → FrameRole
  | .kernel => .kernel false
  | .user page => .resident page

/-! ## Claims of one frame -/

namespace Coremap

variable {m m' : Coremap} {owner : FrameOwner} {i : Nat}

/-- The frame was free and is the owner's, and a user's frame is the newest of the chain. No other
frame changes its use. -/
structure HandsOver (m : Coremap) (i : Nat) (owner : FrameOwner) (m' : Coremap) : Prop where
  free : m.HasRole i .free
  given : m.Puts i owner.role.use m'
  chain : m'.chain = m.chain ++ if owner.kind = .user then [i] else []

theorem Exact.claim_handsOver (hm : m.Exact) (h : m.claim owner 1 = .ok (some i, m')) :
    m.HandsOver i owner m' := by
  obtain ⟨-, -, hchain⟩ := hm.requeued (.claim owner 1) (Or.inr rfl) rfl h
  rcases claim_ok h with ⟨hnone, -⟩ | ⟨start, stop, hstart, hclaims, hstop⟩
  · exact nomatch hnone
  · -- a run of one frame, the last of which is its first
    cases hstart
    obtain rfl := hstop hm.policy
    obtain ⟨u, hu, hfree⟩ := hclaims.free i (Nat.le_refl _) (Nat.lt_succ_self _)
    obtain ⟨r, hr, rfl⟩ := hm.toSound.hasRole hu
    obtain rfl := FrameRole.of_free hfree
    refine ⟨hr, ⟨hclaims.toSameTable, fun x => ?_⟩, ?_⟩
    · rw [hclaims.use]
      by_cases hx : x = i
      · subst hx
        rw [if_pos ⟨Nat.le_refl _, Nat.lt_succ_self _⟩, if_pos rfl, Nat.add_sub_cancel,
          bne_self_eq_false]
        cases owner <;> rfl
      · rw [if_neg hx, if_neg (by omega)]
    · cases owner with
      | kernel => exact hchain.trans (List.append_nil _).symm
      | user page => exact hchain

/-- **A search for one frame misses none**: it hands over a frame, or there is none that is free,
and nothing changes. -/
theorem Exact.claim_one (hm : m.Exact) (hfits : m.Fits) (hin : m.placement.InTable m.size)
    (owner : FrameOwner) :
    (∃ i m', m.claim owner 1 = .ok (some i, m') ∧ m.HandsOver i owner m') ∨
      m.claim owner 1 = .ok (none, m) ∧ ∀ i, ¬ m.HasRole i .free := by
  have hroom : m.Fits → m.size + 1 < Word.span Word.bits :=
    fun hfits => hfits.add_lt (Nat.le_add_left 1 m.size)
  obtain ⟨⟨first, m'⟩, hclaim⟩ :=
    (hm.claim_onlyOverflows Nat.one_pos hroom (Or.inr rfl)).exists_ok hfits
  cases first with
  | some i => exact Or.inl ⟨i, m', hclaim, hm.claim_handsOver hclaim⟩
  | none =>
      obtain ⟨rfl, hnone⟩ := claim_none hm.policy hin hclaim
      exact Or.inr ⟨hclaim, fun i hfree => hnone i hfree.isFreeRun⟩

theorem SameTable.addressOf (h : m.SameTable m') (i : Nat) : m'.addressOf i = m.addressOf i := by
  rw [Coremap.addressOf, Coremap.addressOf, frameAddress, frameAddress, h.base, h.size]

end Coremap

/-- Frame `i` is handed over. Nothing else is different. -/
structure Memory.Gives (m : Memory) (i : Nat) (owner : FrameOwner) (n : Memory) : Prop where
  coremap : m.coremap.HandsOver i owner n.coremap
  rest : n = { m with coremap := n.coremap }

/-- The operation is stopped in the eviction of this page from this frame to the lowest free
slot. -/
def Memory.Evicting (m : Memory) (victim : Nat) (held : Page) (t : Task) : Prop :=
  ∃ e, t.eviction? = some e ∧ e.frame = victim ∧ e.page = held ∧ m.swap.slots.IsLowestFree e.slot

/-- How an allocation ends that has to make room. The eviction has failed and left everything as it
was, and the allocation fails for the same reason. Or the page is in the slot, and its frame is the
requester's. -/
inductive Memory.MakesWay (m : Memory) (victim : Nat) (held : Page) (owner : FrameOwner)
    (n : Memory) : Reply → Prop
  | failed {p : Task.Piece} {cause : SwapError} (hp : m.Performs .evict p)
      (hn : p.next = .reply (.evicted (.error (.swap cause)))) (hmemory : p.memory = n)
      (hsame : m.Unchanged n) (hfull : cause = .swapFull ↔ m.swap.slots.IsFull) :
      MakesWay m victim held owner n (.address (.error (.evictionFailed (.swap cause))))
  | moved {p : Task.Piece} {slot address : Nat} (hp : m.Performs .evict p)
      (hn : p.next = .reply (.evicted (.ok (victim, slot))))
      (hlowest : m.swap.slots.IsLowestFree slot) (hevicted : m.Evicted victim held slot p.memory)
      (hgives : p.memory.Gives victim owner n)
      (haddress : m.coremap.addressOf victim = .ok address) :
      MakesWay m victim held owner n (.address (.ok address))

namespace Task

variable {m n : Memory} {p : Piece} {owner : FrameOwner} {need : Need} {i victim : Nat}
  {held : Page} {coremap : Coremap} {stops : Task → Prop} {ends : Memory → Reply → Prop}

/-! ## The three cases -/

/-- A frame that is handed over is answered with its address. -/
theorem met_handsOver (hfits : m.coremap.Fits) (h : m.coremap.HandsOver i owner coremap)
    (notices : List Notice) :
    ∃ p address, met { m with coremap } notices i (.allocate owner 1 false) = .ok p ∧
      m.Gives i owner p.memory ∧ m.coremap.addressOf i = .ok address ∧
      p.next = .reply (.address (.ok address)) := by
  obtain ⟨address, haddress⟩ := hfits.addressOf_total (Coremap.lt_size_of_use? h.free)
  have hplaced : coremap.addressOf i = .ok address :=
    (h.given.toSameTable.addressOf i).trans haddress
  exact ⟨_, address, Fault.bind_eq_ok.mpr ⟨address, hplaced, rfl⟩, ⟨h, rfl⟩, haddress, rfl⟩

/-- **As long as a frame is free**, one that is free is handed over, and no other has to go. -/
theorem provide_answers_of_free (hm : m.CanEvict)
    (hin : m.coremap.placement.InTable m.coremap.size) (hfree : m.coremap.HasRole i .free) :
    ∃ p, provide m (.allocate owner 1 false) = .ok p ∧
      Answers (fun _ => False) (fun n r => ∃ i address, m.Gives i owner n ∧
        m.coremap.addressOf i = .ok address ∧ r = .address (.ok address)) p.memory p.next := by
  rcases hm.exact.claim_one hm.fits hin owner with ⟨i, coremap, hclaim, hands⟩ | ⟨-, hnone⟩
  · obtain ⟨p, address, hmet, hgives, haddress, hn⟩ := met_handsOver hm.fits hands []
    refine ⟨p, ?_, ?_⟩
    · have hroom : ¬ m.coremap.size < needed (.allocate owner 1 false) :=
        Nat.not_lt.mpr (Nat.zero_lt_of_lt (Coremap.lt_size_of_use? hfree))
      rw [provide, if_neg hroom]
      exact Fault.bind_eq_ok.mpr ⟨_, hclaim, hmet⟩
    · rw [hn]
      exact .reply ⟨i, address, hgives, haddress, rfl⟩
  · exact absurd hfree (hnone i)

/-- When no frame is free, only an eviction can make room. -/
theorem provide_of_none_free (hm : m.CanEvict)
    (hin : m.coremap.placement.InTable m.coremap.size)
    (hnone : ∀ i, ¬ m.coremap.HasRole i .free) (hsize : 0 < m.coremap.size) :
    provide m (.allocate owner 1 false) = evict m (some (.allocate owner 1 false)) := by
  rcases hm.exact.claim_one hm.fits hin owner with ⟨i, coremap, -, hands⟩ | ⟨hclaim, -⟩
  · exact absurd hands.free (hnone i)
  · have hroom : ¬ m.coremap.size < needed (.allocate owner 1 false) := Nat.not_lt.mpr hsize
    have hclaim : claimFor m.coremap (.allocate owner 1 false) = .ok (none, m.coremap) := hclaim
    rw [provide, if_neg hroom, hclaim]
    rfl

/-- **When no frame is free and there is none to evict**, the memory is used up. -/
theorem provide_answers_of_exhausted (hm : m.CanEvict)
    (hin : m.coremap.placement.InTable m.coremap.size)
    (hnone : ∀ i, ¬ m.coremap.HasRole i .free) (hchain : m.coremap.chain = []) :
    ∃ p, provide m (.allocate owner 1 false) = .ok p ∧
      Answers (fun _ => False) (fun n r => n = m ∧ r = .address (.error .outOfMemory))
        p.memory p.next := by
  rcases Nat.eq_zero_or_pos m.coremap.size with hsize | hsize
  · have hroom : m.coremap.size < needed (.allocate owner 1 false) := hsize ▸ Nat.one_pos
    rw [provide, if_pos hroom]
    exact ⟨_, rfl, .reply ⟨rfl, rfl⟩⟩
  · obtain ⟨l, hl, -⟩ := hm.exact.chain
    have hdetach : m.coremap.detachOldest = .ok (none, m.coremap) := by
      rw [Coremap.detachOldest, hl.oldest, ← hl.chain, hchain]
      rfl
    rw [provide_of_none_free hm hin hnone hsize]
    exact ⟨_, Fault.bind_eq_ok.mpr ⟨_, hdetach, rfl⟩, .reply ⟨rfl, rfl⟩⟩

/-- An eviction that fails lets the allocation fail. -/
theorem failed_makesWay {error : EvictError} (hm : m.CanEvict) (hchain : m.coremap.chain ≠ [])
    (hp : m.Performs .evict p) (hn : p.next = .reply (.evicted (.error error)))
    (hsame : m.Unchanged p.memory) (notices : List Notice) :
    ∃ q, evictionEnded p.memory notices (some (.allocate owner 1 false)) (.error error) = .ok q ∧
      Answers stops (m.MakesWay victim held owner) q.memory q.next := by
  cases prevents_of_performs hm hp hn with
  | noVictim hempty => exact absurd hempty hchain
  | full _ hfull => exact ⟨_, rfl, .reply (.failed hp hn rfl hsame (iff_of_true rfl hfull))⟩
  | drive cause _ hfree =>
      obtain ⟨slot, hlowest⟩ := hfree
      refine ⟨_, rfl, .reply (.failed hp hn rfl hsame (iff_of_false ?_ hlowest.not_isFull))⟩
      rintro ⟨⟩

/-- **An eviction that succeeds leaves one frame free**, and the allocation finds it. -/
theorem moved_makesWay {slot : Nat} (hm : m.CanEvict)
    (hin : m.coremap.placement.InTable m.coremap.size)
    (hnone : ∀ i, ¬ m.coremap.HasRole i .free) (hp : m.Performs .evict p)
    (hn : p.next = .reply (.evicted (.ok (victim, slot))))
    (hevicted : m.Evicted victim held slot p.memory) (notices : List Notice) :
    ∃ q, evictionEnded p.memory notices (some (.allocate owner 1 false)) (.ok (victim, slot)) =
        .ok q ∧
      Answers stops (m.MakesWay victim held owner) q.memory q.next := by
  obtain ⟨-, -, -, hput⟩ := hevicted.coremap.spec hm.exact.toSound
  have hfits := hm.fits.of_table hput.toSameTable
  have hlowest : m.swap.slots.IsLowestFree slot := by
    obtain ⟨s, hreserve, -⟩ := hevicted.slots
    exact hm.slots.reserved_lowest hreserve
  rcases (hevicted.coremap.exact hm.exact).claim_one hfits (hevicted.coremap.evolves.inTable hin)
    owner with ⟨i, coremap, hclaim, hands⟩ | ⟨-, hmissed⟩
  · -- no other frame is free
    obtain rfl : i = victim := by
      by_contra hne
      exact hnone i ((hput.role_other hne).mp hands.free)
    obtain ⟨q, address, hmet, hgives, haddress, hq⟩ := met_handsOver hfits hands notices
    refine ⟨q, Fault.bind_eq_ok.mpr ⟨_, hclaim, hmet⟩, ?_⟩
    rw [hq]
    exact .reply (.moved hp hn hlowest hevicted hgives
      ((hput.toSameTable.addressOf i).symm.trans haddress))
  · exact absurd hput.role_self (hmissed victim)

theorem wants_eviction? (t : Task) :
    (t.wants need).eviction? = t.eviction?.map fun e => { e with need := some need } := by
  cases t <;> rfl

/-- Wherever the eviction is stopped, it is that of the oldest page. -/
theorem evicting_of_performs {t : Task} {notices : List Notice} (hm : m.CanEvict)
    (hhead : m.coremap.chain.head? = some victim)
    (hheld : m.coremap.HasRole victim (.resident held))
    (hp : m.Performs .evict ⟨n, notices, .callOut t⟩) : m.Evicting victim held (t.wants need) := by
  have hstage : EvictStage m n (.callOut t) := evictStage_of_performs hm.exact.toSound hm.area hp
  obtain ⟨e, he, holdest, hrole, hlowest⟩ := hstage.chosen hm
  obtain rfl : victim = e.frame := Option.some.inj (hhead.symm.trans holdest)
  have hpage := hheld.unique hrole
  injection hpage with hpage
  refine ⟨{ e with need := some need }, ?_, rfl, hpage.symm, hlowest⟩
  rw [wants_eviction?, he]
  rfl

/-- However the eviction ends, the allocation ends with it. -/
theorem makesWay_of_performs {r : Reply} {said : List Notice} (hm : m.CanEvict)
    (hin : m.coremap.placement.InTable m.coremap.size)
    (hnone : ∀ i, ¬ m.coremap.HasRole i .free) (hhead : m.coremap.chain.head? = some victim)
    (hheld : m.coremap.HasRole victim (.resident held))
    (hp : m.Performs .evict ⟨n, said, .reply r⟩) :
    ∃ result, r = .evicted result ∧ ∀ notices, ∃ q,
      evictionEnded n notices (some (.allocate owner 1 false)) result = .ok q ∧
        Answers stops (m.MakesWay victim held owner) q.memory q.next := by
  have hstage : EvictStage m n (.reply r) := evictStage_of_performs hm.exact.toSound hm.area hp
  cases hstage with
  | failed hsame =>
      have hchain := List.ne_nil_of_mem (List.mem_of_head? hhead)
      exact ⟨_, rfl, failed_makesWay hm hchain hp rfl hsame⟩
  | @ended _ frame slot page hevicted =>
      obtain ⟨-, hrole, -⟩ := hevicted.coremap.spec hm.exact.toSound
      obtain ⟨c, hdetach, -⟩ := hevicted.coremap
      obtain rfl : victim = frame :=
        Option.some.inj (hhead.symm.trans (hm.exact.toSound.detached_oldest hdetach))
      have hpage := hheld.unique hrole
      injection hpage with hpage
      subst hpage
      exact ⟨_, rfl, moved_makesWay hm hin hnone hp rfl hevicted⟩

/-- **When no frame is free but there is one to evict**, the oldest one is evicted, once. -/
theorem provide_answers_of_chain (hm : m.CanEvict)
    (hin : m.coremap.placement.InTable m.coremap.size)
    (hnone : ∀ i, ¬ m.coremap.HasRole i .free) (hhead : m.coremap.chain.head? = some victim)
    (hheld : m.coremap.HasRole victim (.resident held)) :
    ∃ p, provide m (.allocate owner 1 false) = .ok p ∧
      Answers (m.Evicting victim held) (m.MakesWay victim held owner) p.memory p.next := by
  -- the eviction answers if it is left alone, and the allocation goes on from its answer
  obtain ⟨first, hfirst, hanswers⟩ := evict_answers hm
  rw [provide_of_none_free hm hin hnone (Nat.zero_lt_of_lt (Coremap.lt_size_of_use? hheld)),
    evict_wants, show evict m none = .ok first from hfirst]
  refine hanswers.afterwards ?_ ?_ ?_ first.notices
  · rintro t ⟨n, notices, hp⟩
    exact (evictStage_of_performs hm.exact.toSound hm.area hp).isPlain
  · rintro t ⟨n, notices, hp⟩
    exact evicting_of_performs hm hhead hheld hp
  · rintro n r ⟨said, hp⟩
    exact makesWay_of_performs hm hin hnone hhead hheld hp

end Task

namespace Machine

variable {m : Memory} {w : Machine} {moves : List Move} {events : List Event}

/-- In every state that sequential operations lead to an eviction has what it needs. -/
theorem canEvict_of_run (hm : m.IsFresh) (he : m.evictions = 0) (hr : m.restores = 0)
    (hfits : m.coremap.Fits) (hrun : (idle m).run sequential moves = some (w, events))
    (hcount : w.memory.writes + sectorsPerFrame < Word.span Block.counterBits) :
    w.memory.CanEvict := by
  obtain ⟨used, counted, hshows, -⟩ := (Balanced.of_run hm he hr hrun).tallies
  exact ⟨exact_of_run hm (managed_run_of_sequential hrun), hfits.of_table (line_of_run hm hrun).1,
    (Intact.of_run hm hrun).1.area, hshows.coherent, hcount⟩

/-- **One frame under pressure**: what an allocation of a single frame comes to, left alone in any
state that sequential operations lead to, wherever the drive fails before or meanwhile.

The frames must lie within the machine's addresses, and the block must be able to count the writes
of one eviction. Then it always answers. If a frame is free, one that is free is handed over, and no
page has to go. If none is free and no page can go, memory is out. Otherwise the frame is evicted
that arrived before any other that is resident, to the lowest free slot, and that is the only
eviction: either it fails and so does the allocation, for the same reason, or the requester gets
this very frame. -/
theorem one_frame_under_pressure (hm : m.IsFresh) (he : m.evictions = 0) (hr : m.restores = 0)
    (hfits : m.coremap.Fits) (hrun : (idle m).run sequential moves = some (w, events))
    (hcount : w.memory.writes + sectorsPerFrame < Word.span Block.counterBits)
    {kind : FrameKind} {page : Option Page} {owner : FrameOwner}
    (howner : Task.requestOwner kind 1 page = .ok owner) :
    ((∃ i, w.memory.coremap.HasRole i .free) →
      w.memory.Answers (.allocate kind 1 page) (fun _ => False) fun n r =>
        ∃ i address, w.memory.Gives i owner n ∧ w.memory.coremap.addressOf i = .ok address ∧
          r = .address (.ok address)) ∧
    ((∀ i, ¬ w.memory.coremap.HasRole i .free) → w.memory.coremap.chain = [] →
      w.memory.Answers (.allocate kind 1 page) (fun _ => False) fun n r =>
        n = w.memory ∧ r = .address (.error .outOfMemory)) ∧
    ((∀ i, ¬ w.memory.coremap.HasRole i .free) → w.memory.coremap.chain ≠ [] →
      ∃ victim held, w.memory.coremap.HasRole victim (.resident held) ∧
        (∀ x other, w.memory.coremap.HasRole x (.resident other) → x ≠ victim →
          [victim, x].Sublist (arrivals m.coremap events).dedup) ∧
        w.memory.Answers (.allocate kind 1 page) (w.memory.Evicting victim held)
          (w.memory.MakesWay victim held owner)) := by
  have hcan := canEvict_of_run hm he hr hfits hrun hcount
  have hin := inTable_of_run hm (managed_run_of_sequential hrun)
  have hstart : Task.start false w.memory (.allocate kind 1 page) =
      Task.provide w.memory (.allocate owner 1 false) := by
    show Task.allocate w.memory kind 1 page false = _
    rw [Task.allocate, howner]
  rw [Memory.Answers, Memory.Answers, hstart]
  refine ⟨?_, ?_, ?_⟩
  · rintro ⟨i, hfree⟩
    exact Task.provide_answers_of_free hcan hin hfree
  · intro hnone hchain
    exact Task.provide_answers_of_exhausted hcan hin hnone hchain
  · intro hnone hchain
    have hhead := List.head?_eq_some_head hchain
    obtain ⟨l, hl, hmem⟩ := hcan.exact.chain
    rw [← hl.chain] at hmem
    obtain ⟨held, hheld⟩ := (hmem _).mp (List.mem_of_head? hhead)
    refine ⟨_, held, hheld, ?_, ?_⟩
    · exact fun x other => oldest_arrived_first hm hrun hhead
    · rw [Memory.Answers, hstart]
      exact Task.provide_answers_of_chain hcan hin hnone hhead hheld

/-- Both frames hold pages, frame 0 for the second time, and the drive is about to fail. -/
def refilled : List Move :=
  [.start (.allocate .user 1 (some ⟨1, 0⟩)), .start (.allocate .user 1 (some ⟨1, 1⟩)),
    .start (.free Address.frameSize), .start (.allocate .user 1 (some ⟨1, 2⟩)),
    .probe (.setLimit .writes (some 3))]

/-- Frame 0 was the first to arrive, but it was frame 1 that has been resident longest, and makes
way if the drive lets it. -/
theorem one_frame_under_pressure_of_refilled :
    ∃ w events, (idle .small).run sequential refilled = some (w, events) ∧
      arrivals Memory.small.coremap events = [0, 1, 0] ∧
      w.memory.Answers (.allocate .user 1 (some ⟨1, 3⟩)) (w.memory.Evicting 1 ⟨1, 1⟩)
        (w.memory.MakesWay 1 ⟨1, 1⟩ (.user ⟨1, 3⟩)) := by
  have hafter : ((idle .small).run sequential refilled).map (fun r =>
      ((arrivals Memory.small.coremap r.2, r.1.memory.writes),
        r.1.memory.coremap.chain, r.1.memory.coremap.use? 0, r.1.memory.coremap.use? 1)) =
      some (([0, 1, 0], 0), [1, 0], some (FrameRole.resident ⟨1, 2⟩).use,
        some (FrameRole.resident ⟨1, 1⟩).use) := by decide +kernel
  obtain ⟨⟨w, events⟩, hrun, hw⟩ := Option.map_eq_some_iff.mp hafter
  obtain ⟨hseen, hw⟩ := Prod.mk.inj hw
  obtain ⟨harrivals, hwrites⟩ := Prod.mk.inj hseen
  obtain ⟨hchain, hw⟩ := Prod.mk.inj hw
  obtain ⟨hfirst, hsecond⟩ := Prod.mk.inj hw
  dsimp only at harrivals hwrites hchain hfirst hsecond
  have hframes : ∀ i r, w.memory.coremap.HasRole i r → i = 0 ∨ i = 1 := by
    intro i r hrole
    have hi := Coremap.lt_size_of_use? hrole
    rw [(line_of_run Memory.small_isFresh hrun).1.size] at hi
    have htwo : Memory.small.coremap.size = 2 := rfl
    omega
  have hnone : ∀ i, ¬ w.memory.coremap.HasRole i .free := by
    intro i hfree
    rcases hframes i _ hfree with rfl | rfl
    · exact nomatch hfree.unique hfirst
    · exact nomatch hfree.unique hsecond
  have hfits : Memory.small.coremap.Fits := by
    rw [Coremap.Fits]
    decide
  have hcount : w.memory.writes + sectorsPerFrame < Word.span Block.counterBits := by
    rw [hwrites]
    decide
  have howner : Task.requestOwner .user 1 (some ⟨1, 3⟩) = .ok (.user ⟨1, 3⟩) := rfl
  have hresident : w.memory.coremap.chain ≠ [] := by
    rw [hchain]
    exact List.cons_ne_nil _ _
  obtain ⟨victim, held, hheld, holder, hanswers⟩ :=
    (one_frame_under_pressure Memory.small_isFresh rfl rfl hfits hrun hcount howner).2.2 hnone
      hresident
  rw [harrivals] at holder
  rcases hframes victim _ hheld with rfl | rfl
  · exact absurd (holder 1 _ hsecond (by decide)) (by decide)
  · cases hheld.unique hsecond
    exact ⟨w, events, hrun, harrivals, hanswers⟩

end Machine

end PhysMem
