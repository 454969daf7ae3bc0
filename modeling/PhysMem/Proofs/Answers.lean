import PhysMem.Proofs.EvictAlone
import PhysMem.Proofs.PartialMap
import PhysMem.Proofs.Queue
import PhysMem.Proofs.SlotTransfers
import PhysMem.Proofs.Totality

/-!
# Answers — an eviction alone comes to an end

What an operation that is left alone comes to, if it comes to anything, is one question; that it
does come to an answer, whatever the drive is told meanwhile, is another. A piece stops a run when
an assertion fails or when a sum or a product leaves its word. Neither happens to an eviction as
long as the frames lie within the machine's addresses and the block can count eight more writes.

* **`Answers`** — whatever transfers fail, the operation goes on from each of its call-outs, and in
  the end it answers. **`answers_of_performs`**: it does if it is nowhere stuck.
* **`CanEvict`** is what an eviction needs. **`evict_goesOn`** and **`resume_goesOn`** say that it
  is nowhere stuck then, **`evict_answers`** that it answers.
* **`Prevents`** lists why an eviction fails, **`prevents_of_performs`** that there is no other
  reason.
* **`Answers.afterwards`** takes an eviction that makes room apart: the eviction answers, and then
  what the need makes of its answer.
-/

namespace PhysMem

/-- The drive may have been told which transfers fail, any number of times. -/
inductive Memory.Faulted (m : Memory) : Memory → Prop
  | refl : Faulted m m
  | told {n n' : Memory} {probe : Probe} {o : Outcome} (h : Faulted m n)
      (hfault : probe.isFault = true) (hn : probe.act n = .ok (o, n')) : Faulted m n'

namespace Task

/-- Whatever the drive is told at its call-outs, the operation comes to an answer. It stops only
where `stops` says, and it ends only as `ends` says. -/
inductive Answers (stops : Task → Prop) (ends : Memory → Reply → Prop) : Memory → Next → Prop
  | reply {n : Memory} {r : Reply} (h : ends n r) : Answers stops ends n (.reply r)
  | callOut {n : Memory} {t : Task} (ht : stops t)
      (goesOn : ∀ n', n.Faulted n' → ∃ p, resume false n' t = .ok p)
      (h : ∀ n' p, n.Faulted n' → resume false n' t = .ok p →
        Answers stops ends p.memory p.next) : Answers stops ends n (.callOut t)

end Task

/-- Started in `m` and left alone, the operation comes to an answer. It stops only where `stops`
says, and it ends only as `ends` says. -/
def Memory.Answers (m : Memory) (op : Operation) (stops : Task → Prop)
    (ends : Memory → Reply → Prop) : Prop :=
  ∃ first, Task.start false m op = .ok first ∧ Task.Answers stops ends first.memory first.next

namespace Task

variable {m n : Memory} {p q r : Piece} {t : Task} {op : Operation} {next : Next}
  {stops stops' : Task → Prop} {ends ends' : Memory → Reply → Prop}

/-! ## Progress -/

theorem Leads.of_faulted (h : Leads p q) (hn : q.memory.Faulted n) :
    Leads p { q with memory := n } := by
  induction hn with
  | refl => exact h
  | told _ hfault hn ih => exact ih.faulted hfault hn

/-- The operation goes on from a call-out, whatever the drive was told there. -/
theorem performs_resumed (h : m.Performs op p) (hn : p.next = .callOut t)
    (hfaulted : p.memory.Faulted n) (hr : resume false n t = .ok r) :
    m.Performs op { r with notices := p.notices ++ r.notices } := by
  obtain ⟨first, hfirst, hlead⟩ := h
  exact ⟨first, hfirst, (hlead.of_faulted hfaulted).resumed hn hr⟩

/-- **An operation that is nowhere stuck answers**, and where it stops and how it ends is what it
comes to alone. -/
theorem answers_of_performs (hstart : ∃ first, start false m op = .ok first)
    (hgoes : ∀ p t, m.Performs op p → p.next = .callOut t → ∃ q, resume false p.memory t = .ok q) :
    m.Answers op (fun t => ∃ n notices, m.Performs op ⟨n, notices, .callOut t⟩)
      fun n r => ∃ notices, m.Performs op ⟨n, notices, .reply r⟩ := by
  -- by induction on the rank of the call-out, as every piece ends lower than it began
  suffices key : ∀ k p, p.next.rank ≤ k → m.Performs op p →
      Answers (fun t => ∃ n notices, m.Performs op ⟨n, notices, .callOut t⟩)
        (fun n r => ∃ notices, m.Performs op ⟨n, notices, .reply r⟩) p.memory p.next by
    obtain ⟨first, hfirst⟩ := hstart
    exact ⟨first, hfirst, key _ first (Nat.le_refl _) ⟨first, hfirst, .refl⟩⟩
  intro k
  induction k with
  | zero =>
      rintro ⟨memory, notices, next⟩ hrank hperforms
      cases next with
      | reply r => exact .reply ⟨notices, hperforms⟩
      | callOut t => exact absurd (rank_pos t) (Nat.not_lt.mpr hrank)
  | succ k ih =>
      rintro ⟨memory, notices, next⟩ hrank hperforms
      cases next with
      | reply r => exact .reply ⟨notices, hperforms⟩
      | callOut t =>
          refine .callOut ⟨memory, notices, hperforms⟩ ?_ ?_
          · intro n hfaulted
            obtain ⟨first, hfirst, hlead⟩ := hperforms
            exact hgoes _ t ⟨first, hfirst, hlead.of_faulted hfaulted⟩ rfl
          · intro n q hfaulted hq
            have hlower : q.next.rank ≤ k :=
              Nat.le_of_lt_succ (Nat.lt_of_lt_of_le (resume_rank false n t hq) hrank)
            exact ih { q with notices := notices ++ q.notices } hlower
              (performs_resumed hperforms rfl hfaulted hq)

end Task

/-! ## What an eviction needs -/

/-- How many sectors the block has written. -/
def Memory.writes (m : Memory) : Nat := m.swap.device.block.writeCount

/-- The frames lie within the machine's addresses, and the block can count eight more writes. -/
structure Memory.CanEvict (m : Memory) : Prop where
  exact : m.coremap.Exact
  fits : m.coremap.Fits
  area : m.swap.Sound
  slots : m.swap.slots.Coherent
  count : m.writes + sectorsPerFrame < Word.span Block.counterBits

/-- A drive that is told which transfers fail writes nothing. -/
theorem Probe.writes_of_isFault {probe : Probe} {m n : Memory} {o : Outcome}
    (hp : probe.isFault = true) (h : probe.act m = .ok (o, n)) : n.writes = m.writes := by
  cases probe with
  | setFailing direction failing =>
      cases h
      cases direction <;> rfl
  | setLimit direction limit =>
      cases h
      cases direction <;> rfl
  | _ => exact nomatch hp

/-- A sector is written or not, and at most one more write is counted. -/
theorem SwapDevice.store_total {d : SwapDevice} {slot : Nat} (hd : d.Fits) (hslot : slot < d.slots)
    (i : Fin sectorsPerFrame) (data : Sector)
    (hcount : d.block.writeCount + 1 < Word.span Block.counterBits) :
    ∃ answer d', d.store slot i.val data = .ok (answer, d') ∧
      d'.block.writeCount ≤ d.block.writeCount + 1 := by
  by_cases hpasses : (d.block.drive.told .writes).fails = false ∧
      d.start slot + i.val < d.block.drive.sectors.size
  · exact ⟨_, _, store_passed hd hslot data hpasses.1 hpasses.2 hcount, Nat.le_refl _⟩
  · have hstopped : (d.block.drive.told .writes).fails = true ∨
        d.block.drive.sectors.size ≤ d.start slot + i.val := by
      cases hfails : (d.block.drive.told .writes).fails with
      | true => exact Or.inl rfl
      | false => exact Or.inr (Nat.le_of_not_lt fun hlt => hpasses ⟨hfails, hlt⟩)
    obtain ⟨e, hstore⟩ := store_stopped hd hslot data hstopped
    exact ⟨_, _, hstore, Nat.le_succ _⟩

namespace Task

/-- The sectors that an eviction has still to write. -/
def writesLeft : Task → Nat
  | .evictMapping _ => sectorsPerFrame
  | .evictWriting _ i => sectorsPerFrame - i.val
  | _ => 0

def Next.writesLeft : Next → Nat
  | .callOut t => t.writesLeft
  | .reply _ => 0

/-- The piece comes about. With the writes that are left behind it the block comes to at most `k`
more. -/
def GoesOn (m : Memory) (k : Nat) (x : Except Fault Piece) : Prop :=
  ∃ p, x = .ok p ∧ p.memory.writes + p.next.writesLeft ≤ m.writes + k

variable {m n : Memory} {e : Eviction} {c : Coremap} {s : SlotMap} {d : SwapDevice} {i : Place}
  {k : Nat}

theorem GoesOn.mono {j : Nat} {x : Except Fault Piece} (h : GoesOn m j x) (hjk : j ≤ k) :
    GoesOn m k x := by
  obtain ⟨p, hp, hwrites⟩ := h
  exact ⟨p, hp, Nat.le_trans hwrites (Nat.add_le_add_left hjk _)⟩

/-- What comes behind a step that has a result. -/
theorem GoesOn.bind {α : Type} {x : Except Fault α} {f : α → Except Fault Piece} {a : α}
    (hx : x = .ok a) (h : GoesOn m k (f a)) : GoesOn m k (x >>= f) := by
  rw [hx]
  exact h

theorem Leaving.slots_coherent (hm : m.CanEvict) (h : Leaving m e c s d) : s.Coherent :=
  hm.slots.reserve h.reserved

theorem Leaving.coremap_exact (hm : m.CanEvict) (h : Leaving m e c s d) : c.Exact :=
  hm.exact.detachOldest h.detached

theorem Leaving.role (hm : m.CanEvict) (h : Leaving m e c s d) :
    c.HasRole e.frame (.transit false e.page false) :=
  (h.spec hm.exact.toSound hm.area.slots).2.1

/-! ## The pieces of an eviction -/

theorem writeFailed_goesOn (hm : m.CanEvict) (h : Leaving m e c s d) (cause : SwapError) :
    GoesOn (m.putParts c s d) 0 (writeFailed (m.putParts c s d) e cause) := by
  obtain ⟨b, slots, hrelease⟩ := (h.slots_coherent hm).releaseIfOwned_total e.slot e.page
  have hover : Fault.OnlyOverflows True (c.abortEviction e.frame) :=
    (h.coremap_exact hm).abortEviction_onlyOverflows (h.role hm)
  obtain ⟨⟨onChain, coremap⟩, habort⟩ := hover.exists_ok trivial
  have hback : putBack ((m.putParts c s d).putSlots slots) e.frame =
      .ok ({ (m.putParts c s d).putSlots slots with coremap },
        if onChain then [] else [.victimFreed e.frame]) :=
    Fault.bind_eq_ok.mpr ⟨_, habort, rfl⟩
  refine .bind hrelease (.bind hback ?_)
  rw [h.plain]
  exact ⟨_, rfl, Nat.le_refl _⟩

theorem writeAt_goesOn (hm : m.CanEvict) (h : Leaving m e c s d) :
    GoesOn (m.putParts c s d) (sectorsPerFrame - i.val) (writeAt (m.putParts c s d) e i) := by
  obtain ⟨hfits, hslot⟩ := h.proper hm.exact.toSound hm.area
  refine .bind (SwapDevice.refusals_eq hfits hslot i).2 ?_
  cases (d.block.writeRefusal? (d.start e.slot + i.val) sectorSize).map SwapError.io with
  | some cause => exact (writeFailed_goesOn hm h cause).mono (Nat.zero_le _)
  | none => exact ⟨_, rfl, Nat.le_refl _⟩

theorem written_goesOn (hm : m.CanEvict) (h : Leaving m e c s d) :
    GoesOn (m.putParts c s d) 0 (written (m.putParts c s d) e) := by
  obtain ⟨live, slots, hsettle⟩ := (h.slots_coherent hm).settle_total e.slot e.page
  obtain ⟨-, -, -, hsound, hbusy⟩ := h.spec hm.exact.toSound hm.area.slots
  obtain ⟨rfl, -⟩ := SlotMap.settle_live hsound hbusy nofun hsettle
  obtain ⟨f, hf, huse⟩ := (h.role hm).frame
  have hkept : f.orphaned = false := congrArg Descriptor.orphaned huse
  refine .bind hsettle (.bind hf ?_)
  rw [hkept]
  exact ⟨_, rfl, Nat.le_refl _⟩

theorem writeNow_goesOn (hm : m.CanEvict) (h : Leaving m e c s d)
    (hcount : d.block.writeCount + (sectorsPerFrame - i.val) < Word.span Block.counterBits) :
    GoesOn (m.putParts c s d) (sectorsPerFrame - i.val) (writeNow (m.putParts c s d) e i) := by
  obtain ⟨hfits, hslot⟩ := h.proper hm.exact.toSound hm.area
  have hi := place_lt i
  have height : sectorsPerFrame = 8 := rfl
  obtain ⟨answer, d', hstore, hone⟩ :=
    SwapDevice.store_total hfits hslot i (m.contents e.frame)[i] (by omega)
  have h' : Leaving m e c s d' := h.touches (.of_store hfits hslot hstore)
  -- one write less is left, whether this one was counted or not
  have later : ∀ {j : Nat} {x : Except Fault Piece}, j + 1 ≤ sectorsPerFrame - i.val →
      GoesOn (m.putParts c s d') j x →
      GoesOn (m.putParts c s d) (sectorsPerFrame - i.val) x := by
    rintro j x hj ⟨p, hp, hwrites⟩
    refine ⟨p, hp, Nat.le_trans hwrites ?_⟩
    show d'.block.writeCount + j ≤ d.block.writeCount + (sectorsPerFrame - i.val)
    omega
  refine .bind hstore ?_
  cases answer with
  | error cause => exact later (by omega) (writeFailed_goesOn hm h' cause)
  | ok u =>
      dsimp only
      cases hnext : nextPlace i with
      | some j =>
          have hj := nextPlace_eq_some hnext
          have hj' := place_lt j
          exact later (by omega) (writeAt_goesOn hm h')
      | none => exact later (by omega) (written_goesOn hm h')

theorem toldPager_goesOn {s' : SlotMap} {pager : Pager} (hm : m.CanEvict)
    (h : Leaving m e c s d) :
    GoesOn { m.putParts c s' d with pager } 0 (toldPager { m.putParts c s' d with pager } e) := by
  have hover : Fault.OnlyOverflows True (c.finishEviction e.frame) :=
    (h.coremap_exact hm).finishEviction_onlyOverflows (h.role hm)
  obtain ⟨⟨orphaned, coremap⟩, hfinish⟩ := hover.exists_ok trivial
  obtain ⟨hc, hrole, -⟩ := h.spec hm.exact.toSound hm.area.slots
  obtain ⟨-, page, hrole', -⟩ := hc.finishEviction hfinish
  have hsame := hrole.unique hrole'
  injection hsame with _ _ horphaned
  subst horphaned
  refine .bind hfinish ?_
  show GoesOn _ 0 (evictionEnded _ _ e.need _)
  rw [h.plain]
  exact ⟨_, rfl, Nat.le_refl _⟩

/-- **No eviction is stuck at a call-out**, as long as the block can count the writes that are
left. -/
theorem resume_goesOn {t : Task} (hm : m.CanEvict) (h : EvictStage m n (.callOut t))
    (hcount : n.writes + t.writesLeft < Word.span Block.counterBits) :
    GoesOn n t.writesLeft (resume false n t) := by
  cases h with
  | mapping h => exact writeAt_goesOn (i := firstPlace) hm h
  | writing h hcopied => exact writeNow_goesOn hm h hcount
  | telling h hcopied hsettle => exact toldPager_goesOn hm h

/-- **Nor is one at its start.** -/
theorem evict_goesOn (hm : m.CanEvict) : GoesOn m sectorsPerFrame (evict m none) := by
  obtain ⟨⟨victim, c⟩, hdetach⟩ := hm.exact.detachOldest_onlyOverflows.exists_ok hm.fits
  refine .bind hdetach ?_
  cases victim with
  | none => exact ⟨_, rfl, Nat.le_add_right _ _⟩
  | some victim =>
      obtain ⟨frame, page⟩ := victim
      obtain ⟨hc, -, hput⟩ := hm.exact.toSound.detachOldest hdetach
      have htransit : c.HasRole frame (.transit false page false) := hput.role_self
      obtain ⟨address, haddress⟩ :=
        (hm.fits.of_table hput.toSameTable).addressOf_total (Coremap.lt_size_of_use? htransit)
      refine .bind haddress ?_
      rcases hm.slots.reserve_total page with ⟨slot, s, hreserve, -⟩ | ⟨hreserve, -⟩
      · exact .bind hreserve ⟨_, rfl, Nat.le_refl _⟩
      · have hover : Fault.OnlyOverflows True (c.abortEviction frame) :=
          (hm.exact.detachOldest hdetach).abortEviction_onlyOverflows htransit
        obtain ⟨⟨onChain, coremap⟩, habort⟩ := hover.exists_ok trivial
        have hback : putBack ({ m with coremap := c }.putSlots m.swap.slots) frame =
            .ok ({ m with coremap }, if onChain then [] else [.victimFreed frame]) :=
          Fault.bind_eq_ok.mpr ⟨_, habort, rfl⟩
        exact .bind hreserve (.bind hback ⟨_, rfl, Nat.le_add_right _ _⟩)

/-- An eviction alone is never stuck. -/
theorem goesOn_of_performs {t : Task} {p : Piece} (hm : m.CanEvict) (h : m.Performs .evict p)
    (hn : p.next = .callOut t) : ∃ q, resume false p.memory t = .ok q := by
  -- the writes that are left are always among the eight that the block can count
  have hleft : EvictStage m p.memory p.next ∧
      p.memory.writes + p.next.writesLeft ≤ m.writes + sectorsPerFrame := by
    obtain ⟨first, hfirst, hlead⟩ := h
    have hstart : evict m none = .ok first := hfirst
    refine hlead.keeps (P := fun p => EvictStage m p.memory p.next ∧
      p.memory.writes + p.next.writesLeft ≤ m.writes + sectorsPerFrame) ⟨?_, ?_⟩ ?_ ?_
    · exact evict_stage hm.exact.toSound hstart
    · obtain ⟨p, hp, hwrites⟩ := evict_goesOn hm
      cases hp.symm.trans hstart
      exact hwrites
    · rintro q r t ⟨hq, hwrites⟩ hn hr
      rw [hn] at hq hwrites
      have hstage : EvictStage m r.memory r.next := resume_stage hm.exact.toSound hm.area hq hr
      obtain ⟨r', hr', hmore⟩ :=
        resume_goesOn hm hq (Nat.lt_of_le_of_lt hwrites hm.count)
      cases hr'.symm.trans hr
      exact ⟨hstage, Nat.le_trans hmore hwrites⟩
    · rintro q probe o n ⟨hq, hwrites⟩ hfault hn
      refine ⟨hq.faulted hfault hn, ?_⟩
      rw [show Memory.writes n = q.memory.writes from Probe.writes_of_isFault hfault hn]
      exact hwrites
  obtain ⟨hstage, hwrites⟩ := hleft
  rw [hn] at hstage hwrites
  obtain ⟨q, hq, -⟩ := resume_goesOn hm hstage (Nat.lt_of_le_of_lt hwrites hm.count)
  exact ⟨q, hq⟩

/-- **An eviction alone answers.** -/
theorem evict_answers (hm : m.CanEvict) :
    m.Answers .evict (fun t => ∃ n notices, m.Performs .evict ⟨n, notices, .callOut t⟩)
      fun n r => ∃ notices, m.Performs .evict ⟨n, notices, .reply r⟩ := by
  refine answers_of_performs ?_ fun p t => goesOn_of_performs hm
  obtain ⟨first, hfirst, -⟩ := evict_goesOn hm
  exact ⟨first, hfirst⟩

end Task

/-! ## Why an eviction fails -/

/-- Every slot is used. -/
def SlotMap.IsFull (m : SlotMap) : Prop := ∀ x, x < m.capacity → m.state? x ≠ none

/-- The slot is free, and the ones below it are used. -/
structure SlotMap.IsLowestFree (m : SlotMap) (slot : Nat) : Prop where
  lt_capacity : slot < m.capacity
  free : m.state? slot = none
  below : ∀ x, x < slot → m.state? x ≠ none

theorem SlotMap.IsLowestFree.not_isFull {m : SlotMap} {slot : Nat} (h : m.IsLowestFree slot) :
    ¬ m.IsFull := fun hfull => hfull slot h.lt_capacity h.free

/-- **A slot is reserved where the lowest one is free**, unless all of them are used. -/
theorem SlotMap.Coherent.reserve_lowest {m m' : SlotMap} {page : Page}
    {result : Except SwapError Nat} (hm : m.Coherent) (h : m.reserve page = .ok (result, m')) :
    (∃ slot, result = .ok slot ∧ m.IsLowestFree slot) ∨ result = .error .swapFull ∧ m.IsFull := by
  have hacts := hm.reserve_acts h
  generalize m'.state? = f at hacts
  cases hacts with
  | reserve page hslot hfree hbelow => exact Or.inl ⟨_, rfl, hslot, hfree, hbelow⟩
  | full page hfull => exact Or.inr ⟨rfl, hfull⟩

theorem SlotMap.Coherent.reserved_lowest {m m' : SlotMap} {page : Page} {slot : Nat}
    (hm : m.Coherent) (h : m.reserve page = .ok (.ok slot, m')) : m.IsLowestFree slot := by
  rcases hm.reserve_lowest h with ⟨slot', hslot, hlowest⟩ | ⟨hfull, -⟩
  · cases hslot
    exact hlowest
  · exact nomatch hfull

/-- The victim of an eviction is the head of the chain. -/
theorem Coremap.Sound.detached_oldest {m m' : Coremap} {victim : Option (Nat × Page)}
    (hm : m.Sound) (h : m.detachOldest = .ok (victim, m')) :
    m.chain.head? = victim.map fun entry => entry.1 := by
  obtain ⟨l, hl, -⟩ := hm.chain
  rw [hl.chain]
  exact (hl.detachOldest_requeue h).1

/-- Why an eviction fails: there is no user frame to evict, every slot is used, or the lowest free
slot cannot be written. -/
inductive Memory.Prevents (m : Memory) : EvictError → Prop
  | noVictim (hchain : m.coremap.chain = []) : Prevents m .noVictim
  | full (hchain : m.coremap.chain ≠ []) (hfull : m.swap.slots.IsFull) :
      Prevents m (.swap .swapFull)
  | drive (cause : BlockError) (hchain : m.coremap.chain ≠ [])
      (hfree : ∃ slot, m.swap.slots.IsLowestFree slot) : Prevents m (.swap (.io cause))

namespace Task

variable {m n : Memory} {p : Piece} {e : Eviction} {c : Coremap} {s : SlotMap} {d : SwapDevice}
  {i : Place}

/-- An eviction on its way is of the oldest frame, to the lowest free slot. -/
theorem Leaving.chosen (hm : m.CanEvict) (h : Leaving m e c s d) :
    m.coremap.chain.head? = some e.frame ∧ m.coremap.HasRole e.frame (.resident e.page) ∧
      m.swap.slots.IsLowestFree e.slot := by
  have hs := hm.exact.toSound
  exact ⟨hs.detached_oldest h.detached, (hs.detachOldest h.detached).2.1,
    hm.slots.reserved_lowest h.reserved⟩

/-- If the eviction has failed, then at the block. -/
def FailedAtBlock (next : Next) : Prop :=
  ∀ error, next = .reply (.evicted (.error error)) → ∃ cause, error = .swap (.io cause)

theorem writeFailed_failedAtBlock {cause : BlockError} (hplain : e.need = none)
    (h : writeFailed m e (.io cause) = .ok p) : FailedAtBlock p.next := by
  obtain ⟨owned, slots, n, notices, -, -, h⟩ := writeFailed_eq_ok h
  rw [hplain] at h
  cases h
  rintro error ⟨⟩
  exact ⟨cause, rfl⟩

theorem writeAt_failedAtBlock (hplain : e.need = none) (hslot : e.slot < m.swap.device.slots)
    (h : writeAt m e i = .ok p) : FailedAtBlock p.next := by
  cases writeAt_cases h with
  | ready => exact nofun
  | refused hrefusal h =>
      rw [SwapDevice.writeRefusal?, if_neg (Nat.not_le.mpr hslot)] at hrefusal
      obtain ⟨sector, -, hrefusal⟩ := Fault.bind_eq_ok.mp hrefusal
      obtain ⟨cause', -, rfl⟩ := Option.map_eq_some_iff.mp (Except.ok.inj hrefusal)
      exact writeFailed_failedAtBlock hplain h

theorem written_failedAtBlock (hplain : e.need = none) (h : written m e = .ok p) :
    FailedAtBlock p.next := by
  cases written_cases h with
  | told => exact nofun
  | freed _ _ _ _ _ _ _ _ h =>
      rw [hplain] at h
      cases h
      exact nofun

/-- What the device answers to a write is what its block says. -/
theorem store_block {d d' : SwapDevice} {slot : Nat} {data : Sector}
    {answer : Except SwapError Unit} (h : d.store slot i data = .ok (answer, d')) :
    ∃ (said : Except BlockError Unit) (block : Block), answer = said.mapError SwapError.io ∧
      d' = { d with block } := by
  obtain ⟨sector, -, h⟩ := Fault.bind_eq_ok.mp h
  obtain ⟨⟨said, block⟩, -, h⟩ := Fault.bind_eq_ok.mp h
  cases h
  exact ⟨said, block, rfl, rfl⟩

theorem writeNow_failedAtBlock (hplain : e.need = none) (hslot : e.slot < m.swap.device.slots)
    (h : writeNow m e i = .ok p) : FailedAtBlock p.next := by
  cases writeNow_cases h with
  | failed device hstore h =>
      obtain ⟨said, block, hsaid, -⟩ := store_block hstore
      cases said with
      | ok u => exact nomatch hsaid
      | error cause =>
          cases hsaid
          exact writeFailed_failedAtBlock hplain h
  | next device _ hstore _ h =>
      obtain ⟨-, block, -, rfl⟩ := store_block hstore
      exact writeAt_failedAtBlock (m := m.putDevice { m.swap.device with block }) hplain hslot h
  | last _ _ _ _ h => exact written_failedAtBlock hplain h

theorem toldPager_failedAtBlock (hplain : e.need = none) (h : toldPager m e = .ok p) :
    FailedAtBlock p.next := by
  cases toldPager_cases h with
  | orphaned _ _ _ _ h | kept _ _ h =>
      rw [hplain] at h
      cases h
      exact nofun

theorem resume_failedAtBlock {t : Task} (hm : m.CanEvict) (h : EvictStage m n (.callOut t))
    (hp : resume false n t = .ok p) : FailedAtBlock p.next := by
  have hs := hm.exact.toSound
  cases h with
  | mapping h =>
      exact writeAt_failedAtBlock h.plain (h.proper hs hm.area).2 (resume_evictMapping hp).2
  | writing h hcopied => exact writeNow_failedAtBlock h.plain (h.proper hs hm.area).2 hp
  | telling h hcopied hsettle => exact toldPager_failedAtBlock h.plain hp

/-- An eviction that is stopped has chosen its frame and its slot. -/
theorem EvictStage.chosen {t : Task} (hm : m.CanEvict) (h : EvictStage m n (.callOut t)) :
    ∃ e, t.eviction? = some e ∧ m.coremap.chain.head? = some e.frame ∧
      m.coremap.HasRole e.frame (.resident e.page) ∧ m.swap.slots.IsLowestFree e.slot := by
  cases h with
  | mapping h => exact ⟨_, rfl, h.chosen hm⟩
  | writing h hcopied => exact ⟨_, rfl, h.chosen hm⟩
  | telling h hcopied hsettle => exact ⟨_, rfl, h.chosen hm⟩

theorem evict_prevented {error : EvictError} (hm : m.CanEvict) (h : evict m none = .ok p)
    (hn : p.next = .reply (.evicted (.error error))) : m.Prevents error := by
  cases evict_cases h with
  | noVictim hdetach h =>
      cases h
      cases hn
      exact .noVictim (List.head?_eq_none_iff.mp (hm.exact.toSound.detached_oldest hdetach))
  | noSlot c s n hdetach _ hreserve _ h =>
      have hhead := hm.exact.toSound.detached_oldest hdetach
      rcases hm.slots.reserve_lowest hreserve with ⟨slot, hslot, -⟩ | ⟨hfailed, hfull⟩
      · exact nomatch hslot
      · cases hfailed
        cases h
        cases hn
        exact .full (List.ne_nil_of_mem (List.mem_of_head? hhead)) hfull
  | reserved => exact nomatch hn

/-- **An eviction fails for one of these reasons and no other.** -/
theorem prevents_of_performs {error : EvictError} (hm : m.CanEvict) (h : m.Performs .evict p)
    (hn : p.next = .reply (.evicted (.error error))) : m.Prevents error := by
  obtain ⟨first, hfirst, hlead⟩ := h
  have hs := hm.exact.toSound
  refine (hlead.keeps (P := fun p => EvictStage m p.memory p.next ∧
    ∀ error, p.next = .reply (.evicted (.error error)) → m.Prevents error)
    ⟨?_, ?_⟩ ?_ ?_).2 error hn
  · exact evict_stage hs hfirst
  · exact fun error => evict_prevented hm hfirst
  · rintro q r t ⟨hq, -⟩ hn hr
    rw [hn] at hq
    have hstage : EvictStage m r.memory r.next := resume_stage hs hm.area hq hr
    refine ⟨hstage, fun error herror => ?_⟩
    obtain ⟨cause, rfl⟩ := resume_failedAtBlock hm hq hr error herror
    obtain ⟨e, -, hhead, -, hlowest⟩ := hq.chosen hm
    exact .drive cause (List.ne_nil_of_mem (List.mem_of_head? hhead)) ⟨e.slot, hlowest⟩
  · rintro q probe o n ⟨hq, hprevents⟩ hfault hn
    exact ⟨hq.faulted hfault hn, hprevents⟩

/-! ## Making room -/

/-- **An eviction that makes room answers** if the eviction alone does, and if what needs the room
answers then. -/
theorem Answers.afterwards {need : Need} {next : Next} {stops stops' : Task → Prop}
    {ends ends' : Memory → Reply → Prop} (h : Answers stops ends n next)
    (hplain : ∀ t, stops t → t.isPlain = true) (hstops : ∀ t, stops t → stops' (t.wants need))
    (hends : ∀ n r, ends n r → ∃ result, r = .evicted result ∧ ∀ notices, ∃ p,
      evictionEnded n notices (some need) result = .ok p ∧ Answers stops' ends' p.memory p.next)
    (notices : List Notice) :
    ∃ p, Task.afterwards need ⟨n, notices, next⟩ = .ok p ∧
      Answers stops' ends' p.memory p.next := by
  induction h generalizing notices with
  | reply h =>
      obtain ⟨result, rfl, hlast⟩ := hends _ _ h
      exact hlast notices
  | @callOut n t ht goesOn h ih =>
      refine ⟨_, rfl, .callOut (hstops t ht) ?_ ?_⟩
      · intro n' hfaulted
        obtain ⟨p, hp⟩ := goesOn n' hfaulted
        obtain ⟨q, hq, -⟩ := ih n' p hfaulted hp p.notices
        exact ⟨q, (resume_wants (hplain t ht)).trans (Fault.bind_eq_ok.mpr ⟨p, hp, hq⟩)⟩
      · intro n' q hfaulted hq
        rw [resume_wants (hplain t ht)] at hq
        obtain ⟨p, hp, hq⟩ := Fault.bind_eq_ok.mp hq
        obtain ⟨q', hq', hanswers⟩ := ih n' p hfaulted hp p.notices
        cases hq'.symm.trans hq
        exact hanswers

end Task

end PhysMem
