import PhysMem.Proofs.EvictAlone
import PhysMem.Proofs.Evolution
import PhysMem.Proofs.Placement

/-!
# Atomicity — an allocation that fails has done nothing

An allocation that is left alone and fails leaves the coremap, the slot map, the counters and the
pages in the slots exactly as they were, down to the place where the next search begins. There is one
exception: a request for several frames may have evicted the oldest frame, as it makes room once, and
find that one more free frame is not enough.

* **`Evolves.inTable`** — the place where the next search begins is that of a frame, so a search that
  finds nothing leaves it alone.
* **`claimFor_none_same`** — a claim that finds no frames changes nothing, and there are none.
* **`failed_allocation_is_atomic`** is the result.
-/

namespace PhysMem

namespace Coremap

variable {m m' : Coremap} {i : Nat} {page : Page} {owner : FrameOwner} {count : Nat} {pinned : Bool}
  {first : Option Nat}

/-! ## Where the next search begins -/

theorem unlink_placement (h : m.unlink i = .ok m') : m'.placement = m.placement :=
  (congrArg Coremap.placement (unlink_unlinked h) : m'.unlinked.placement = m.unlinked.placement)

theorem pushNewest_placement (h : m.pushNewest i = .ok m') : m'.placement = m.placement :=
  (congrArg Coremap.placement (pushNewest_unlinked h) :
    m'.unlinked.placement = m.unlinked.placement)

theorem pushOldest_placement (h : m.pushOldest i = .ok m') : m'.placement = m.placement :=
  (congrArg Coremap.placement (pushOldest_unlinked h) :
    m'.unlinked.placement = m.unlinked.placement)

theorem clearUser_placement (h : m.clearUser i = .ok m') : m'.placement = m.placement := by
  obtain ⟨d, userCount, -, -, -, rfl⟩ := clearUser_eq_ok h
  rfl

theorem freeRun_placement (h : m.freeRun i = .ok (count, m')) : m'.placement = m.placement := by
  have fold : ∀ (l : List Nat) (m : Coremap),
      (l.foldl (fun m j => m.put j .free) m).placement = m.placement := by
    intro l
    induction l with
    | nil => exact fun _ => rfl
    | cons j rest ih => exact fun m => ih (m.put j .free)
  obtain ⟨-, -, _, kernelCount, rfl, -, rfl⟩ := freeRun_eq_ok h
  exact fold _ m

theorem markRun_placement {last n : Nat} (h : m.markRun owner pinned last i n = .ok m') :
    m'.placement = m.placement := by
  induction n generalizing m i with
  | zero =>
      cases h
      rfl
  | succ n ih =>
      obtain ⟨d, -, -, h⟩ := markRun_succ h
      have hsame := ih h
      exact hsame

/-- Only a search moves the place where the next one begins. -/
theorem claimRun_placement (h : m.claimRun owner count pinned = .ok (first, m')) :
    ∃ range, m.placement.place m.frames count = .ok (range, m'.placement) := by
  cases claimRun_cases h with
  | none _ hplace => exact ⟨_, hplace⟩
  | kernel hplace _ hmark | user hplace _ hmark =>
      have hsame := markRun_placement hmark
      exact ⟨_, hplace.trans (congrArg (fun pl => Except.ok (_, pl)) hsame.symm)⟩

theorem releaseOne_placement {space : Nat} {isFree : Bool}
    (h : m.releaseOne space i = .ok (isFree, m')) : m'.placement = m.placement := by
  cases releaseOne_cases h with
  | other => rfl
  | deferred => rfl
  | freed _ _ _ hunlink hclear =>
      exact (clearUser_placement hclear).trans (unlink_placement hunlink)

theorem detachOldest_placement {victim : Option (Nat × Page)}
    (h : m.detachOldest = .ok (victim, m')) : m'.placement = m.placement := by
  cases detachOldest_cases h with
  | none => rfl
  | detached _ hunlink =>
      have hsame := unlink_placement hunlink
      exact hsame

theorem abortEviction_placement {onChain : Bool} (h : m.abortEviction i = .ok (onChain, m')) :
    m'.placement = m.placement := by
  cases abortEviction_cases h with
  | freed _ _ _ _ hclear =>
      have hsame := clearUser_placement hclear
      exact hsame
  | linked _ _ _ _ hpush =>
      have hsame := pushOldest_placement hpush
      exact hsame

theorem unpin_placement {onChain : Bool} (h : m.unpin i = .ok (onChain, m')) :
    m'.placement = m.placement := by
  cases unpin_cases h with
  | freed _ _ _ hclear =>
      have hsame := clearUser_placement hclear
      exact hsame
  | linked _ _ _ hpush =>
      have hsame := pushNewest_placement hpush
      exact hsame

theorem release_placement {answer : Except FrameError Release}
    (h : m.release i = .ok (answer, m')) : m'.placement = m.placement := by
  cases release_cases h with
  | refused => rfl
  | deferred => rfl
  | user _ _ _ _ _ _ hunlink hclear =>
      exact (clearUser_placement hclear).trans (unlink_placement hunlink)
  | kernel _ _ _ _ _ _ hfree => exact freeRun_placement hfree

/-- Every request leaves the place where the next search begins, or searches. -/
theorem perform_placement {request : Request} {answer : Answer}
    (h : m.perform request = .ok (answer, m')) : m'.placement = m.placement ∨
      ∃ count range, m.placement.place m.frames count = .ok (range, m'.placement) := by
  cases perform_cases h with
  | claim owner count first h =>
      cases claim_cases h with
      | none hrun | kernel hrun => exact Or.inr ⟨count, claimRun_placement hrun⟩
      | user hrun hpush =>
          rw [pushNewest_placement hpush]
          exact Or.inr ⟨count, claimRun_placement hrun⟩
  | claimPinned page first h => exact Or.inr ⟨1, claimRun_placement h⟩
  | detachOldest victim h => exact Or.inl (detachOldest_placement h)
  | abortEviction i _ h => exact Or.inl (abortEviction_placement h)
  | finishEviction i _ h =>
      obtain ⟨d, evictingCount, -, -, -, -, hclear⟩ := finishEviction_eq_ok h
      have hsame := clearUser_placement hclear
      exact Or.inl hsame
  | unpin i _ h => exact Or.inl (unpin_placement h)
  | discardPinned i h =>
      obtain ⟨d, -, -, hclear⟩ := discardPinned_eq_ok h
      exact Or.inl (clearUser_placement hclear)
  | release i _ h => exact Or.inl (release_placement h)
  | releaseSpace space _ h =>
      refine Or.inl (Sweep.foldlM_range (P := fun _ (t : Nat × Coremap) =>
        t.2.placement = m.placement) rfl ?_ h)
      rintro k ⟨c, t⟩ ⟨c', t'⟩ - ht hone
      obtain ⟨⟨b, v⟩, hv, he⟩ := Fault.bind_eq_ok.mp hone
      cases he
      exact (releaseOne_placement hv).trans ht
  | setTlbSlot i slot _ h =>
      cases setTlbSlot_cases h with
      | refused | set => exact Or.inl rfl

/-- Evolution keeps the place where the next search begins in the table. -/
theorem Evolves.inTable (hin : m.placement.InTable m.size) (h : m.Evolves m') :
    m'.placement.InTable m'.size := by
  induction h with
  | refl => exact hin
  | tail _ hone ih =>
      obtain ⟨request, answer, -, hperform⟩ := hone
      rw [(perform_table hperform).size]
      rcases perform_placement hperform with hsame | ⟨count, range, hplace⟩
      · rw [hsame]
        exact ih
      · exact Placement.place_inTable hplace ih

theorem Evicts.evolves (h : m.Evicts i page m') : m.Evolves m' := by
  obtain ⟨m₁, hdetach, hfinish⟩ := h
  have first : m.Evolves m₁ := .one .detachOldest trivial rfl hdetach
  exact first.trans (.one (.finishEviction i) trivial rfl hfinish)

/-- **A claim that finds no frames** changes nothing, and there are none. -/
theorem claimRun_none (hp : m.placement.IsPolicy) (hin : m.placement.InTable m.size)
    (h : m.claimRun owner count pinned = .ok (none, m')) :
    m' = m ∧ ∀ s, ¬ IsFreeRun m.frames s count := by
  cases claimRun_cases h with
  | none hcount hplace =>
      obtain rfl := Placement.place_none_same hplace hp hin
      exact ⟨rfl, Placement.place_none hplace hp (Nat.pos_of_ne_zero hcount)⟩

theorem claim_none (hp : m.placement.IsPolicy) (hin : m.placement.InTable m.size)
    (h : m.claim owner count = .ok (none, m')) :
    m' = m ∧ ∀ s, ¬ IsFreeRun m.frames s count := by
  cases claim_cases h with
  | none hrun => exact claimRun_none hp hin hrun

/-- A frame that is free is a free run of one frame. -/
theorem HasRole.isFreeRun (h : m.HasRole i .free) : IsFreeRun m.frames i 1 := by
  have hi : i < m.size := lt_size_of_use? h
  refine ⟨hi, fun x hle hlt => ?_⟩
  obtain rfl : x = i := by omega
  obtain ⟨d, hd, huse⟩ := h.frame
  rw [frame_ok hd]
  exact congrArg some (congrArg Descriptor.allocated huse : d.use.allocated = _)

end Coremap

/-- Several frames were asked for, and the oldest one has been evicted in vain: the memory is one
that an eviction leads to. -/
def Memory.EvictsInVain (m : Memory) (count : Nat) (e : FrameError) (n : Memory) : Prop :=
  e = .outOfMemory ∧ 1 < count ∧ count ≤ m.coremap.size ∧
    ∃ frame slot p, m.coremap.oldest = some frame ∧ m.Performs .evict p ∧
      p.next = .reply (.evicted (.ok (frame, slot))) ∧ p.memory = n

namespace Task

variable {m : Memory} {p q : Piece} {need : Need} {coremap : Coremap}

theorem claimFor_none_same (hp : m.coremap.placement.IsPolicy)
    (hin : m.coremap.placement.InTable m.coremap.size)
    (h : claimFor m.coremap need = .ok (none, coremap)) :
    coremap = m.coremap ∧ ∀ s, ¬ IsFreeRun m.coremap.frames s (needed need) := by
  cases need with
  | pageIn page slot => exact Coremap.claimRun_none hp hin h
  | allocate owner count seen => exact Coremap.claim_none hp hin h

/-! ## Answers -/

/-- Behind an answer nothing changes any more. -/
theorem Leads.unchanged {reply : Reply} (hlead : Leads p q) (hn : p.next = .reply reply)
    (h : m.Unchanged p.memory) : m.Unchanged q.memory := by
  obtain ⟨d, hd, htouches⟩ := hlead.putDevice hn
  rw [hd]
  exact h.putDevice htouches

theorem Leads.trans {r : Piece} (h : Leads p q) (h' : Leads q r) : Leads p r := by
  induction h' with
  | refl => exact h
  | resumed _ hn hr ih => exact ih.resumed hn hr
  | faulted _ hfault hn ih => exact ih.faulted hfault hn

/-- The answer that an operation gives is its answer. -/
theorem Leads.eq_reply {reply reply' : Reply} (h : Leads p q) (hp : p.next = .reply reply)
    (hq : q.next = .reply reply') : reply' = reply := by
  have hsame := (h.of_reply hp).1
  rw [hp, hq] at hsame
  exact Next.reply.inj hsame

/-- A request that is met is answered with an address. -/
theorem met_allocate {notices : List Notice} {i : Nat} {owner : FrameOwner} {count : Nat}
    {seen : Bool} (h : met m notices i (.allocate owner count seen) = .ok p) :
    ∃ address, p.next = .reply (.address (.ok address)) := by
  cases met_cases h with
  | allocated => exact ⟨_, rfl⟩
  | seen => exact ⟨_, rfl⟩

/-- **An eviction that was to make room for a request** changes nothing when the request is not met,
or has been in vain. -/
theorem evictionEnded_atomic {owner : FrameOwner} {count : Nat} {seen : Bool} {e : FrameError}
    {r : Piece} {result : Except EvictError (Nat × Nat)} {notices before : List Notice}
    (hm : m.coremap.Sound) (hin : m.coremap.placement.InTable m.coremap.size) (ha : m.swap.Sound)
    (hroom : count ≤ m.coremap.size) (hr : m.Performs .evict r)
    (hn : r.next = .reply (.evicted result))
    (hended : evictionEnded r.memory notices (some (.allocate owner count seen)) result = .ok p)
    (hlead : Leads { p with notices := before ++ p.notices } q)
    (he : q.next = .reply (.address (.error e))) (hcount : 0 < count) :
    m.Unchanged q.memory ∨ m.EvictsInVain count e q.memory := by
  have hstage := evictStage_of_performs hm ha hr
  rw [hn] at hstage
  obtain ⟨start, hstart, hevict⟩ := hr
  generalize hmemory : r.memory = n at hstage hended
  cases evictionEnded_cases hended with
  | noVictim hunmet =>
      cases unmet_cases hunmet
      cases hstage with
      | failed hu => exact Or.inl (hlead.unchanged rfl hu)
  | failed hunmet =>
      cases unmet_cases hunmet
      cases hstage with
      | failed hu => exact Or.inl (hlead.unchanged rfl hu)
  | room coremap _ hmet =>
      obtain ⟨address, hn⟩ := met_allocate hmet
      exact nomatch hlead.eq_reply hn he
  | noRoom coremap hclaim hunmet =>
      cases unmet_cases hunmet
      cases hstage with
      | @ended _ frame slot page hevicted =>
          obtain ⟨hold, -, hsound, hput⟩ := hevicted.coremap.spec hm
          obtain ⟨rfl, hnone⟩ :=
            claimFor_none_same hsound.policy (hevicted.coremap.evolves.inTable hin) hclaim
          refine Or.inr ⟨?_, ?_, hroom, frame, slot, { r with memory := q.memory }, hold,
            ⟨start, hstart, hevict.trans ((hlead.of_reply rfl).2.2 r hmemory)⟩, hn, rfl⟩
          · cases hlead.eq_reply rfl he
            rfl
          · -- one frame is free now, so more than one was asked for
            have hne : count ≠ 1 := by
              rintro rfl
              have hfree : n.coremap.HasRole frame .free := hput.role_self
              exact hnone frame hfree.isFreeRun
            omega

/-- **A request that is not met** has changed nothing, or has evicted the oldest frame in vain. -/
theorem provide_atomic {owner : FrameOwner} {count : Nat} {seen : Bool} {e : FrameError}
    (hm : m.coremap.Sound) (hin : m.coremap.placement.InTable m.coremap.size) (ha : m.swap.Sound)
    (hp : provide m (.allocate owner count seen) = .ok p) (hlead : Leads p q)
    (he : q.next = .reply (.address (.error e))) (hcount : 0 < count) :
    m.Unchanged q.memory ∨ m.EvictsInVain count e q.memory := by
  cases provide_cases hp with
  | tooFew _ hunmet =>
      cases unmet_cases hunmet
      exact Or.inl (hlead.unchanged rfl .refl)
  | room coremap _ _ hmet =>
      obtain ⟨address, hn⟩ := met_allocate hmet
      exact nomatch hlead.eq_reply hn he
  | noRoom coremap hroom hclaim hevict =>
      obtain ⟨rfl, -⟩ := claimFor_none_same hm.policy hin hclaim
      cases hlead.wantStage hm ha hevict with
      | evicting _ _ _ hn => exact nomatch he.symm.trans hn
      | ended hr hn hended hlead =>
          exact evictionEnded_atomic hm hin ha hroom hr hn hended hlead he hcount

/-- **An allocation alone that fails** has changed nothing, or has evicted the oldest frame in
vain. -/
theorem allocate_atomic {kind : FrameKind} {count : Nat} {page : Option Page} {e : FrameError}
    (hm : m.coremap.Sound) (hin : m.coremap.placement.InTable m.coremap.size) (ha : m.swap.Sound)
    (h : m.Performs (.allocate kind count page) p) (he : p.next = .reply (.address (.error e))) :
    m.Unchanged p.memory ∨ m.EvictsInVain count e p.memory := by
  obtain ⟨first, hfirst, hlead⟩ := h
  cases allocate_cases hfirst with
  | refused => exact Or.inl (hlead.unchanged rfl .refl)
  | provided howner hp =>
      refine provide_atomic hm hin ha hp hlead he (Nat.pos_of_ne_zero fun hzero => ?_)
      unfold requestOwner at howner
      rw [if_pos hzero] at howner
      exact nomatch howner

end Task

namespace Machine

theorem managed_run_of_sequential {w z : Machine} {moves : List Move} {events : List Event}
    (h : w.run sequential moves = some (z, events)) : w.run managed moves = some (z, events) :=
  run_strict (P := fun _ => True) (fun _ _ _ _ _ _ _ => trivial)
    (fun _ _ _ => managed_of_sequential) trivial h

/-- Behind every run of the allocator the next search begins at a frame of the table. -/
theorem inTable_of_run {m : Memory} {w : Machine} {moves : List Move} {events : List Event}
    (hm : m.IsFresh) (h : (Machine.idle m).run managed moves = some (w, events)) :
    w.memory.coremap.placement.InTable w.memory.coremap.size := by
  refine (run_invariant (P := fun w => w.Sound ∧
    w.memory.coremap.placement.InTable w.memory.coremap.size) ?_ ⟨.idle hm, ?_⟩ h).2
  · rintro w move w' events ⟨hw, hin⟩ hrule hstep
    exact ⟨hw.moved (moved_of_step hw hrule hstep), (step_evolves hw hrule hstep).inTable hin⟩
  · show m.coremap.placement.InTable m.coremap.size
    obtain ⟨count, base, policy, hcreate⟩ := hm.coremap
    unfold Coremap.create at hcreate
    split at hcreate
    · rw [← Except.ok.inj hcreate]
      cases policy with
      | firstFit => trivial
      | nextFit => exact Nat.zero_mod _
    · exact nomatch hcreate

/-- **Failed allocations are atomic**, in every state that sequential operations lead to, for every
request and wherever the drive fails.

Coremap, slot map, counters and the pages in the slots are as they were, or the request was one for
several frames that is out of memory and has evicted the oldest frame: then the memory is the one
that an eviction leads to. A request that makes no sense or asks for more frames than there are, and
one that has found no victim or whose eviction failed, leave the chain as it was, the oldest frame at
its head, and no slot reserved that was not. -/
theorem failed_allocation_is_atomic {m : Memory} {moves : List Move} {w : Machine}
    {events : List Event} (hm : m.IsFresh)
    (hrun : (Machine.idle m).run sequential moves = some (w, events))
    {kind : FrameKind} {count : Nat} {page : Option Page} {p : Task.Piece} {e : FrameError}
    (h : w.memory.Performs (.allocate kind count page) p)
    (he : p.next = .reply (.address (.error e))) :
    (w.memory.Unchanged p.memory ∨ w.memory.EvictsInVain count e p.memory) ∧
    ((∃ reason, e = .invalidArgument reason) ∨ w.memory.coremap.size < count ∨
        w.memory.coremap.oldest = none ∨ (∃ cause, e = .evictionFailed cause) →
      w.memory.Unchanged p.memory ∧ p.memory.coremap.chain = w.memory.coremap.chain ∧
        p.memory.coremap.chain.head? = w.memory.coremap.oldest ∧
        ∀ x, p.memory.swap.slots.isUsed x = w.memory.swap.slots.isUsed x) := by
  have hs := (Intact.of_run hm hrun).1
  have hin := inTable_of_run hm (managed_run_of_sequential hrun)
  have hends := Task.allocate_atomic hs.coremap hin hs.area h he
  refine ⟨hends, fun hcause => ?_⟩
  have hu : w.memory.Unchanged p.memory := by
    rcases hends with hu | ⟨rfl, -, hroom, frame, slot, q, hold, -⟩
    · exact hu
    · rcases hcause with ⟨reason, hreason⟩ | hlarge | hempty | ⟨cause, hfailed⟩
      · exact nomatch hreason
      · exact absurd hroom (Nat.not_le_of_lt hlarge)
      · exact nomatch hold.symm.trans hempty
      · exact nomatch hfailed
  obtain ⟨l, hl, -⟩ := hs.coremap.chain
  refine ⟨hu, ?_, ?_, fun x => ?_⟩
  · rw [hu.coremap]
  · rw [hu.coremap, hl.chain, hl.oldest]
  · rw [hu.slots]

/-- Two frames hold pages, and the drive is about to fail. -/
def fullAndFailing : List Move :=
  [.start (.allocate .user 1 (some ⟨1, 0⟩)), .start (.allocate .user 1 (some ⟨1, 1⟩)),
    .probe (.setLimit .writes (some 3))]

/-- A third page gets no frame: the fourth sector of the victim cannot be written, and nothing has
changed. -/
theorem failed_allocation_is_atomic_of_fullAndFailing :
    ∃ w events p, (Machine.idle .small).run sequential fullAndFailing = some (w, events) ∧
      w.memory.coremap.chain = [0, 1] ∧ w.memory.Performs (.allocate .user 1 (some ⟨1, 2⟩)) p ∧
      p.next = .reply (.address (.error (.evictionFailed (.swap (.io .writeError))))) ∧
      w.memory.Unchanged p.memory ∧ p.memory.coremap.chain = [0, 1] := by
  have hbefore : ((Machine.idle .small).run sequential fullAndFailing).map
      (fun r => (r.1.calls, r.1.memory.coremap.chain)) = some ([], [0, 1]) := by decide +kernel
  have hafter : (((Machine.idle .small).run sequential fullAndFailing).bind fun r =>
      (r.1.run sequential (.start (.allocate .user 1 (some ⟨1, 2⟩)) ::
        List.replicate 5 .resume)).map fun u =>
          (u.1.calls, decide (.answered 0 (.allocate .user 1 (some ⟨1, 2⟩))
            (.address (.error (.evictionFailed (.swap (.io .writeError))))) ∈ u.2))) =
      some ([], true) := by decide +kernel
  obtain ⟨⟨w, events⟩, hrun, hw⟩ := Option.map_eq_some_iff.mp hbefore
  obtain ⟨hidle, hchain⟩ := Prod.mk.inj hw
  rw [hrun, Option.bind_some] at hafter
  obtain ⟨⟨z, later⟩, hz, hended⟩ := Option.map_eq_some_iff.mp hafter
  obtain ⟨hempty, hanswer⟩ := Prod.mk.inj hended
  have hquiet : ∀ move ∈ List.replicate 5 Move.resume, move.isQuiet = true := by decide
  obtain ⟨notices, hperforms⟩ :=
    performs_of_run rfl hquiet hidle hz hempty (of_decide_eq_true hanswer)
  obtain ⟨hu, hsame, -⟩ := (failed_allocation_is_atomic Memory.small_isFresh hrun hperforms rfl).2
    (Or.inr (Or.inr (Or.inr ⟨_, rfl⟩)))
  exact ⟨w, events, _, hrun, hchain, hperforms, rfl, hu, hsame.trans hchain⟩

end Machine

end PhysMem
