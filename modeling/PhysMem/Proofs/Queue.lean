import PhysMem.Proofs.Requests

/-!
# The queue — what each request does to the chain

Seen from outside, the chain is a list of frames, and each request acts on it as on a queue that can
also take back its head. Claims and page-ins append a frame, an eviction takes the head and, when it
is given up, puts a frame in front. What is given up is deleted wherever it stands.

* **`Event.requeue`** is what a request makes of the list.
* **`Sound.requeue`** — the links of the coremap follow it, and **`Sound.chain_requeue`** says the
  same of the list that a walk of the chain yields.
-/

namespace PhysMem.Coremap

variable {m m' m₁ : Coremap} {i x : Nat} {l : List Nat} {page : Page} {request : Request}
  {answer : Answer}

/-- Frame `i` holds a page of the address space. -/
def holds (m : Coremap) (space i : Nat) : Bool :=
  ((m.use? i).map (·.holdsPageOf space)).getD false

/-- The chain after a request, from the oldest frame to the newest, given the coremap and the chain
before it. -/
def Event.requeue (m : Coremap) : Event → List Nat → List Nat
  | ⟨.claim (.user _) _, .claimed (some i)⟩, l | ⟨.unpin i, .onChain true⟩, l => l ++ [i]
  | ⟨.detachOldest, _⟩, l => l.tail
  | ⟨.abortEviction i, .onChain true⟩, l => i :: l
  | ⟨.release i, _⟩, l => l.erase i
  | ⟨.releaseSpace space, _⟩, l => l.filter fun i => !m.holds space i
  | _, l => l

/-! ## Edits of the chain -/

/-- The chain is the list of the resident frames. -/
theorem Sound.mem_linked (hm : m.Sound) (hl : m.Linked l) :
    i ∈ l ↔ ∃ page, m.HasRole i (.resident page) := by
  obtain ⟨l', hl', hmem⟩ := hm.chain
  rw [← hl.chain, hl'.chain]
  exact hmem i

/-- A frame that is not resident is off the chain. -/
theorem Sound.not_mem_linked {r : FrameRole} (hm : m.Sound) (hl : m.Linked l) (hr : m.HasRole i r)
    (hne : ∀ page, r ≠ .resident page) : i ∉ l := by
  intro hi
  obtain ⟨page, hres⟩ := (hm.mem_linked hl).mp hi
  exact hne page (hr.unique hres)

/-- A frame is deleted where it stands. -/
theorem Linked.erase_middle {older newer : List Nat} (hl : m.Linked (older ++ i :: newer)) :
    (older ++ i :: newer).erase i = older ++ newer ∧ i ∉ older ++ newer := by
  have hnd := hl.nodup
  rw [List.nodup_middle, List.nodup_cons] at hnd
  rw [List.erase_append_right _ fun hi => hnd.1 (List.mem_append_left _ hi), List.erase_cons_head]
  exact ⟨rfl, hnd.1⟩

/-- A frame that is taken off the chain is deleted. -/
theorem Linked.unlink_erase (hl : m.Linked l) (h : m.unlink i = .ok m₁) :
    m₁.Linked (l.erase i) ∧ i ∉ l.erase i := by
  obtain ⟨older, newer, rfl, hl₁⟩ := hl.unlink h
  rw [hl.erase_middle.1]
  exact ⟨hl₁, hl.erase_middle.2⟩

/-- A resident frame that is given up is deleted. -/
theorem Linked.unlink_clear {m₂ : Coremap} (hl : m.Linked l) (hunlink : m.unlink i = .ok m₁)
    (hclear : m₁.clearUser i = .ok m₂) : m₂.Linked (l.erase i) := by
  obtain ⟨hl₁, hi⟩ := hl.unlink_erase hunlink
  refine hl₁.of_sameLinks (clearUser_sameLinks hclear ?_)
  obtain ⟨⟨u, hu, -⟩, -⟩ := clearUser_ok hclear
  obtain ⟨d, hd, -⟩ := Option.map_eq_some_iff.mp hu
  have hlink : m₁.link? i = some (d.prev, d.next) := by
    unfold link?
    rw [hd]
    rfl
  rw [hlink, hl₁.off i hi _ hlink]

/-- A frame that comes back from its way is at an end of the chain, or free if it was orphaned. -/
theorem Sound.pushed {r : FrameRole} (hm : m.Sound) (hl : m.Linked l) (hr : m.HasRole i r)
    (hne : ∀ page, r ≠ .resident page) (hsame : m.SameLinks m₁) :
    (∀ {m'}, m₁.pushNewest i = .ok m' → m'.Linked (l ++ [i])) ∧
      (∀ {m'}, m₁.pushOldest i = .ok m' → m'.Linked (i :: l)) ∧
      ∀ {m'}, m₁.clearUser i = .ok m' → m'.Linked l := by
  have hi := hm.not_mem_linked hl hr hne
  have hl₁ := hl.of_sameLinks hsame
  refine ⟨fun h => hl₁.pushNewest hi h, fun h => hl₁.pushOldest hi h, fun h => ?_⟩
  refine hl₁.of_sameLinks (clearUser_sameLinks h ?_)
  rw [hsame.link]
  exact hm.link_of_loose hr hne

theorem Sound.unpin_requeue {onChain : Bool} (hm : m.Sound) (hl : m.Linked l)
    (h : m.unpin i = .ok (onChain, m')) :
    m'.Linked (Event.requeue m ⟨.unpin i, .onChain onChain⟩ l) := by
  obtain ⟨-, page, orphaned, hr, -⟩ := hm.unpin h
  cases unpin_cases h with
  | freed hd _ _ hclear => exact (hm.pushed hl hr nofun (unpinned_sameLinks hd)).2.2 hclear
  | linked hd _ _ hpush => exact (hm.pushed hl hr nofun (unpinned_sameLinks hd)).1 hpush

theorem Sound.abortEviction_requeue {onChain : Bool} (hm : m.Sound) (hl : m.Linked l)
    (h : m.abortEviction i = .ok (onChain, m')) :
    m'.Linked (Event.requeue m ⟨.abortEviction i, .onChain onChain⟩ l) := by
  obtain ⟨-, page, orphaned, hr, -⟩ := hm.abortEviction h
  cases abortEviction_cases h with
  | freed hd _ _ _ hclear => exact (hm.pushed hl hr nofun (unmarked_sameLinks hd)).2.2 hclear
  | linked hd _ _ _ hpush => exact (hm.pushed hl hr nofun (unmarked_sameLinks hd)).2.1 hpush

theorem Linked.detachOldest_requeue {victim : Option (Nat × Page)} (hl : m.Linked l)
    (h : m.detachOldest = .ok (victim, m')) : l.head? = victim.map (·.1) ∧ m'.Linked l.tail := by
  cases detachOldest_cases h with
  | none holdest =>
      obtain rfl := List.head?_eq_none_iff.mp (hl.oldest.symm.trans holdest)
      exact ⟨rfl, hl⟩
  | @detached first _ _ m₂ d holdest hunlink hd =>
      obtain ⟨newer, rfl⟩ := List.head?_eq_some_iff.mp (hl.oldest.symm.trans holdest)
      have hl₂ := (hl.unlink_erase hunlink).1
      rw [List.erase_cons_head] at hl₂
      have hflag : m₂.SameLinks (m₂.put first { d with evicting := true }) :=
        put_sameLinks hd rfl rfl
      exact ⟨rfl, hl₂.of_sameLinks (hflag.trans (sameLinks_of_frames rfl rfl rfl))⟩

theorem Sound.finishEviction_requeue {orphaned : Bool} (hm : m.Sound) (hl : m.Linked l)
    (h : m.finishEviction i = .ok (orphaned, m')) : m'.Linked l := by
  obtain ⟨-, page, hr, -⟩ := hm.finishEviction h
  obtain ⟨d, evictingCount, -, -, -, -, hclear⟩ := finishEviction_eq_ok h
  have hsame : m.SameLinks { m with evictingCount } := sameLinks_of_frames rfl rfl rfl
  exact (hm.pushed hl hr nofun hsame).2.2 hclear

theorem Sound.discardPinned_requeue (hm : m.Sound) (hl : m.Linked l)
    (h : m.discardPinned i = .ok m') : m'.Linked l := by
  obtain ⟨-, page, orphaned, hr, -⟩ := hm.discardPinned h
  obtain ⟨d, -, -, hclear⟩ := discardPinned_eq_ok h
  exact (hm.pushed hl hr nofun (.refl m)).2.2 hclear

theorem Sound.claim_requeue {owner : FrameOwner} {count : Nat} {first : Option Nat} (hm : m.Sound)
    (hl : m.Linked l) (hcount : owner = .kernel ∨ count = 1)
    (h : m.claim owner count = .ok (first, m')) :
    m'.Linked (Event.requeue m ⟨.claim owner count, .claimed first⟩ l) := by
  cases claim_cases h with
  | none hrun =>
      have hl' := hl.of_sameLinks (hm.claimRun_sameLinks hrun)
      cases owner <;> exact hl'
  | kernel hrun => exact hl.of_sameLinks (hm.claimRun_sameLinks hrun)
  | user hrun hpush =>
      obtain rfl := hcount.resolve_left nofun
      obtain ⟨hnone, -⟩ | ⟨i, hi, hr, -⟩ := hm.claimRun_user hrun
      · exact nomatch hnone
      · cases hi
        exact (hm.pushed hl hr nofun (hm.claimRun_sameLinks hrun)).1 hpush

/-- A resident frame is not in transit. -/
theorem HasRole.still {d : Descriptor} (h : m.HasRole i (.resident page))
    (hd : m.use? i = some d.use) : d.inTransit = false := by
  have hstill : d.use.inTransit = false :=
    congrArg Descriptor.inTransit (Option.some.inj (hd.symm.trans h))
  exact hstill

theorem Sound.release_requeue {answer : Except FrameError Release} (hm : m.Sound)
    (hl : m.Linked l) (h : m.release i = .ok (answer, m')) : m'.Linked (l.erase i) := by
  cases release_cases h with
  | @refused d _ hd hwhy =>
      -- a resident frame is not refused
      obtain ⟨r, hr, huse⟩ := hm.hasRole (use?_of_getElem? (frame_ok hd))
      rw [List.erase_of_not_mem]
      · exact hl
      · intro hi
        obtain ⟨page, hres⟩ := (hm.mem_linked hl).mp hi
        obtain rfl := hr.unique hres
        have hused : d.use.allocated = true := congrArg Descriptor.allocated huse
        have hkept : d.use.orphaned = false := congrArg Descriptor.orphaned huse
        rcases hwhy with hfree | hinside | horphan
        · exact nomatch hfree.symm.trans hused
        · obtain ⟨tail, ht⟩ := hm.kernel_of_insideRun hinside
          exact nomatch hres.unique ht
        · exact nomatch horphan.symm.trans hkept
  | deferred hd _ _ _ htransit =>
      rw [List.erase_of_not_mem]
      · exact hl.of_sameLinks (put_sameLinks hd rfl rfl)
      · intro hi
        obtain ⟨page, hres⟩ := (hm.mem_linked hl).mp hi
        exact nomatch htransit.symm.trans (hres.still (use?_of_getElem? (frame_ok hd)))
  | user _ _ _ _ _ _ hunlink hclear => exact hl.unlink_clear hunlink hclear
  | kernel hd halloc _ _ _ hkernel hfree =>
      obtain ⟨tail, ht⟩ := hm.kernel_of_frame hd halloc hkernel
      rw [List.erase_of_not_mem (hm.not_mem_linked hl ht nofun)]
      exact hl.of_sameLinks (hm.freeRun_sameLinks ht hfree)

/-- A sweep that lets frame `k` stand, or does not find it. -/
theorem filter_sweep_same {p : Nat → Bool} {k : Nat} (h : k ∈ l → p k = false) :
    l.filter (fun i => !(decide (i < k + 1) && p i)) = l.filter fun i => !(decide (i < k) && p i) := by
  refine List.filter_congr fun i hi => ?_
  by_cases hik : i = k
  · subst hik
    simp [h hi]
  · have hlt : i < k + 1 ↔ i < k := by omega
    simp [hlt]

/-- A sweep that deletes frame `k`. -/
theorem filter_sweep_erase {p : Nat → Bool} {k : Nat} (hnd : l.Nodup) (h : p k = true) :
    l.filter (fun i => !(decide (i < k + 1) && p i)) =
      (l.filter fun i => !(decide (i < k) && p i)).erase k := by
  rw [(hnd.filter _).erase_eq_filter, List.filter_filter]
  refine List.filter_congr fun i hi => ?_
  by_cases hik : i = k
  · subst hik
    simp [h]
  · have hlt : i < k + 1 ↔ i < k := by omega
    simp [hlt, hik]

theorem Sound.releaseSpace_requeue {space n : Nat} (hm : m.Sound) (hl : m.Linked l)
    (h : m.releaseSpace space = .ok (n, m')) :
    m'.Linked (l.filter fun i => !m.holds space i) := by
  -- of the first `k` frames those of the address space are off the chain
  have key : m'.Linked (l.filter fun i => !(decide (i < m.size) && m.holds space i)) := by
    refine (Sweep.foldlM_range (P := fun k (t : Nat × Coremap) =>
      t.2.Linked (l.filter fun i => !(decide (i < k) && m.holds space i)) ∧
        ∀ i, k ≤ i → t.2.use? i = m.use? i) ⟨?_, fun _ _ => rfl⟩ ?_ h).1
    · simpa using hl
    · rintro k ⟨c, t⟩ ⟨c', t'⟩ - ⟨ht, hrest⟩ hone
      obtain ⟨⟨b, v⟩, hv, he⟩ := Fault.bind_eq_ok.mp hone
      cases he
      obtain ⟨u, -, hput⟩ := releaseOne_puts hv
      refine ⟨?_, fun i hi => (hput.use i).trans ?_⟩
      · have huse : ∀ {d : Descriptor}, t.frame k = .ok d → m.use? k = some d.use :=
          fun hd => (hrest k (Nat.le_refl k)).symm.trans (use?_of_getElem? (frame_ok hd))
        have hholds : ∀ {d : Descriptor}, t.frame k = .ok d →
            m.holds space k = d.holdsPageOf space := by
          intro d hd
          show ((m.use? k).map (·.holdsPageOf space)).getD false = _
          rw [huse hd]
          rfl
        cases releaseOne_cases hv with
        | other hd hother =>
            rw [filter_sweep_same fun _ => (hholds hd).trans hother]
            exact ht
        | deferred hd hours htransit =>
            rw [filter_sweep_same]
            · exact ht.of_sameLinks (put_sameLinks hd rfl rfl)
            · -- a frame in transit is off the chain
              intro hk
              obtain ⟨page, hres⟩ := (hm.mem_linked hl).mp hk
              exact nomatch htransit.symm.trans (hres.still (huse hd))
        | freed hd hours _ hunlink hclear =>
            rw [filter_sweep_erase hl.nodup ((hholds hd).trans hours)]
            exact ht.unlink_clear hunlink hclear
      · rw [if_neg (by omega)]
        exact hrest i (by omega)
  have hall : l.filter (fun i => !(decide (i < m.size) && m.holds space i)) =
      l.filter fun i => !m.holds space i :=
    List.filter_congr fun i hi => by simp [hl.lt_size hi]
  rw [← hall]
  exact key

/-- **Each request acts on the chain as on a queue.** -/
theorem Sound.requeue (hm : m.Sound) (hl : m.Linked l) (hr : request.IsProper)
    (h : m.perform request = .ok (answer, m')) :
    m'.Linked (Event.requeue m ⟨request, answer⟩ l) := by
  cases perform_cases h with
  | claim owner count first h₁ => exact hm.claim_requeue hl hr h₁
  | claimPinned page first h₁ => exact hl.of_sameLinks (hm.claimRun_sameLinks h₁)
  | detachOldest victim h₁ => exact (hl.detachOldest_requeue h₁).2
  | abortEviction i onChain h₁ => exact hm.abortEviction_requeue hl h₁
  | finishEviction i orphaned h₁ => exact hm.finishEviction_requeue hl h₁
  | unpin i onChain h₁ => exact hm.unpin_requeue hl h₁
  | discardPinned i h₁ => exact hm.discardPinned_requeue hl h₁
  | release i answer h₁ => exact hm.release_requeue hl h₁
  | releaseSpace space freed h₁ => exact hm.releaseSpace_requeue hl h₁
  | setTlbSlot i slot answer h₁ => exact hl.of_sameLinks (setTlbSlot_sameLinks h₁)

/-- The list that a walk of the chain yields, after a request. -/
theorem Sound.chain_requeue (hm : m.Sound) (hr : request.IsProper)
    (h : m.perform request = .ok (answer, m')) :
    m'.chain = Event.requeue m ⟨request, answer⟩ m.chain := by
  obtain ⟨l, hl, -⟩ := hm.chain
  rw [(hm.requeue hl hr h).chain, hl.chain]

end PhysMem.Coremap
