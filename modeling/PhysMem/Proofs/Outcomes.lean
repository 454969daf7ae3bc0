import PhysMem.Frame.Coremap

/-!
# Outcomes — what the operations of the coremap come to

An operation of the coremap checks a descriptor, replaces it, and then links its frame, unlinks it
or frees it. Here every operation is opened once: its view has one case for each way that it goes
well, with all that it checked on that way, what it called and the coremap it ends with. What an
operation does to uses, to links, to counters or to TLB slots is read off these cases.

* **`PushNewestCases`**, **`PushOldestCases`** and **`unlink_steps`** — the chain.
* **`ClaimRunCases`**, **`ClaimCases`** — frames are found or not, and counted for their owner.
* **`UnpinCases`**, **`DetachCases`**, **`AbortCases`** and the equations beside them — frames in
  transit.
* **`ReleaseCases`**, **`ReleaseOneCases`** — frames that are given up.
-/

namespace PhysMem.Coremap

variable {m m' : Coremap} {i : Nat}

/-! ## The chain -/

/-- A frame that was off the chain joins it as the newest, behind another or alone. -/
inductive PushNewestCases (m : Coremap) (i : Nat) : Coremap → Prop
  | behind {d : Descriptor} {last : Nat} {m₁ : Coremap} (hd : m.frame i = .ok d)
      (hoff : d.prev = none ∧ d.next = none) (hnewest : m.newest = some last)
      (hlink : (m.put i { d with prev := m.newest }).update last
        (fun b => { b with next := some i }) = .ok m₁) :
      PushNewestCases m i { m₁ with newest := some i }
  | alone {d : Descriptor} (hd : m.frame i = .ok d) (hoff : d.prev = none ∧ d.next = none)
      (hnewest : m.newest = none) :
      PushNewestCases m i
        { m.put i { d with prev := m.newest } with oldest := some i, newest := some i }

/-- What names neither neighbour is off the chain. -/
theorem off_of_not_linked {d : Descriptor} (h : ¬ (d.prev.isSome || d.next.isSome) = true) :
    d.prev = none ∧ d.next = none := by
  rw [Bool.or_eq_true, not_or, Option.not_isSome_iff_eq_none, Option.not_isSome_iff_eq_none] at h
  exact h

theorem pushNewest_cases (h : m.pushNewest i = .ok m') : PushNewestCases m i m' := by
  obtain ⟨d, hd, h⟩ := Fault.bind_eq_ok.mp h
  obtain ⟨hlinked, h⟩ := Fault.guard_eq_ok.mp h
  have hoff := off_of_not_linked hlinked
  dsimp only at h
  split at h
  · next last hnewest =>
      obtain ⟨m₁, hlink, h⟩ := Fault.bind_eq_ok.mp h
      cases h
      exact .behind hd hoff hnewest hlink
  · next hnewest =>
      cases h
      exact .alone hd hoff hnewest

/-- A frame that was off the chain joins it as the oldest, before another or alone. -/
inductive PushOldestCases (m : Coremap) (i : Nat) : Coremap → Prop
  | before {d : Descriptor} {first : Nat} {m₁ : Coremap} (hd : m.frame i = .ok d)
      (hoff : d.prev = none ∧ d.next = none) (holdest : m.oldest = some first)
      (hlink : (m.put i { d with next := m.oldest }).update first
        (fun a => { a with prev := some i }) = .ok m₁) :
      PushOldestCases m i { m₁ with oldest := some i }
  | alone {d : Descriptor} (hd : m.frame i = .ok d) (hoff : d.prev = none ∧ d.next = none)
      (holdest : m.oldest = none) :
      PushOldestCases m i
        { m.put i { d with next := m.oldest } with newest := some i, oldest := some i }

theorem pushOldest_cases (h : m.pushOldest i = .ok m') : PushOldestCases m i m' := by
  obtain ⟨d, hd, h⟩ := Fault.bind_eq_ok.mp h
  obtain ⟨hlinked, h⟩ := Fault.guard_eq_ok.mp h
  have hoff := off_of_not_linked hlinked
  dsimp only at h
  split at h
  · next first holdest =>
      obtain ⟨m₁, hlink, h⟩ := Fault.bind_eq_ok.mp h
      cases h
      exact .before hd hoff holdest hlink
  · next holdest =>
      cases h
      exact .alone hd hoff holdest

/-- What unlinking a frame does: it clears the frame's own links, then closes the gap towards the
older side, then towards the newer one. -/
theorem unlink_steps (h : m.unlink i = .ok m') : ∃ d m₁, m.frame i = .ok d ∧
    (match d.prev with
      | some before =>
        (m.put i { d with prev := none, next := none }).update before
          (fun b => { b with next := d.next }) = .ok m₁
      | none => m.oldest = some i ∧
        m₁ = { m.put i { d with prev := none, next := none } with oldest := d.next }) ∧
    (match d.next with
      | some after => m₁.update after (fun a => { a with prev := d.prev }) = .ok m'
      | none => m₁.newest = some i ∧ m' = { m₁ with newest := d.prev }) := by
  obtain ⟨d, hd, h⟩ := Fault.bind_eq_ok.mp h
  dsimp only at h
  refine ⟨d, ?_⟩
  cases hp : d.prev with
  | some before =>
      rw [hp] at h
      obtain ⟨m₁, hm₁, h⟩ := Fault.bind_eq_ok.mp h
      refine ⟨m₁, hd, hm₁, ?_⟩
      cases hn : d.next with
      | some after =>
          rw [hn] at h
          exact h
      | none =>
          rw [hn] at h
          dsimp only at h
          split at h
          · next hnew =>
              cases h
              exact ⟨hnew, rfl⟩
          · exact nomatch h
  | none =>
      rw [hp] at h
      dsimp only at h
      split at h
      · next hold =>
          obtain ⟨m₁, hm₁, h⟩ := Fault.bind_eq_ok.mp h
          cases hm₁
          refine ⟨_, hd, ⟨hold, rfl⟩, ?_⟩
          cases hn : d.next with
          | some after =>
              rw [hn] at h
              exact h
          | none =>
              rw [hn] at h
              dsimp only at h
              split at h
              · next hnew =>
                  cases h
                  exact ⟨hnew, rfl⟩
              · exact nomatch h
      · exact nomatch h

/-! ## Claims -/

/-- One frame after the other was free and is marked as claimed. -/
theorem markRun_succ {owner : FrameOwner} {pinned : Bool} {last n : Nat}
    (h : m.markRun owner pinned last i (n + 1) = .ok m') :
    ∃ d, m.frame i = .ok d ∧ d.allocated = false ∧
      (m.put i (.claimed owner (i != last) pinned)).markRun owner pinned last (i + 1) n =
        .ok m' := by
  obtain ⟨d, hd, h⟩ := Fault.bind_eq_ok.mp h
  obtain ⟨hfree, h⟩ := Fault.guard_eq_ok.mp h
  exact ⟨d, hd, Bool.eq_false_iff.mpr hfree, h⟩

/-- No frames are found, or those that are found are marked and counted for their owner. -/
inductive ClaimRunCases (m : Coremap) (count : Nat) (pinned : Bool) :
    FrameOwner → Option Nat → Coremap → Prop
  | none {owner : FrameOwner} {placement : Placement} (hcount : count ≠ 0)
      (hplace : m.placement.place m.frames count = .ok (none, placement)) :
      ClaimRunCases m count pinned owner none { m with placement }
  | kernel {start stop last kernelCount : Nat} {placement : Placement} {m₁ : Coremap}
      (hplace : m.placement.place m.frames count = .ok (some (start, stop), placement))
      (hlast : Word.sub stop 1 = .ok last)
      (hmark : ({ m with placement } : Coremap).markRun .kernel pinned last start (stop - start) =
        .ok m₁)
      (hadd : Word.add Word.bits m₁.kernelCount count = .ok kernelCount) :
      ClaimRunCases m count pinned .kernel (some start) { m₁ with kernelCount }
  | user {page : Page} {start stop last userCount : Nat} {placement : Placement} {m₁ : Coremap}
      (hplace : m.placement.place m.frames count = .ok (some (start, stop), placement))
      (hlast : Word.sub stop 1 = .ok last)
      (hmark : ({ m with placement } : Coremap).markRun (.user page) pinned last start
        (stop - start) = .ok m₁)
      (hadd : Word.add Word.bits m₁.userCount count = .ok userCount) :
      ClaimRunCases m count pinned (.user page) (some start) { m₁ with userCount }

theorem claimRun_cases {owner : FrameOwner} {count : Nat} {pinned : Bool} {first : Option Nat}
    (h : m.claimRun owner count pinned = .ok (first, m')) :
    ClaimRunCases m count pinned owner first m' := by
  unfold claimRun at h
  obtain ⟨hcount, h⟩ := Fault.guard_eq_ok.mp h
  obtain ⟨⟨range, placement⟩, hplace, h⟩ := Fault.bind_eq_ok.mp h
  cases range with
  | none =>
      cases h
      exact .none hcount hplace
  | some range =>
      obtain ⟨last, hlast, h⟩ := Fault.bind_eq_ok.mp h
      obtain ⟨m₁, hmark, h⟩ := Fault.bind_eq_ok.mp h
      cases owner with
      | kernel =>
          obtain ⟨kernelCount, hadd, h⟩ := Fault.bind_eq_ok.mp h
          cases h
          exact .kernel hplace hlast hmark hadd
      | user page =>
          obtain ⟨userCount, hadd, h⟩ := Fault.bind_eq_ok.mp h
          cases h
          exact .user hplace hlast hmark hadd

/-- A user frame that is found joins the chain. -/
inductive ClaimCases (m : Coremap) (count : Nat) : FrameOwner → Option Nat → Coremap → Prop
  | none {owner : FrameOwner} {m' : Coremap}
      (hrun : m.claimRun owner count false = .ok (none, m')) : ClaimCases m count owner none m'
  | kernel {start : Nat} {m' : Coremap}
      (hrun : m.claimRun .kernel count false = .ok (some start, m')) :
      ClaimCases m count .kernel (some start) m'
  | user {page : Page} {start : Nat} {m₁ m' : Coremap}
      (hrun : m.claimRun (.user page) count false = .ok (some start, m₁))
      (hpush : m₁.pushNewest start = .ok m') : ClaimCases m count (.user page) (some start) m'

theorem claim_cases {owner : FrameOwner} {count : Nat} {first : Option Nat}
    (h : m.claim owner count = .ok (first, m')) : ClaimCases m count owner first m' := by
  obtain ⟨⟨found, m₁⟩, hrun, h⟩ := Fault.bind_eq_ok.mp h
  cases found with
  | none =>
      cases h
      exact .none hrun
  | some start =>
      cases owner with
      | kernel =>
          cases h
          exact .kernel hrun
      | user page =>
          obtain ⟨m₂, hpush, h⟩ := Fault.bind_eq_ok.mp h
          cases h
          exact .user hrun hpush

/-! ## Frames in transit -/

/-- A user frame is free and no longer counted. -/
theorem clearUser_eq_ok (h : m.clearUser i = .ok m') :
    ∃ d userCount, m.frame i = .ok d ∧ d.kind? = some .user ∧
      Word.sub m.userCount 1 = .ok userCount ∧ m' = { m.put i .free with userCount } := by
  obtain ⟨d, hd, h⟩ := Fault.bind_eq_ok.mp h
  obtain ⟨hkind, h⟩ := Fault.guard_eq_ok.mp h
  obtain ⟨userCount, hsub, h⟩ := Fault.bind_eq_ok.mp h
  cases h
  exact ⟨d, userCount, hd, Decidable.not_not.mp hkind, hsub, rfl⟩

/-- A pinned frame joins the chain, or is freed if it was orphaned. -/
inductive UnpinCases (m : Coremap) (i : Nat) : Bool → Coremap → Prop
  | freed {d : Descriptor} {m' : Coremap} (hd : m.frame i = .ok d) (hpin : d.pinned = true)
      (ho : d.orphaned = true)
      (hclear : (m.put i { d with pinned := false }).clearUser i = .ok m') :
      UnpinCases m i false m'
  | linked {d : Descriptor} {m' : Coremap} (hd : m.frame i = .ok d) (hpin : d.pinned = true)
      (ho : d.orphaned = false)
      (hpush : (m.put i { d with pinned := false }).pushNewest i = .ok m') :
      UnpinCases m i true m'

theorem unpin_cases {onChain : Bool} (h : m.unpin i = .ok (onChain, m')) :
    UnpinCases m i onChain m' := by
  obtain ⟨d, hd, h⟩ := Fault.bind_eq_ok.mp h
  obtain ⟨hpin, h⟩ := Fault.guard_eq_ok.mp h
  have hpin : d.pinned = true := by simpa using hpin
  dsimp only at h
  split at h
  · next ho =>
      obtain ⟨m₁, hclear, h⟩ := Fault.bind_eq_ok.mp h
      cases h
      exact .freed hd hpin ho hclear
  · next ho =>
      obtain ⟨m₁, hpush, h⟩ := Fault.bind_eq_ok.mp h
      cases h
      exact .linked hd hpin (Bool.eq_false_iff.mpr ho) hpush

theorem discardPinned_eq_ok (h : m.discardPinned i = .ok m') :
    ∃ d, m.frame i = .ok d ∧ d.pinned = true ∧ m.clearUser i = .ok m' := by
  obtain ⟨d, hd, h⟩ := Fault.bind_eq_ok.mp h
  obtain ⟨hpin, h⟩ := Fault.guard_eq_ok.mp h
  exact ⟨d, hd, by simpa using hpin, h⟩

/-- The chain is empty, or its oldest frame leaves it and is marked. -/
inductive DetachCases (m : Coremap) : Option (Nat × Page) → Coremap → Prop
  | none (holdest : m.oldest = none) : DetachCases m none m
  | detached {victim evictingCount : Nat} {page : Page} {m₁ : Coremap} {d : Descriptor}
      (holdest : m.oldest = some victim) (hunlink : m.unlink victim = .ok m₁)
      (hd : m₁.frame victim = .ok d) (hpage : d.page = some page)
      (hadd : Word.add Word.bits m₁.evictingCount 1 = .ok evictingCount) :
      DetachCases m (some (victim, page))
        { m₁.put victim { d with evicting := true } with evictingCount }

theorem detachOldest_cases {victim : Option (Nat × Page)}
    (h : m.detachOldest = .ok (victim, m')) : DetachCases m victim m' := by
  unfold detachOldest at h
  split at h
  · next holdest =>
      cases h
      exact .none holdest
  · next i holdest =>
      obtain ⟨m₁, hunlink, h⟩ := Fault.bind_eq_ok.mp h
      obtain ⟨d, hd, h⟩ := Fault.bind_eq_ok.mp h
      split at h
      · exact nomatch h
      · next page hpage =>
          obtain ⟨evictingCount, hadd, h⟩ := Fault.bind_eq_ok.mp h
          cases h
          exact .detached holdest hunlink hd hpage hadd

/-- The mark is removed, and the frame joins the chain again or is freed if it was orphaned. -/
inductive AbortCases (m : Coremap) (i : Nat) : Bool → Coremap → Prop
  | freed {d : Descriptor} {evictingCount : Nat} {m' : Coremap} (hd : m.frame i = .ok d)
      (hevict : d.evicting = true) (hsub : Word.sub m.evictingCount 1 = .ok evictingCount)
      (ho : d.orphaned = true)
      (hclear : ({ m.put i { d with evicting := false } with evictingCount } : Coremap).clearUser
        i = .ok m') : AbortCases m i false m'
  | linked {d : Descriptor} {evictingCount : Nat} {m' : Coremap} (hd : m.frame i = .ok d)
      (hevict : d.evicting = true) (hsub : Word.sub m.evictingCount 1 = .ok evictingCount)
      (ho : d.orphaned = false)
      (hpush : ({ m.put i { d with evicting := false } with evictingCount } : Coremap).pushOldest
        i = .ok m') : AbortCases m i true m'

theorem abortEviction_cases {onChain : Bool} (h : m.abortEviction i = .ok (onChain, m')) :
    AbortCases m i onChain m' := by
  obtain ⟨d, hd, h⟩ := Fault.bind_eq_ok.mp h
  obtain ⟨hevict, h⟩ := Fault.guard_eq_ok.mp h
  obtain ⟨evictingCount, hsub, h⟩ := Fault.bind_eq_ok.mp h
  have hevict : d.evicting = true := by simpa using hevict
  dsimp only at h
  split at h
  · next ho =>
      obtain ⟨m₁, hclear, h⟩ := Fault.bind_eq_ok.mp h
      cases h
      exact .freed hd hevict hsub ho hclear
  · next ho =>
      obtain ⟨m₁, hpush, h⟩ := Fault.bind_eq_ok.mp h
      cases h
      exact .linked hd hevict hsub (Bool.eq_false_iff.mpr ho) hpush

theorem finishEviction_eq_ok {orphaned : Bool} (h : m.finishEviction i = .ok (orphaned, m')) :
    ∃ d evictingCount, m.frame i = .ok d ∧ d.evicting = true ∧ orphaned = d.orphaned ∧
      Word.sub m.evictingCount 1 = .ok evictingCount ∧
      ({ m with evictingCount } : Coremap).clearUser i = .ok m' := by
  obtain ⟨d, hd, h⟩ := Fault.bind_eq_ok.mp h
  obtain ⟨hevict, h⟩ := Fault.guard_eq_ok.mp h
  obtain ⟨evictingCount, hsub, h⟩ := Fault.bind_eq_ok.mp h
  obtain ⟨m₁, hclear, h⟩ := Fault.bind_eq_ok.mp h
  cases h
  exact ⟨d, evictingCount, hd, by simpa using hevict, rfl, hsub, hclear⟩

/-! ## Frames that are given up -/

/-- A run within the table is freed and no longer counted. -/
theorem freeRun_eq_ok {count : Nat} (h : m.freeRun i = .ok (count, m')) :
    count = m.runLength i ∧ i + count ≤ m.size ∧
      ∃ m₁ kernelCount, m₁ = (List.range' i count).foldl (fun m j => m.put j .free) m ∧
        Word.sub m₁.kernelCount count = .ok kernelCount ∧ m' = { m₁ with kernelCount } := by
  unfold freeRun at h
  obtain ⟨hsize, h⟩ := Fault.guard_eq_ok.mp h
  obtain ⟨kernelCount, hsub, h⟩ := Fault.bind_eq_ok.mp h
  cases h
  exact ⟨rfl, Nat.le_of_not_lt hsize, _, kernelCount, rfl, hsub, rfl⟩

/-- A release is refused, or it orphans a frame in transit, frees a user frame that is not, or frees
the run that a kernel frame starts. -/
inductive ReleaseCases (m : Coremap) (i : Nat) : Except FrameError Release → Coremap → Prop
  | refused {d : Descriptor} {address : Nat} (hd : m.frame i = .ok d)
      (hwhy : d.allocated = false ∨ m.insideRun i = true ∨ d.orphaned = true)
      (haddress : m.frameAddress i = .ok address) :
      ReleaseCases m i (.error (.invalidAddress address)) m
  | deferred {d : Descriptor} (hd : m.frame i = .ok d) (halloc : d.allocated = true)
      (hfirst : m.insideRun i = false) (ho : d.orphaned = false) (htransit : d.inTransit = true) :
      ReleaseCases m i (.ok .deferred) (m.put i { d with orphaned := true })
  | user {d : Descriptor} {m₁ m' : Coremap} (hd : m.frame i = .ok d) (halloc : d.allocated = true)
      (hfirst : m.insideRun i = false) (ho : d.orphaned = false) (hstill : d.inTransit = false)
      (huser : d.isUser = true) (hunlink : m.unlink i = .ok m₁)
      (hclear : m₁.clearUser i = .ok m') : ReleaseCases m i (.ok (.freed 1)) m'
  | kernel {d : Descriptor} {count : Nat} {m' : Coremap} (hd : m.frame i = .ok d)
      (halloc : d.allocated = true) (hfirst : m.insideRun i = false) (ho : d.orphaned = false)
      (hstill : d.inTransit = false) (hkernel : d.isUser = false)
      (hfree : m.freeRun i = .ok (count, m')) : ReleaseCases m i (.ok (.freed count)) m'

theorem release_cases {answer : Except FrameError Release} (h : m.release i = .ok (answer, m')) :
    ReleaseCases m i answer m' := by
  obtain ⟨d, hd, h⟩ := Fault.bind_eq_ok.mp h
  split at h
  · next hrefused =>
      obtain ⟨address, haddress, h⟩ := Fault.bind_eq_ok.mp h
      cases h
      rw [Bool.or_eq_true, Bool.or_eq_true, Bool.not_eq_true', or_assoc] at hrefused
      exact .refused hd hrefused haddress
  · next hserved =>
      rw [Bool.or_eq_true, Bool.or_eq_true, Bool.not_eq_true', not_or, not_or] at hserved
      obtain ⟨⟨halloc, hfirst⟩, ho⟩ := hserved
      have halloc : d.allocated = true := Bool.not_eq_false _ ▸ halloc
      have hfirst : m.insideRun i = false := Bool.eq_false_iff.mpr hfirst
      have ho : d.orphaned = false := Bool.eq_false_iff.mpr ho
      split at h
      · next htransit =>
          cases h
          exact .deferred hd halloc hfirst ho htransit
      · next htransit =>
          have hstill : d.inTransit = false := Bool.eq_false_iff.mpr htransit
          split at h
          · next huser =>
              obtain ⟨m₁, hunlink, h⟩ := Fault.bind_eq_ok.mp h
              obtain ⟨m₂, hclear, h⟩ := Fault.bind_eq_ok.mp h
              cases h
              exact .user hd halloc hfirst ho hstill huser hunlink hclear
          · next huser =>
              obtain ⟨⟨count, m₁⟩, hfree, h⟩ := Fault.bind_eq_ok.mp h
              cases h
              exact .kernel hd halloc hfirst ho hstill (Bool.eq_false_iff.mpr huser) hfree

/-- A frame of another owner is left alone; one of ours is orphaned or freed. -/
inductive ReleaseOneCases (m : Coremap) (space i : Nat) : Bool → Coremap → Prop
  | other {d : Descriptor} (hd : m.frame i = .ok d) (hother : d.holdsPageOf space = false) :
      ReleaseOneCases m space i false m
  | deferred {d : Descriptor} (hd : m.frame i = .ok d) (hours : d.holdsPageOf space = true)
      (htransit : d.inTransit = true) :
      ReleaseOneCases m space i false (m.put i { d with orphaned := true })
  | freed {d : Descriptor} {m₁ m' : Coremap} (hd : m.frame i = .ok d)
      (hours : d.holdsPageOf space = true) (hstill : d.inTransit = false)
      (hunlink : m.unlink i = .ok m₁) (hclear : m₁.clearUser i = .ok m') :
      ReleaseOneCases m space i true m'

theorem releaseOne_cases {space : Nat} {isFree : Bool}
    (h : m.releaseOne space i = .ok (isFree, m')) : ReleaseOneCases m space i isFree m' := by
  obtain ⟨d, hd, h⟩ := Fault.bind_eq_ok.mp h
  split at h
  · next hother =>
      cases h
      exact .other hd (by simpa using hother)
  · next hours =>
      have hours : d.holdsPageOf space = true := by simpa using hours
      split at h
      · next htransit =>
          cases h
          exact .deferred hd hours htransit
      · next htransit =>
          obtain ⟨m₁, hunlink, h⟩ := Fault.bind_eq_ok.mp h
          obtain ⟨m₂, hclear, h⟩ := Fault.bind_eq_ok.mp h
          cases h
          exact .freed hd hours (Bool.eq_false_iff.mpr htransit) hunlink hclear

/-- A frame of the table is in use and remembers the TLB slot, or it is free. -/
inductive SetTlbSlotCases (m : Coremap) (i : Nat) (slot : Option Nat) :
    Except FrameError Unit → Coremap → Prop
  | refused {d : Descriptor} {address : Nat} (hd : m.frame i = .ok d)
      (hfree : d.allocated = false) (haddress : m.frameAddress i = .ok address) :
      SetTlbSlotCases m i slot (.error (.invalidAddress address)) m
  | set {d : Descriptor} (hd : m.frame i = .ok d) (halloc : d.allocated = true) :
      SetTlbSlotCases m i slot (.ok ()) (m.put i { d with tlbSlot := slot })

theorem setTlbSlot_cases {slot : Option Nat} {answer : Except FrameError Unit}
    (h : m.setTlbSlot i slot = .ok (answer, m')) : SetTlbSlotCases m i slot answer m' := by
  obtain ⟨d, hd, h⟩ := Fault.bind_eq_ok.mp h
  split at h
  · next hfree =>
      obtain ⟨address, haddress, h⟩ := Fault.bind_eq_ok.mp h
      cases h
      exact .refused hd (by simpa using hfree) haddress
  · next halloc =>
      cases h
      exact .set hd (by simpa using halloc)

end PhysMem.Coremap
