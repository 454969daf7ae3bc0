import PhysMem.Proofs.Queue

/-!
# A plain queue — the list that the chain stands for

The links of a coremap hide a list of frames, and nothing that a coremap does to its links can be
told from what a queue does to that list. The rules of the queue are written down apart from the
links: they read the descriptors of the frames named, and the answer that was given.

* **`Queued`** has one rule for each thing that can happen to the queue.
* **`Sound.queued`** is the step: the links follow the rules.
* **`chain_is_a_plain_queue`** — they do so in every coremap that is reached, and the chain reads the
  same from both ends.
-/

namespace PhysMem.Coremap

variable {m m' m₀ : Coremap} {i : Nat} {l : List Nat} {d : Descriptor} {r : FrameRole} {page : Page}
  {request : Request} {answer : Answer} {past : List Event}

/-- The rules of the queue: what becomes of the list of frames `l` when coremap `m` answers a
request. -/
inductive Queued (m : Coremap) : Request → Answer → List Nat → List Nat → Prop where
  /-- The frame of a page that is allocated is the newest. -/
  | claim (page : Page) (i : Nat) (l : List Nat) :
    Queued m (.claim (.user page) 1) (.claimed (some i)) l (l ++ [i])
  /-- No frame is free. -/
  | claimNone (page : Page) (l : List Nat) : Queued m (.claim (.user page) 1) (.claimed none) l l
  | claimKernel (count : Nat) (first : Option Nat) (l : List Nat) :
    Queued m (.claim .kernel count) (.claimed first) l l
  | claimPinned (page : Page) (first : Option Nat) (l : List Nat) :
    Queued m (.claimPinned page) (.claimed first) l l
  /-- The oldest frame is taken, and the page in it is named. -/
  | detachOldest {i : Nat} {d : Descriptor} {page : Page} (newer : List Nat) :
    m.frames[i]? = some d → d.page = some page →
    Queued m .detachOldest (.detached (some (i, page))) (i :: newer) newer
  | detachNone : Queued m .detachOldest (.detached none) [] []
  /-- The frame of an eviction that is given up is the oldest. -/
  | abortEviction {i : Nat} {d : Descriptor} (l : List Nat) :
    m.frames[i]? = some d → d.orphaned = false →
    Queued m (.abortEviction i) (.onChain true) l (i :: l)
  | abortOrphaned {i : Nat} {d : Descriptor} (l : List Nat) :
    m.frames[i]? = some d → d.orphaned = true →
    Queued m (.abortEviction i) (.onChain false) l l
  | finishEviction (i : Nat) (orphaned : Bool) (l : List Nat) :
    Queued m (.finishEviction i) (.orphaned orphaned) l l
  /-- The frame of a page that was brought back is the newest. -/
  | unpin {i : Nat} {d : Descriptor} (l : List Nat) :
    m.frames[i]? = some d → d.orphaned = false →
    Queued m (.unpin i) (.onChain true) l (l ++ [i])
  | unpinOrphaned {i : Nat} {d : Descriptor} (l : List Nat) :
    m.frames[i]? = some d → d.orphaned = true →
    Queued m (.unpin i) (.onChain false) l l
  | discardPinned (i : Nat) (l : List Nat) : Queued m (.discardPinned i) .discarded l l
  /-- A resident frame is deleted where it stands. -/
  | release {i : Nat} {d : Descriptor} (older newer : List Nat) :
    m.frames[i]? = some d → d.isResident = true →
    Queued m (.release i) (.released (.ok (.freed 1))) (older ++ i :: newer) (older ++ newer)
  /-- The frame is free, the kernel's or in transit. -/
  | releaseOther {i : Nat} {d : Descriptor} (answer : Except FrameError Release) (l : List Nat) :
    m.frames[i]? = some d → d.isResident = false →
    Queued m (.release i) (.released answer) l l
  /-- All frames of an address space are deleted where they stand. -/
  | releaseSpace (space freed : Nat) (l : List Nat) :
    Queued m (.releaseSpace space) (.swept freed) l (l.filter fun i => !m.holds space i)
  | setTlbSlot (i : Nat) (slot : Option Nat) (answer : Except FrameError Unit) (l : List Nat) :
    Queued m (.setTlbSlot i slot) (.tagged answer) l l

/-! ## The chain and its walks -/

theorem Sound.linked_chain (hm : m.Sound) : m.Linked m.chain := by
  obtain ⟨l, hl, -⟩ := hm.chain
  rwa [hl.chain]

/-- Both walks read the chain off, and end where it ends. -/
theorem Linked.walks (hl : m.Linked l) (limit : Nat) :
    m.walk limit m.oldest = l.take limit ∧ m.walkBack limit m.newest = l.reverse.take limit :=
  ⟨hl.strung.walk limit, hl.strung.walkBack limit⟩

/-! ## The descriptor of a frame that is named -/

/-- The orphan mark of a frame in transit. -/
theorem HasRole.orphan_mark {pinned orphaned : Bool}
    (h : m.HasRole i (.transit pinned page orphaned)) :
    ∃ d, m.frames[i]? = some d ∧ d.orphaned = orphaned := by
  obtain ⟨d, hd, huse⟩ := h.frame
  exact ⟨d, frame_ok hd, (congrArg Descriptor.orphaned huse : d.use.orphaned = _)⟩

/-- The page in a resident frame. -/
theorem HasRole.resident_page (h : m.HasRole i (.resident page)) :
    ∃ d, m.frames[i]? = some d ∧ d.page = some page := by
  obtain ⟨d, hd, huse⟩ := h.frame
  exact ⟨d, frame_ok hd, (congrArg Descriptor.page huse : d.use.page = _)⟩

/-- A frame in another role is not resident. -/
theorem Sound.not_isResident (hm : m.Sound) (hr : m.HasRole i r)
    (hne : ∀ page, r ≠ .resident page) :
    ∃ d, m.frames[i]? = some d ∧ d.isResident = false := by
  obtain ⟨d, hd, -⟩ := hr.frame
  refine ⟨d, frame_ok hd, Bool.eq_false_iff.mpr fun hres => ?_⟩
  obtain ⟨page, h⟩ := (hm.isResident_iff (frame_ok hd)).mp hres
  exact hne page (hr.unique h)

/-! ## One request -/

/-- A release deletes a resident frame, and no other. -/
theorem Sound.release_queued {answer : Except FrameError Release} (hm : m.Sound)
    (hl : m.Linked l) (h : m.release i = .ok (answer, m')) :
    m.Queued (.release i) (.released answer) l (l.erase i) := by
  obtain ⟨r, hr, hcase⟩ := hm.release_role h
  have other : (∀ page, r ≠ .resident page) →
      m.Queued (.release i) (.released answer) l (l.erase i) := by
    intro hne
    obtain ⟨d, hd, hres⟩ := hm.not_isResident hr hne
    rw [List.erase_of_not_mem (hm.not_mem_linked hl hr hne)]
    exact .releaseOther answer l hd hres
  cases r with
  | resident page =>
      obtain ⟨d, hd, -⟩ := hr.resident_page
      obtain ⟨older, newer, rfl⟩ := List.append_of_mem ((hm.mem_linked hl).mpr ⟨page, hr⟩)
      rw [hl.erase_middle.1]
      rcases hcase with ⟨hfree | hinside | horphan, -⟩ |
        ⟨-, ⟨_, _, he, -⟩ | ⟨_, -, rfl, -⟩ | ⟨_, _, he, -⟩⟩
      · exact nomatch hfree
      · obtain ⟨tail, hk⟩ := hm.kernel_of_insideRun hinside
        exact nomatch hr.unique hk
      · exact nomatch horphan
      · exact nomatch he
      · exact .release older newer hd ((hm.isResident_iff hd).mpr ⟨page, hr⟩)
      · exact nomatch he
  | free => exact other nofun
  | kernel tail => exact other nofun
  | transit pinned page orphaned => exact other nofun

/-- **The links follow the rules of the queue**, whatever is asked. -/
theorem Sound.queued (hm : m.Sound) (hr : request.IsProper)
    (h : m.perform request = .ok (answer, m')) :
    m.Queued request answer m.chain m'.chain := by
  rw [hm.chain_requeue hr h]
  have hl := hm.linked_chain
  cases perform_cases h with
  | claim owner count first _ =>
      cases owner with
      | kernel => exact .claimKernel count first _
      | user page =>
          obtain rfl := hr.resolve_left nofun
          cases first with
          | none => exact .claimNone page _
          | some i => exact .claim page i _
  | claimPinned page first _ => exact .claimPinned page first _
  | detachOldest victim h₁ =>
      have hhead := (hl.detachOldest_requeue h₁).1
      cases victim with
      | none =>
          rw [List.head?_eq_none_iff.mp hhead]
          exact .detachNone
      | some found =>
          obtain ⟨newer, hchain⟩ := List.head?_eq_some_iff.mp hhead
          obtain ⟨d, hd, hpage⟩ := (hm.detachOldest h₁).2.1.resident_page
          rw [hchain]
          exact .detachOldest newer hd hpage
  | abortEviction i onChain h₁ =>
      obtain ⟨-, page, orphaned, hrole, rfl, -⟩ := hm.abortEviction h₁
      obtain ⟨d, hd, hmark⟩ := hrole.orphan_mark
      cases orphaned with
      | false => exact .abortEviction _ hd hmark
      | true => exact .abortOrphaned _ hd hmark
  | finishEviction i orphaned _ => exact .finishEviction i orphaned _
  | unpin i onChain h₁ =>
      obtain ⟨-, page, orphaned, hrole, rfl, -⟩ := hm.unpin h₁
      obtain ⟨d, hd, hmark⟩ := hrole.orphan_mark
      cases orphaned with
      | false => exact .unpin _ hd hmark
      | true => exact .unpinOrphaned _ hd hmark
  | discardPinned i _ => exact .discardPinned i _
  | release i answer h₁ => exact hm.release_queued hl h₁
  | releaseSpace space freed _ => exact .releaseSpace space freed _
  | setTlbSlot i slot answer _ => exact .setTlbSlot i slot answer _

/-! ## The result -/

/-- **The chain cannot be told from a plain queue.** In every coremap that is reached the walks from
its two ends yield one list of frames and its reverse, without repetition and at most as long as the
walks may go. The list holds the resident frames. Each request that may be made next has an answer if
the addresses of all frames fit a word, and acts on the list by the rules of the queue. -/
theorem chain_is_a_plain_queue {count base : Nat} {policy : PlacementPolicy}
    (hnew : create count base (.ofPolicy policy) = .ok m₀) (h : m₀.Reaches past m) :
    m.chain.Nodup ∧ m.chainBack = m.chain.reverse ∧
      (∀ limit, m.walk limit m.oldest = m.chain.take limit ∧
        m.walkBack limit m.newest = m.chain.reverse.take limit) ∧
      (∀ (i : Nat) d, m.frames[i]? = some d → (i ∈ m.chain ↔ d.isResident = true)) ∧
      ∀ request, m.Allows past request →
        (base + Address.frameSize * count ≤ Word.span Word.bits →
          ∃ answer m', m.perform request = .ok (answer, m')) ∧
        ∀ answer m', m.perform request = .ok (answer, m') →
          m.Queued request answer m.chain m'.chain := by
  obtain ⟨hm, -, -⟩ := h.exact hnew
  have hl := hm.toSound.linked_chain
  refine ⟨hl.nodup, hl.chainBack, hl.walks, fun i d hd => ?_, fun request hallows => ⟨?_, ?_⟩⟩
  · rw [hm.toSound.mem_linked hl, hm.toSound.isResident_iff hd]
  · exact h.perform_total hnew hallows
  · exact fun answer m' hperform => hm.toSound.queued hallows.isProper hperform

/-- A frame in the middle of the chain is given up, and the queue closes up. -/
theorem chain_is_a_plain_queue_of_three :
    ∃ past m, threeFrames.Reaches past m ∧ m.chain = [0, 1, 2] ∧ m.chainBack = [2, 1, 0] ∧
      ∃ answer m', m.perform (.release 1) = .ok (answer, m') ∧ m'.chain = [0, 2] ∧
        m.Queued (.release 1) answer [0, 1, 2] [0, 2] := by
  have hevents : (threeFrames.follow [.claim (.user ⟨1, 2⟩) 1, .claim (.user ⟨2, 0⟩) 1,
      .claim (.user ⟨1, 0⟩) 1]).map (fun r => (r.2.chain, decide (1 < r.2.size),
        (r.2.perform (.release 1)).toOption.map (·.2.chain))) =
      some ([0, 1, 2], true, some [0, 2]) := by
    decide +kernel
  obtain ⟨⟨past, m⟩, hfollow, he⟩ := Option.map_eq_some_iff.mp hevents
  obtain ⟨hchain, hsize, hafter⟩ : m.chain = [0, 1, 2] ∧ 1 < m.size ∧
      (m.perform (.release 1)).toOption.map (·.2.chain) = some [0, 2] := by
    simpa using he
  have hreaches := reaches_of_follow hfollow
  have hnew : create 3 Address.frameSize (.ofPolicy .firstFit) = .ok threeFrames := rfl
  obtain ⟨-, hback, -, -, hnext⟩ := chain_is_a_plain_queue hnew hreaches
  obtain ⟨htotal, hqueued⟩ := hnext (.release 1) hsize
  obtain ⟨answer, m', hperform⟩ := htotal (by decide)
  have hchain' : m'.chain = [0, 2] := by
    rw [hperform] at hafter
    exact Option.some.inj hafter
  have hstep := hqueued answer m' hperform
  rw [hchain, hchain'] at hstep
  rw [hchain] at hback
  exact ⟨past, m, hreaches, hchain, hback, answer, m', hperform, hchain', hstep⟩

end PhysMem.Coremap
