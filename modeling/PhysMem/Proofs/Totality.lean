import PhysMem.Proofs.Placement
import PhysMem.Proofs.WellFormed

/-!
# Assertions hold — how an operation on an exact coremap can stop

The operations of a coremap assert what they rely on: that a frame to be linked is off the chain,
that a frame at the end of the chain has no neighbour there, that a victim holds a page, that a
frame to be cleared is a user frame, that a placement chooses free frames. On an exact coremap, and
asked for what they are there for, they never stop on an assertion. What is left are sums and
products that leave the word when the frames reach beyond it.

* **`Fits`** says that the frames do not reach beyond the word.
* **`Exact.claim_onlyOverflows`**, **`Exact.release_onlyOverflows`** and those beside them are the
  results, one for each operation.
-/

namespace PhysMem.Coremap

/-- The addresses behind the last frame are still addresses. -/
def Fits (m : Coremap) : Prop := m.base + Address.frameSize * m.size ≤ Word.span Word.bits

variable {m m' m₁ : Coremap} {fits : Prop} {i : Nat} {l : List Nat} {r : FrameRole} {page : Page}

/-! ## Single descriptors -/

theorem frame_total (hi : i < m.size) : ∃ d, m.frame i = .ok d := by
  unfold frame
  rw [Array.getElem?_eq_getElem hi]
  exact ⟨_, rfl⟩

theorem frame_put {d : Descriptor} (hi : i < m.size) : (m.put i d).frame i = .ok d := by
  unfold frame put
  dsimp only
  rw [Array.getElem?_setIfInBounds_self_of_lt hi]

theorem update_total {f : Descriptor → Descriptor} (hi : i < m.size) :
    ∃ m', m.update i f = .ok m' := by
  obtain ⟨d, hd⟩ := frame_total hi
  unfold update
  rw [hd]
  exact ⟨_, rfl⟩

theorem size_put (m : Coremap) (i : Nat) (d : Descriptor) : (m.put i d).size = m.size :=
  Array.size_setIfInBounds

/-! ## The chain -/

theorem Linked.newest_lt (hl : m.Linked l) {last : Nat} (h : m.newest = some last) :
    last < m.size := by
  rw [hl.newest] at h
  exact hl.lt_size (List.mem_of_getLast? h)

theorem Linked.oldest_lt (hl : m.Linked l) {first : Nat} (h : m.oldest = some first) :
    first < m.size := by
  rw [hl.oldest] at h
  exact hl.lt_size (List.mem_of_head? h)

theorem Linked.pushNewest_onlyOverflows (hl : m.Linked l) (hi : i ∉ l) (hlt : i < m.size) :
    Fault.OnlyOverflows fits (m.pushNewest i) := by
  obtain ⟨d, hd⟩ := frame_total hlt
  obtain ⟨hprev, hnext⟩ := hl.link_of_frame hd hi
  refine .bind_ok hd (.guard (by rw [hprev, hnext]; exact Bool.false_ne_true) ?_)
  dsimp only
  split
  · next last hlast =>
      obtain ⟨m₁, hm₁⟩ := update_total (f := fun d => { d with next := some i })
        (m := m.put i { d with prev := m.newest }) (by rw [size_put]; exact hl.newest_lt hlast)
      exact .bind_ok hm₁ (.ok _)
  · exact .ok _

theorem Linked.pushOldest_onlyOverflows (hl : m.Linked l) (hi : i ∉ l) (hlt : i < m.size) :
    Fault.OnlyOverflows fits (m.pushOldest i) := by
  obtain ⟨d, hd⟩ := frame_total hlt
  obtain ⟨hprev, hnext⟩ := hl.link_of_frame hd hi
  refine .bind_ok hd (.guard (by rw [hprev, hnext]; exact Bool.false_ne_true) ?_)
  dsimp only
  split
  · next first hfirst =>
      obtain ⟨m₁, hm₁⟩ := update_total (f := fun d => { d with prev := some i })
        (m := m.put i { d with next := m.oldest }) (by rw [size_put]; exact hl.oldest_lt hfirst)
      exact .bind_ok hm₁ (.ok _)
  · exact .ok _

/-- The newer neighbour of a frame of the chain is told, or the end of the chain moves. -/
theorem Linked.unlinkNewer_onlyOverflows {m₁ : Coremap} {d : Descriptor} {older newer : List Nat}
    (hl : m.Linked l) (h : l = older ++ i :: newer) (hnext : d.next = newer.head?)
    (hsize : m₁.size = m.size) (hnew : m₁.newest = m.newest) :
    Fault.OnlyOverflows fits (match d.next with
      | some after => m₁.update after fun a => { a with prev := d.prev }
      | none =>
        if m₁.newest = some i then pure { m₁ with newest := d.prev } else throw .notChainEnd) := by
  split
  · next after hafter =>
      refine .of_ok (update_total ?_)
      rw [hnext] at hafter
      rw [hsize]
      exact hl.lt_size (by rw [h]; simp [List.mem_of_head? hafter])
  · next hnone =>
      rw [hnext] at hnone
      rw [if_pos]
      · exact .ok _
      · rw [hnew, hl.newest, h, List.head?_eq_none_iff.mp hnone, List.getLast?_concat]

/-- A frame of the chain can leave it: where it has no neighbour it is the end. -/
theorem Linked.unlink_onlyOverflows (hl : m.Linked l) (hi : i ∈ l) :
    Fault.OnlyOverflows fits (m.unlink i) := by
  obtain ⟨older, newer, h⟩ := List.append_of_mem hi
  obtain ⟨d, hd, hprev, hnext⟩ := hl.neighbours h
  have hframe : m.frame i = .ok d := by
    unfold Coremap.frame
    rw [hd]
  refine .bind_ok hframe ?_
  dsimp only
  split
  · next before hbefore =>
      have hlt : before < m.size := by
        rw [hprev] at hbefore
        exact hl.lt_size (by rw [h]; simp [List.mem_of_getLast? hbefore])
      obtain ⟨m₁, hm₁⟩ := update_total (f := fun b => { b with next := d.next })
        (m := m.put i { d with prev := none, next := none }) (by rw [size_put]; exact hlt)
      obtain ⟨-, hnew, -⟩ := link?_update (g := fun l => (l.1, d.next)) hm₁ fun _ => rfl
      have hsize : m₁.size = m.size := (update_alike hm₁ fun _ => rfl).size.trans (size_put ..)
      exact .bind_ok hm₁ (hl.unlinkNewer_onlyOverflows h hnext hsize hnew)
  · next hnone =>
      rw [hprev] at hnone
      have hold : m.oldest = some i := by
        rw [hl.oldest, h, List.getLast?_eq_none_iff.mp hnone]
        rfl
      refine .ite (fun _ => ?_) fun hend => absurd hold hend
      exact .bind_ok rfl (hl.unlinkNewer_onlyOverflows h hnext (size_put ..) rfl)

/-! ## Evictions and pins -/

/-- Where a frame holds a page, the counter of such frames is not zero. -/
theorem Exact.userCount_pos (hm : m.Exact) (h : m.HasRole i r) (hr : r.use.isUserFrame = true) :
    0 < m.userCount := by
  rw [← hm.counted.user]
  exact countFrames_pos (fun _ => rfl) h hr

theorem Exact.evictingCount_pos (hm : m.Exact) (h : m.HasRole i r) (hr : r.use.isVictim = true) :
    0 < m.evictingCount := by
  rw [← hm.counted.evicting]
  exact countFrames_pos (fun _ => rfl) h hr

theorem clearUser_onlyOverflows {d : Descriptor} (hd : m.frame i = .ok d)
    (hkind : d.kind? = some .user) (hcount : 0 < m.userCount) :
    Fault.OnlyOverflows fits (m.clearUser i) := by
  refine .bind_ok hd (.guard (not_not_intro hkind) ?_)
  exact .bind (.sub hcount) fun _ _ => .ok _

theorem Exact.unpin_onlyOverflows {orphaned : Bool} (hm : m.Exact)
    (h : m.HasRole i (.transit true page orphaned)) :
    Fault.OnlyOverflows fits (m.unpin i) := by
  obtain ⟨d, hd, huse⟩ := h.frame
  have hpin : d.pinned = true := (congrArg Descriptor.pinned huse : d.use.pinned = _)
  have hkind : d.kind? = some .user := (congrArg Descriptor.kind? huse : d.use.kind? = _)
  have hi := lt_size_of_frame hd
  refine .bind_ok hd (.guard (by rw [hpin]; exact Bool.false_ne_true) ?_)
  -- the page of an orphan is given up, any other joins the chain again
  refine .ite (fun _ => ?_) fun _ => ?_
  · have hcount := hm.userCount_pos h rfl
    exact .bind (clearUser_onlyOverflows (frame_put hi) hkind hcount) fun _ _ => .ok _
  · obtain ⟨l, hl, hloose⟩ := hm.toSound.not_mem_of_transit h
    have hsame : m.SameLinks (m.put i { d with pinned := false }) := put_sameLinks hd rfl rfl
    refine .bind ((hl.of_sameLinks hsame).pushNewest_onlyOverflows hloose ?_) fun _ _ => .ok _
    rw [size_put]
    exact hi

theorem Exact.discardPinned_onlyOverflows {orphaned : Bool} (hm : m.Exact)
    (h : m.HasRole i (.transit true page orphaned)) :
    Fault.OnlyOverflows fits (m.discardPinned i) := by
  obtain ⟨d, hd, huse⟩ := h.frame
  have hpin : d.pinned = true := (congrArg Descriptor.pinned huse : d.use.pinned = _)
  have hkind : d.kind? = some .user := (congrArg Descriptor.kind? huse : d.use.kind? = _)
  refine .bind_ok hd (.guard (by rw [hpin]; exact Bool.false_ne_true) ?_)
  exact clearUser_onlyOverflows hd hkind (hm.userCount_pos h rfl)

theorem Exact.abortEviction_onlyOverflows {orphaned : Bool} (hm : m.Exact)
    (h : m.HasRole i (.transit false page orphaned)) :
    Fault.OnlyOverflows fits (m.abortEviction i) := by
  obtain ⟨d, hd, huse⟩ := h.frame
  have hevict : d.evicting = true := (congrArg Descriptor.evicting huse : d.use.evicting = _)
  have hkind : d.kind? = some .user := (congrArg Descriptor.kind? huse : d.use.kind? = _)
  have hi := lt_size_of_frame hd
  refine .bind_ok hd (.guard (by rw [hevict]; exact Bool.false_ne_true) ?_)
  refine .bind (.sub (hm.evictingCount_pos h rfl)) fun evictingCount _ => ?_
  refine .ite (fun _ => ?_) fun _ => ?_
  · have hcount := hm.userCount_pos h rfl
    refine .bind (clearUser_onlyOverflows (d := { d with evicting := false }) ?_ hkind hcount)
      fun _ _ => .ok _
    exact frame_put hi
  · obtain ⟨l, hl, hloose⟩ := hm.toSound.not_mem_of_transit h
    have hsame : m.SameLinks { m.put i { d with evicting := false } with evictingCount } :=
      (put_sameLinks (e := { d with evicting := false }) hd rfl rfl).trans
        (sameLinks_of_frames rfl rfl rfl)
    refine .bind ((hl.of_sameLinks hsame).pushOldest_onlyOverflows hloose ?_) fun _ _ => .ok _
    exact Nat.lt_of_lt_of_eq hi (size_put ..).symm

theorem Exact.finishEviction_onlyOverflows {orphaned : Bool} (hm : m.Exact)
    (h : m.HasRole i (.transit false page orphaned)) :
    Fault.OnlyOverflows fits (m.finishEviction i) := by
  obtain ⟨d, hd, huse⟩ := h.frame
  have hevict : d.evicting = true := (congrArg Descriptor.evicting huse : d.use.evicting = _)
  have hkind : d.kind? = some .user := (congrArg Descriptor.kind? huse : d.use.kind? = _)
  refine .bind_ok hd (.guard (by rw [hevict]; exact Bool.false_ne_true) ?_)
  refine .bind (.sub (hm.evictingCount_pos h rfl)) fun evictingCount _ => ?_
  refine .bind (clearUser_onlyOverflows (d := d) ?_ hkind ?_) fun _ _ => .ok _
  · exact hd
  · exact hm.userCount_pos h rfl

/-- No more frames are of a sort than there are. -/
theorem countFrames_le (p : Descriptor → Bool) : m.countFrames p ≤ m.size :=
  Array.countP_le_size

theorem Fits.add_lt {count : Nat} (h : m.Fits) (hcount : count ≤ m.size + 1) :
    m.size + count < Word.span Word.bits := by
  unfold Fits at h
  have hword : Word.span Word.bits = 18446744073709551616 := rfl
  have hframe : Address.frameSize = 4096 := rfl
  rw [hword, hframe] at h
  rw [hword]
  omega

theorem Fits.of_table (h : m.Fits) (hsame : m.SameTable m') : m'.Fits := by
  rw [Fits, hsame.base, hsame.size]
  exact h

theorem Exact.detachOldest_onlyOverflows (hm : m.Exact) :
    Fault.OnlyOverflows m.Fits m.detachOldest := by
  obtain ⟨l, hl, hmem⟩ := hm.chain
  unfold Coremap.detachOldest
  split
  · exact .ok _
  · next victim hold =>
      have hv : victim ∈ l := by
        rw [hl.oldest] at hold
        exact List.mem_of_head? hold
      refine (hl.unlink_onlyOverflows hv).bind fun m₁ hunlink => ?_
      obtain ⟨page, hr⟩ := (hmem victim).mp hv
      have hr₁ : m₁.HasRole victim (.resident page) := (unlink_alike hunlink).role.mpr hr
      obtain ⟨d, hd, huse⟩ := hr₁.frame
      have hpage : d.page = some page := (congrArg Descriptor.page huse : d.use.page = _)
      refine .bind_ok hd ?_
      rw [hpage]
      refine .bind (.add fun hfits => ?_) fun _ _ => .ok _
      -- there are no more victims than frames
      have hcount : m₁.evictingCount ≤ m.size := by
        have hshift := (unlink_shifts hunlink).evicting
        have hle : m.evictingCount ≤ m.size := hm.counted.evicting ▸ countFrames_le _
        omega
      have hroom : m.size + 1 < Word.span Word.bits := hfits.add_lt (by omega)
      show m₁.evictingCount + 1 < _
      omega

/-! ## Claims -/

/-- A free run can be claimed. -/
theorem markRun_onlyOverflows {owner : FrameOwner} {pinned : Bool} {last n : Nat}
    (h : IsFreeRun m.frames i n) :
    Fault.OnlyOverflows fits (m.markRun owner pinned last i n) := by
  induction n generalizing m i with
  | zero => exact .ok m
  | succ n ih =>
      obtain ⟨hroom, hfree⟩ := h
      have hi : i < m.size := by
        show i < m.frames.size
        omega
      obtain ⟨d, hd⟩ := frame_total hi
      have halloc : d.allocated = false := by
        have := hfree i (Nat.le_refl _) (by omega)
        rw [frame_ok hd] at this
        exact Option.some.inj this
      refine .bind_ok hd (.guard (by rw [halloc]; exact Bool.false_ne_true) (ih ⟨?_, ?_⟩))
      · have hsize : (m.put i (.claimed owner (i != last) pinned)).frames.size = m.frames.size :=
          size_put ..
        omega
      · intro x hle hlt
        unfold put
        rw [Array.getElem?_setIfInBounds_ne (by omega)]
        exact hfree x (by omega) (by omega)

theorem Exact.claimRun_onlyOverflows {owner : FrameOwner} {count : Nat} {pinned : Bool}
    (hm : m.Exact) (hpos : 0 < count) (hroom : m.Fits → m.size + count < Word.span Word.bits) :
    Fault.OnlyOverflows m.Fits (m.claimRun owner count pinned) := by
  unfold Coremap.claimRun
  refine .guard (Nat.ne_of_gt hpos) ?_
  refine (Placement.place_onlyOverflows hroom m.placement).bind ?_
  rintro ⟨range, placement⟩ hplace
  dsimp only
  split
  · exact .ok _
  · next start stop =>
      obtain ⟨rfl, hfree⟩ := Placement.place_isFreeRun hplace hm.policy
      refine .bind (.sub (by omega)) fun last _ => ?_
      refine .bind (markRun_onlyOverflows ?_) fun m₁ hmark => ?_
      · rw [Nat.add_sub_cancel_left]
        exact hfree
      -- the counters count frames of the table
      have hshift := markRun_shifts hmark
      have hkernel : m₁.kernelCount ≤ m.size := by
        have h := hshift.kernel
        have : m.kernelCount ≤ m.size := hm.counted.kernel ▸ countFrames_le _
        dsimp only at h
        omega
      have huser : m₁.userCount ≤ m.size := by
        have h := hshift.user
        have : m.userCount ≤ m.size := hm.counted.user ▸ countFrames_le _
        dsimp only at h
        omega
      split
      · refine .bind (.add fun hfits => ?_) fun _ _ => .ok _
        have := hroom hfits
        omega
      · refine .bind (.add fun hfits => ?_) fun _ _ => .ok _
        have := hroom hfits
        omega

theorem Exact.claim_onlyOverflows {owner : FrameOwner} {count : Nat} (hm : m.Exact)
    (hpos : 0 < count) (hroom : m.Fits → m.size + count < Word.span Word.bits)
    (howner : owner = .kernel ∨ count = 1) :
    Fault.OnlyOverflows m.Fits (m.claim owner count) := by
  refine (hm.claimRun_onlyOverflows hpos hroom).bind ?_
  rintro ⟨first, m₁⟩ hclaim
  cases owner with
  | kernel => cases first <;> exact .ok _
  | user page =>
      obtain rfl := howner.resolve_left nofun
      rcases hm.toSound.claimRun_user hclaim with ⟨rfl, -⟩ | ⟨i, rfl, hr, hput⟩
      · exact .ok _
      · obtain ⟨l, hl, hmem⟩ := hm.chain
        have hl₁ := hl.of_sameLinks (hm.toSound.claimRun_sameLinks hclaim)
        refine .bind (hl₁.pushNewest_onlyOverflows (i := i) ?_ ?_) fun _ _ => .ok _
        · intro hi
          obtain ⟨q, hq⟩ := (hmem i).mp hi
          exact nomatch hr.unique hq
        · rw [hput.size]
          exact lt_size_of_use? hr

/-! ## Releases -/

theorem frameAddress_onlyOverflows (hi : i < m.size) :
    Fault.OnlyOverflows m.Fits (m.frameAddress i) := by
  have hword : Word.span Word.bits = 18446744073709551616 := rfl
  have hframe : Address.frameSize = 4096 := rfl
  have hmul : m.Fits → i * Address.frameSize < Word.span Word.bits := by
    intro hfits
    unfold Fits at hfits
    rw [hword, hframe] at hfits ⊢
    omega
  refine .bind (.mul hmul) fun offset hoffset => .add fun hfits => ?_
  obtain rfl : offset = i * Address.frameSize := by
    rw [Word.mul_eq_ok (hmul hfits)] at hoffset
    exact (Except.ok.inj hoffset).symm
  unfold Fits at hfits
  rw [hword, hframe] at hfits ⊢
  omega

/-- Every frame of a table that fits has an address. -/
theorem Fits.addressOf_total (h : m.Fits) (hi : i < m.size) :
    ∃ address, m.addressOf i = .ok address := by
  rw [addressOf, if_pos hi]
  exact (frameAddress_onlyOverflows hi).exists_ok h

/-- A resident frame can be taken off the chain. -/
theorem Sound.unlink_onlyOverflows (hm : m.Sound) (h : m.HasRole i (.resident page)) :
    Fault.OnlyOverflows fits (m.unlink i) := by
  obtain ⟨l, hl, hmem⟩ := hm.chain
  exact hl.unlink_onlyOverflows ((hmem i).mpr ⟨page, h⟩)

/-- A resident frame that was taken off the chain can be cleared. -/
theorem Exact.clear_unlinked_onlyOverflows (hm : m.Exact) (h : m.HasRole i (.resident page))
    (hunlink : m.unlink i = .ok m₁) : Fault.OnlyOverflows fits (m₁.clearUser i) := by
  have h₁ : m₁.HasRole i (.resident page) := (unlink_alike hunlink).role.mpr h
  obtain ⟨d, hd, huse⟩ := h₁.frame
  have hkind : d.kind? = some .user := (congrArg Descriptor.kind? huse : d.use.kind? = _)
  refine clearUser_onlyOverflows hd hkind ?_
  have hshift := (unlink_shifts hunlink).user
  have := hm.userCount_pos h rfl
  omega

/-- The run that a kernel frame starts ends inside the table, and all of it is counted. -/
theorem Exact.freeRun_onlyOverflows {tail : Bool} (hm : m.Exact)
    (h : m.HasRole i (.kernel tail)) : Fault.OnlyOverflows fits (m.freeRun i) := by
  obtain ⟨htail, -⟩ := runLength_spec m i
  have hpos : 1 ≤ m.runLength i := Nat.le_add_left 1 _
  have hkernel : ∀ k, k < m.runLength i → ∃ tail, m.HasRole (i + k) (.kernel tail) := by
    intro k hk
    induction k with
    | zero => exact ⟨tail, h⟩
    | succ k ih =>
        obtain ⟨t, ht⟩ := ih (by omega)
        obtain ⟨u, hu, hflag⟩ := htail (i + k) (by omega) (by omega)
        obtain rfl : (FrameRole.kernel t).use = u := Option.some.inj (ht.symm.trans hu)
        obtain rfl : t = true := hflag
        exact hm.run (i + k) ht
  have hroom : i + m.runLength i ≤ m.size := by
    obtain ⟨t, ht⟩ := hkernel (m.runLength i - 1) (by omega)
    have := lt_size_of_use? ht
    omega
  unfold Coremap.freeRun
  refine .guard (Nat.not_lt.mpr hroom) ?_
  refine .bind (.sub ?_) fun _ _ => .ok _
  have hcount : m.runLength i ≤ m.countFrames Descriptor.isKernelFrame := by
    obtain ⟨htable, huse⟩ := putFree_ok (m.runLength i) hroom
    have := countFrames_run (p := Descriptor.isKernelFrame) (b := true) (c := false) (i := i)
      (n := m.runLength i) (fun _ => rfl) htable.size ?_ ?_
    · simp only [Bool.toNat_true, Bool.toNat_false] at this
      omega
    · intro x hle hlt
      obtain ⟨t, ht⟩ := hkernel (x - i) (by omega)
      rw [Nat.add_sub_cancel' hle] at ht
      exact ⟨_, .free, ht, by rw [huse, if_pos ⟨hle, hlt⟩], rfl, rfl⟩
    · intro x hx
      rw [huse, if_neg hx]
  have hsame := (putFree_shifts (m.runLength i) hroom).kernel
  rw [hm.counted.kernel] at hcount
  omega

theorem Exact.release_onlyOverflows (hm : m.Exact) (hi : i < m.size) :
    Fault.OnlyOverflows m.Fits (m.release i) := by
  obtain ⟨d, hd⟩ := frame_total hi
  refine .bind_ok hd (.ite (fun _ => ?_) fun haccept => ?_)
  · exact .bind (frameAddress_onlyOverflows hi) fun _ _ => .ok _
  · have halloc : d.allocated = true := by
      cases ha : d.allocated <;> simp [ha] at haccept ⊢
    refine .ite (fun _ => .ok _) fun hstill => .ite (fun huser => ?_) fun hkernel => ?_
    · obtain ⟨page, hr⟩ := hm.toSound.resident_of_user hd huser (Bool.eq_false_iff.mpr hstill)
      refine (hm.toSound.unlink_onlyOverflows hr).bind fun m₁ hunlink => ?_
      exact (hm.clear_unlinked_onlyOverflows hr hunlink).bind fun _ _ => .ok _
    · obtain ⟨tail, hr⟩ := hm.toSound.kernel_of_frame hd halloc (Bool.eq_false_iff.mpr hkernel)
      exact (hm.freeRun_onlyOverflows hr).bind fun _ _ => .ok _

theorem Exact.releaseOne_onlyOverflows {space : Nat} (hm : m.Exact) (hi : i < m.size) :
    Fault.OnlyOverflows fits (m.releaseOne space i) := by
  obtain ⟨d, hd⟩ := frame_total hi
  refine .bind_ok hd (.ite (fun _ => .ok _) fun hours => .ite (fun _ => .ok _) fun hstill => ?_)
  obtain ⟨r, hr, huse⟩ := hm.toSound.hasRole (use?_of_getElem? (frame_ok hd))
  have hours' : r.use.holdsPageOf space = true := by
    rw [← huse]
    show d.holdsPageOf space = true
    simpa using hours
  have huser : d.isUser = true := by
    show d.use.isUser = true
    rw [huse]
    cases r with
    | free => exact nomatch hours'
    | kernel tail => exact nomatch hours'
    | resident page => rfl
    | transit pinned page orphaned => rfl
  obtain ⟨page, hres⟩ := hm.toSound.resident_of_user hd huser (Bool.eq_false_iff.mpr hstill)
  refine (hm.toSound.unlink_onlyOverflows hres).bind fun m₁ hunlink => ?_
  exact (hm.clear_unlinked_onlyOverflows hres hunlink).bind fun _ _ => .ok _

theorem releaseOne_table {space : Nat} {isFree : Bool}
    (h : m.releaseOne space i = .ok (isFree, m')) : m.SameTable m' :=
  (releaseOne_puts h).choose_spec.2.toSameTable

theorem Exact.releaseSpace_onlyOverflows {space : Nat} (hm : m.Exact) :
    Fault.OnlyOverflows fits (m.releaseSpace space) := by
  refine Sweep.onlyOverflows (P := fun _ (t : Nat × Coremap) => t.2.Exact ∧ t.2.size = m.size)
    ⟨hm, rfl⟩ ?_
  rintro k ⟨c, t⟩ hk ⟨ht, hsize⟩
  have hone : Fault.OnlyOverflows fits (t.releaseOne space k) :=
    ht.releaseOne_onlyOverflows (Nat.lt_of_lt_of_eq hk hsize.symm)
  refine ⟨hone.bind fun _ _ => .ok _, ?_⟩
  rintro ⟨c', t'⟩ h
  obtain ⟨⟨isFree, t''⟩, hfree, h⟩ := Fault.bind_eq_ok.mp h
  cases h
  exact ⟨ht.releaseOne hfree, (releaseOne_table hfree).size.trans hsize⟩

theorem setTlbSlot_onlyOverflows {slot : Option Nat} (hi : i < m.size) :
    Fault.OnlyOverflows m.Fits (m.setTlbSlot i slot) := by
  obtain ⟨d, hd⟩ := frame_total hi
  refine .bind_ok hd (.ite (fun _ => ?_) fun _ => .ok _)
  exact .bind (frameAddress_onlyOverflows hi) fun _ _ => .ok _

end PhysMem.Coremap
