import PhysMem.Proofs.Transfers

/-!
# Evictions — when the pager is told, and how an eviction ends

An eviction begins with the frame at its address. When all sectors are written, it looks at its slot
and at its frame. If neither was given up the pager is told; else both are freed, as they are when a
sector could not be written. The clean-up behind the telling is guarded by the page alone.

* **`start_places`** — where an eviction begins.
* **`writeNow_tells`** — what is so when the pager is told.
* **`toldPager_slot`** — what becomes of the slot behind the telling.
* **`Returns`** is the end of an eviction whose frame was given up, **`resume_returns`** shows that
  there is no other.
-/

namespace PhysMem

namespace Coremap

variable {m m' : Coremap} {c : Cargo} {o : Bool}

/-- A frame of the table starts at one address. -/
theorem eq_of_indexOf? {address i : Nat} (h : m.indexOf? address = some i) :
    address = m.base + i * Address.frameSize := by
  unfold indexOf? at h
  split at h
  · next hstarts =>
      obtain ⟨hle, haligned⟩ := hstarts
      have hdvd : Address.frameSize ∣ address - m.base :=
        Nat.dvd_of_mod_eq_zero (eq_of_beq haligned)
      dsimp only at h
      split at h
      · cases h
        rw [Nat.div_mul_cancel hdvd]
        omega
      · exact nomatch h
  · exact nomatch h

/-- The descriptor of a frame in transit shows whether it was given up. -/
theorem Carries.orphaned {d : Descriptor} (h : m.Carries c o) (hd : m.frame c.frame = .ok d) :
    d.orphaned = o := by
  have huse : d.use = (c.role o).use :=
    Option.some.inj ((use?_of_getElem? (frame_ok hd)).symm.trans h)
  exact congrArg Descriptor.orphaned huse

/-- No run of the kernel's reaches a frame that is not the kernel's. -/
theorem Sound.not_insideRun {i : Nat} {r : FrameRole} (hm : m.Sound) (h : m.HasRole i r)
    (hr : ∀ tail, r ≠ .kernel tail) : m.insideRun i = false := by
  refine Bool.eq_false_iff.mpr fun hinside => ?_
  obtain ⟨tail, ht⟩ := hm.kernel_of_insideRun hinside
  exact hr tail (h.unique ht)

/-- A frame in transit is orphaned when it is released. -/
theorem Sound.release_orphans {answer : Except FrameError Release} (hm : m.Sound)
    (hc : m.Carries c o) (h : m.release c.frame = .ok (answer, m')) : m'.Carries c true := by
  obtain ⟨d, hd, h⟩ := Fault.bind_eq_ok.mp h
  have huse : d.use = (c.role o).use :=
    Option.some.inj ((use?_of_getElem? (frame_ok hd)).symm.trans hc)
  have hallocated : d.allocated = true := congrArg Descriptor.allocated huse
  have htransit : d.inTransit = true := by
    show d.use.inTransit = true
    rw [huse]
    unfold Cargo.role
    cases c.pinned <;> rfl
  have hfirst : m.insideRun c.frame = false := hm.not_insideRun hc nofun
  cases ho : d.orphaned with
  | true =>
      rw [if_pos (by simp [ho])] at h
      obtain ⟨address, -, h⟩ := Fault.bind_eq_ok.mp h
      cases h
      rw [hc.orphaned hd] at ho
      rw [← ho]
      exact hc
  | false =>
      rw [if_neg (by simp [hallocated, hfirst, ho]), if_pos htransit] at h
      cases h
      exact (hm.orphan hd hc htransit).2.role_self

end Coremap

namespace Task

open SlotMap

variable {held : Bool} {m : Memory} {p : Piece} {notices : List Notice} {e : Eviction} {i : Place}

/-- Whoever frees a frame in transit orphans it. -/
theorem free_orphans {address : Nat} {c : Cargo} {o : Bool} (hm : m.coremap.Sound)
    (hc : m.coremap.Carries c o) (haddress : m.coremap.indexOf? address = some c.frame)
    (h : free m address = .ok p) : p.memory.coremap.Carries c true := by
  cases free_cases h with
  | noFrame hindex => exact nomatch haddress.symm.trans hindex
  | refused _ hindex hrelease | freed _ hindex hrelease | deferred _ hindex hrelease =>
      cases haddress.symm.trans hindex
      exact hm.release_orphans hc hrelease

/-! ## Beginnings -/

theorem evict_places {need : Option Need} (h : evict m need = .ok p)
    (hn : p.next = .callOut (.evictMapping e)) :
    p.memory.coremap.indexOf? e.address = some e.frame := by
  have ended : ¬ Ended need p.next := by
    intro hend
    rw [hn] at hend
    obtain ⟨f, hf⟩ := hend.fills
    exact nomatch hf
  cases evict_cases h with
  | noVictim _ h | noSlot _ _ _ _ _ _ _ h => exact absurd (evictionEnded_ended h) ended
  | reserved coremap slots _ haddress =>
      cases hn
      exact Coremap.indexOf?_of_addressOf haddress

theorem provide_places {need : Need} (h : provide m need = .ok p)
    (hn : p.next = .callOut (.evictMapping e)) :
    p.memory.coremap.indexOf? e.address = some e.frame := by
  have ended : ¬ Ended (some need) p.next := by
    intro hend
    rw [hn] at hend
    obtain ⟨f, hf⟩ := hend.fills
    exact nomatch hf
  cases provide_cases h with
  | tooFew _ h => exact absurd (unmet_ended h nofun) ended
  | room _ _ _ h => exact absurd (met_ended h) ended
  | noRoom _ _ _ h => exact evict_places h hn

/-- **An eviction begins with the frame at its address.** -/
theorem start_places {op : Operation} (hop : op.isManaged = true) (h : start held m op = .ok p)
    (hn : p.next = .callOut (.evictMapping e)) :
    p.memory.coremap.indexOf? e.address = some e.frame := by
  cases op with
  | allocate kind count page | allocateSeen count =>
      cases allocate_cases h with
      | refused => exact nomatch hn
      | provided _ h => exact provide_places h hn
  | evict => exact evict_places h hn
  | pageIn page slot =>
      cases pageIn_cases h with
      | refused => exact nomatch hn
      | held _ _ h => exact provide_places h hn
  | restore slot address => exact absurd (start_serves hop h hn).1 NeedServes.not_restore
  | free address =>
      obtain ⟨r, hr⟩ := (free_rank m address).reply h
      exact nomatch hn.symm.trans hr
  | freeSeen seen =>
      cases freeSeen_cases h with
      | unseen => exact nomatch hn
      | freed _ h =>
          obtain ⟨r, hr⟩ := (free_rank m _).reply h
          exact nomatch hn.symm.trans hr
  | tearDown space =>
      obtain ⟨frames, coremap, cleared, slots, -, -, rfl⟩ := tearDown_eq_ok h
      exact nomatch hn
  | recordTlbSlot address slot =>
      cases recordTlbSlot_cases h with
      | noFrame | recorded => exact nomatch hn
  | readSlot slot buffer => exact nomatch hop
  | writeSlot slot buffer => exact nomatch hop
  | scrubSlot slot => exact nomatch hop

/-! ## Telling -/

/-- A write that another call-out of the same eviction comes behind has succeeded. -/
theorem writeNow_stores {t : Task} (h : writeNow m e i = .ok p) (hn : p.next = .callOut t)
    (hgoes : t.site ≠ .map) :
    ∃ device, m.swap.device.store e.slot i ((m.contents e.frame).get i) = .ok (.ok (), device) := by
  cases writeNow_cases h with
  | next device _ hstore | last device _ hstore => exact ⟨device, hstore⟩
  | failed _ _ h =>
      have hend := writeFailed_ended h
      rw [hn] at hend
      exact absurd hend.maps hgoes

/-- **What is so when the pager is told**: the slot is the page's and idle, and the frame was not
given up. -/
theorem writeNow_tells {o : Bool} (hm : m.swap.slots.Sound)
    (hc : m.coremap.Carries (evictCargo e) o) (h : writeNow m e i = .ok p)
    (hn : p.next = .callOut (.evictTelling e)) :
    p.memory.swap.slots.state? e.slot = some (e.page, .idle) ∧
      p.memory.swap.slots.isBusy e.slot = .ok false ∧ o = false ∧
        p.memory.coremap = m.coremap := by
  obtain ⟨hsettle, hcoremap, d, hd, horphaned⟩ := writeNow_settles h hn
  exact ⟨state?_of_settle hm hsettle, isBusy_of_settle hsettle,
    (hc.orphaned hd).symm.trans horphaned, hcoremap⟩

/-- What becomes of the slot behind the telling: it is cleared exactly if the frame was given up and
the slot is the page's. -/
theorem toldPager_slot {o : Bool} (hm : m.coremap.Sound) (hslots : m.swap.slots.Sound)
    (he : e.Apart) (hc : m.coremap.Carries (evictCargo e) o) (h : toldPager m e = .ok p) :
    p.memory.swap.slots.state? e.slot =
      if o = true ∧ m.swap.slots.owner e.slot = some e.page then none
      else m.swap.slots.state? e.slot := by
  cases o with
  | false =>
      rw [if_neg (fun hboth => nomatch hboth.1)]
      exact toldPager_spares hm hslots he hc h
  | true =>
      cases toldPager_cases h with
      | kept _ hfinish =>
          obtain ⟨-, page, hrole, -⟩ := hm.finishEviction hfinish
          injection hrole.unique hc with _ _ horphaned
          exact nomatch horphaned
      | orphaned coremap slots _ hrelease h =>
          -- the clean-up is guarded by the page, and what needs the room keeps a free slot free
          rcases releaseIfOwned_ok hslots hrelease with ⟨hother, -, rfl⟩ | ⟨howner, -, hset⟩
          · have hrest := evictionEnded_respects
              (m := ({ m with coremap }.putSlots m.swap.slots).countEviction) hslots h
            rw [if_neg (fun hboth => hother hboth.2)]
            rcases hrest.drops.slots.state e.slot with hs | ⟨q, s, -, ⟨hneed, -⟩, -⟩
            · exact hs
            · exact absurd hneed (he e.slot e.page q ⟨rfl, rfl⟩)
          · have hrest := evictionEnded_respects
              (m := ({ m with coremap }.putSlots slots).countEviction) hset.sound h
            rw [if_pos ⟨rfl, howner⟩]
            exact hrest.drops.slots.free hset.self

/-! ## Ends -/

/-- The eviction is over and returns so; its frame and its slot are free in the memory `n` that what
needs the room goes on with. -/
structure Returns (e : Eviction) (n : Memory) (result : Except EvictError (Nat × Nat))
    (p : Piece) : Prop where
  ends : ∃ notices, evictionEnded n notices e.need result = .ok p
  result : result = .ok (e.frame, e.slot) ∨ ∃ cause, result = .error (.swap cause)
  frame : n.coremap.HasRole e.frame .free
  slot : n.swap.slots.state? e.slot = none
  after : p.memory.swap.slots.state? e.slot = none

theorem Returns.of_ended {n : Memory} {result : Except EvictError (Nat × Nat)}
    (h : evictionEnded n notices e.need result = .ok p) (hn : n.swap.slots.Sound)
    (hresult : result = .ok (e.frame, e.slot) ∨ ∃ cause, result = .error (.swap cause))
    (hframe : n.coremap.HasRole e.frame .free) (hslot : n.swap.slots.state? e.slot = none) :
    ∃ n result, Returns e n result p :=
  ⟨n, result, ⟨notices, h⟩, hresult, hframe, hslot,
    (evictionEnded_respects hn h).drops.slots.free hslot⟩

theorem writeFailed_returns {cause : SwapError} (hm : m.swap.slots.Sound)
    (hc : m.coremap.Sound) (howner : m.swap.slots.owner e.slot = some e.page)
    (hcarry : m.coremap.Carries (evictCargo e) true) (h : writeFailed m e cause = .ok p) :
    ∃ n result, Returns e n result p := by
  obtain ⟨owned, slots, n, notices, hrelease, hback, h⟩ := writeFailed_eq_ok h
  obtain ⟨onChain, coremap, habort, rfl, -⟩ := putBack_eq_ok hback
  obtain ⟨-, page, orphaned, hrole, -, hput⟩ := hc.abortEviction habort
  have hsame := hrole.unique hcarry
  injection hsame with _ _ horphaned
  subst horphaned
  rcases releaseIfOwned_ok hm hrelease with ⟨hother, -⟩ | ⟨-, -, hset⟩
  · exact absurd howner hother
  · exact Returns.of_ended h hset.sound (Or.inr ⟨cause, rfl⟩) hput.role_self hset.self

/-- A frame that is in its slot and was given up is freed, and the slot with it. -/
theorem written_returns (hm : m.swap.slots.Sound) (hc : m.coremap.Sound)
    (howner : m.swap.slots.owner e.slot = some e.page)
    (hcarry : m.coremap.Carries (evictCargo e) true) (h : written m e = .ok p) :
    ∃ n result, Returns e n result p := by
  cases written_cases h with
  | told slots _ hd hkept => exact nomatch hkept.symm.trans (hcarry.orphaned hd)
  | freed slots slots' coremap hsettle _ _ hfinish hrelease h =>
      obtain ⟨-, -, -, hput⟩ := hc.finishEviction hfinish
      -- settling has cleared the slot, or the release behind it does
      have hfreed : slots'.Sound ∧ slots'.state? e.slot = none := by
        rcases settle_ok hm hsettle with ⟨hother, -⟩ | ⟨-, -, hset⟩ | ⟨-, -, hset⟩
        · exact absurd howner hother
        · rcases releaseIfOwned_ok hset.sound hrelease with ⟨-, -, rfl⟩ | ⟨-, -, hset'⟩
          · exact ⟨hset.sound, hset.self⟩
          · exact ⟨hset'.sound, hset'.self⟩
        · rcases releaseIfOwned_ok hset.sound hrelease with ⟨hother, -⟩ | ⟨-, -, hset'⟩
          · exact absurd (owner_of_state? hset.self) hother
          · exact ⟨hset'.sound, hset'.self⟩
      exact Returns.of_ended h hfreed.1 (Or.inl rfl) hput.role_self hfreed.2

/-- **An eviction whose frame was given up goes on to the next sector, or it is over** with frame and
slot free, whatever failed. -/
theorem resume_returns {t : Task} (ht : t = .evictMapping e ∨ ∃ i, t = .evictWriting e i)
    (hm : m.swap.slots.Sound) (hc : m.coremap.Sound)
    (howner : m.swap.slots.owner e.slot = some e.page)
    (hcarry : m.coremap.Carries (evictCargo e) true) (h : resume held m t = .ok p) :
    (∃ i, p.next = .callOut (.evictWriting e i)) ∨ ∃ n result, Returns e n result p := by
  have goesOn : EvictingCases m e p := by
    rcases ht with rfl | ⟨i, rfl⟩
    · exact .of_mapping h
    · exact .of_writing h
  cases goesOn with
  | failed device h =>
      exact Or.inr (writeFailed_returns (m := m.putDevice device) hm hc howner hcarry h)
  | writing => exact Or.inl ⟨_, rfl⟩
  | written device h =>
      exact Or.inr (written_returns (m := m.putDevice device) hm hc howner hcarry h)

end Task

end PhysMem
