import PhysMem.Proofs.Cargo

/-!
# Transfers — what is copied where

What the pieces of an eviction, of a filling and of a restore bring about: a sector that was written
is in its slot, one that was read is in its frame, the slot of an eviction that is told of is idle,
and a restore releases its slot when it succeeds and only then.

* **`Agrees`** says how far slot and frame hold the same, **`writeNow_agrees`** and
  **`readNow_agrees`** that a transfer brings them one sector further.
* **`toldPager_spares`** — an eviction that was told of leaves its slot to the page.
* **`filling?`** is what a stopped filling fills from where.
* **`Restores`** is the end of a restore, **`resume_restores`** shows that there is no other.
-/

namespace PhysMem

/-- The first `n` sectors of the slot hold what the frame holds. -/
def Memory.Agrees (m : Memory) (frame slot n : Nat) : Prop :=
  ∀ i : Place, i.val < n → m.swap.device.stored slot i = some ((m.contents frame).get i)

namespace Task

open SlotMap

variable {held : Bool} {m : Memory} {p : Piece} {notices : List Notice}

/-- Behind the last place all sectors are done. -/
theorem lt_of_nextPlace_eq_none {i : Place} (h : nextPlace i = none) (j : Place) :
    j.val < i.val + 1 := by
  unfold nextPlace at h
  split at h
  · exact nomatch h
  · omega

/-- What holds of a place and of all before it. -/
theorem forall_place_lt_succ {P : Place → Prop} {i : Place} (hlast : P i)
    (hbefore : ∀ j : Place, j.val < i.val → P j) (j : Place) (hj : j.val < i.val + 1) : P j := by
  rcases Nat.lt_succ_iff_lt_or_eq.mp hj with hlt | he
  · exact hbefore j hlt
  · exact Fin.ext he ▸ hlast

/-! ## Writing -/

/-- A piece that ends at another call-out of the same eviction has written its sector. -/
theorem writeNow_writes {e : Eviction} {i : Place} {t : Task} (hm : m.swap.Sound)
    (ht : (Task.evictWriting e i).Proper m.swap.device) (h : writeNow m e i = .ok p)
    (hn : p.next = .callOut t) (hgoes : t.site ≠ .map) :
    p.memory.swap.device.stored e.slot i = some ((m.contents e.frame).get i) := by
  have ended : ¬ Ended e.need p.next := by
    intro hend
    rw [hn] at hend
    exact hgoes hend.maps
  have writes : ∀ {device},
      m.swap.device.store e.slot i ((m.contents e.frame).get i) = .ok (.ok (), device) →
        p.memory.swap.device = device →
          p.memory.swap.device.stored e.slot i = some ((m.contents e.frame).get i) := by
    rintro device hstore rfl
    obtain ⟨-, -, hwritten, -⟩ := SwapDevice.store_ok hm.fits ht.2 hstore
    exact hwritten rfl
  cases writeNow_cases h with
  | failed _ _ h => exact absurd (writeFailed_ended h) ended
  | next device _ hstore _ h =>
      exact writes hstore (writeAt_respects (m := m.putDevice device) hm.slots ht.1 h).drops.device
  | last device _ hstore _ h =>
      exact writes hstore (written_respects (m := m.putDevice device) hm.slots ht.1 h).drops.device

/-- Slot and frame agree one sector further. -/
theorem writeNow_agrees {e : Eviction} {i : Place} {t : Task} (hm : m.swap.Sound)
    (ht : (Task.evictWriting e i).Proper m.swap.device) (h : writeNow m e i = .ok p)
    (hn : p.next = .callOut t) (hgoes : t.site ≠ .map) (hagrees : m.Agrees e.frame e.slot i) :
    p.memory.Agrees e.frame e.slot (i + 1) := by
  have hr := writeNow_resumes hm ht h
  unfold Memory.Agrees
  rw [hr.contents e.frame nofun]
  refine forall_place_lt_succ (writeNow_writes hm ht h hn hgoes) fun j hj => ?_
  rw [hr.stored e.slot j fun hw => Nat.ne_of_lt hj (congrArg Fin.val hw.2)]
  exact hagrees j hj

/-- The piece that tells the pager has found its slot live and its frame not given up. -/
theorem writeNow_settles {e : Eviction} {i : Place} (h : writeNow m e i = .ok p)
    (hn : p.next = .callOut (.evictTelling e)) :
    m.swap.slots.settle e.slot e.page = .ok (true, p.memory.swap.slots) ∧
      p.memory.coremap = m.coremap ∧
        ∃ d, m.coremap.frame e.frame = .ok d ∧ d.orphaned = false := by
  have ended : ¬ Ended e.need p.next := by
    intro hend
    rw [hn] at hend
    exact nomatch hend.maps
  cases EvictingCases.of_writing h with
  | failed _ h => exact absurd (writeFailed_ended h) ended
  | writing => exact nomatch hn
  | written _ h =>
      cases written_cases h with
      | freed _ _ _ _ _ _ _ _ h => exact absurd (evictionEnded_ended h) ended
      | told slots hsettle hd hkept => exact ⟨hsettle, rfl, _, hd, hkept⟩

/-- **An eviction that was told of leaves its slot to the page**, unless the frame was given up
meanwhile. -/
theorem toldPager_spares {e : Eviction} (hm : m.coremap.Sound) (hslots : m.swap.slots.Sound)
    (he : e.Apart) (hc : m.coremap.Carries (evictCargo e) false) (h : toldPager m e = .ok p) :
    p.memory.swap.slots.state? e.slot = m.swap.slots.state? e.slot := by
  cases toldPager_cases h with
  | orphaned _ _ hfinish =>
      obtain ⟨-, page, hrole, -⟩ := hm.finishEviction hfinish
      injection hrole.unique hc with _ _ horphaned
      exact nomatch horphaned
  | kept coremap _ h =>
      have hrest := evictionEnded_respects (m := { m with coremap }.countEviction) hslots h
      rcases hrest.drops.slots.state e.slot with hs | ⟨q, s, -, ⟨hneed, -⟩, -⟩
      · exact hs
      · exact absurd hneed (he e.slot e.page q ⟨rfl, rfl⟩)

/-! ## Reading -/

/-- What was put into a frame of the memory. -/
theorem contents_putContents_self {frame : Nat} (c : Contents) (hframe : frame < m.ram.size) :
    (m.putContents frame c).contents frame = c := by
  unfold Memory.contents Memory.putContents
  rw [Array.getElem?_setIfInBounds_self_of_lt hframe]
  rfl

/-- A sector that could be read is in the frame. -/
theorem readNow_reads {f : Filling} {i : Place} (hm : m.swap.Sound)
    (ht : (Task.fillReading f i).Proper m.swap.device) (hframe : f.frame < m.ram.size)
    (h : readNow held m f i = .ok p) :
    (∃ r, p.next = .reply r ∧ Unread f r) ∨
      ∃ data, m.swap.device.stored f.slot i = some data ∧
        p.memory.contents f.frame = (m.contents f.frame).set i data i.isLt := by
  have reads : ∀ {device data}, m.swap.device.fetch f.slot i = .ok (.ok data, device) →
      p.memory.ram = ((m.putDevice device).putContents f.frame
        ((m.contents f.frame).set i data)).ram →
          ∃ data, m.swap.device.stored f.slot i = some data ∧
            p.memory.contents f.frame = (m.contents f.frame).set i data i.isLt := by
    intro device data hfetch hram
    obtain ⟨-, -, hread⟩ := SwapDevice.fetch_ok hm.fits ht hfetch
    refine ⟨data, hread data rfl, ?_⟩
    show p.memory.ram[f.frame]?.getD .zero = _
    rw [hram]
    exact contents_putContents_self (m := m.putDevice device) _ hframe
  cases readNow_cases h with
  | failed _ _ h => exact Or.inl (fillFailed_unread h)
  | next device data hfetch _ h =>
      have hrest := readAt_respects (m := (m.putDevice device).putContents f.frame _) hm.slots h
      exact Or.inr (reads hfetch hrest.drops.ram)
  | last device data hfetch _ h =>
      have hrest := slotRead_respects (m := (m.putDevice device).putContents f.frame _) hm.slots h
      exact Or.inr (reads hfetch hrest.drops.ram)

/-- Slot and frame agree one sector further, unless the sector could not be read. -/
theorem readNow_agrees {f : Filling} {i : Place} (hm : m.swap.Sound)
    (ht : (Task.fillReading f i).Proper m.swap.device) (hframe : f.frame < m.ram.size)
    (h : readNow held m f i = .ok p) (hread : ∀ r, p.next = .reply r → ¬ Unread f r)
    (hagrees : m.Agrees f.frame f.slot i) : p.memory.Agrees f.frame f.slot (i + 1) := by
  have hr := readNow_resumes hm ht h
  rcases readNow_reads hm ht hframe h with ⟨r, hn, hunread⟩ | ⟨data, hdata, hcontents⟩
  · exact absurd hunread (hread r hn)
  · unfold Memory.Agrees
    rw [hcontents]
    refine forall_place_lt_succ ?_ fun j hj => ?_
    · rw [hr.stored f.slot i nofun, hdata]
      exact congrArg some (Vector.getElem_set_self i.isLt).symm
    · rw [hr.stored f.slot j nofun, hagrees j hj]
      exact congrArg some (Vector.getElem_set_ne i.isLt j.isLt (Nat.ne_of_gt hj)).symm

/-! ## Evictions and fillings -/

/-- The frame, the page and the slot of a stopped eviction. -/
def eviction? : Task → Option Eviction
  | .evictMapping e | .evictWriting e _ | .evictTelling e => some e
  | _ => none

/-- The frame and the slot of a stopped filling. -/
def filling? : Task → Option Filling
  | .fillMapping f | .fillReading f _ | .fillScrubbing f _ => some f
  | _ => none

/-- The slot that the stopped operation is overwriting. -/
def scrubs : Task → Nat → Prop
  | .fillScrubbing f _ => fun x => x = f.slot
  | _ => fun _ => False

theorem Serves.filling {op : Operation} {t : Task} {f : Filling} (h : t.Serves op)
    (hf : t.filling? = some f) : FillServes op f := by
  cases t <;> cases hf <;> exact h

/-- What fills a frame and is no bare restore does so for a page. -/
theorem Serves.filling_page {op : Operation} {t : Task} {f : Filling} (h : t.Serves op)
    (hop : op.guardsSlots = true) (hf : t.filling? = some f) : ∃ page, f.page = some page := by
  cases hpage : f.page with
  | none =>
      rw [(h.filling hf).of_none hpage] at hop
      exact nomatch hop
  | some page => exact ⟨page, rfl⟩

/-- A restore is stopped in its filling. -/
theorem Serves.fills {t : Task} {slot address : Nat} (h : t.Serves (.restore slot address)) :
    ∃ f, t.filling? = some f := by
  cases t with
  | evictMapping e => exact absurd h NeedServes.not_restore
  | evictWriting e i => exact absurd h NeedServes.not_restore
  | evictTelling e => exact absurd h NeedServes.not_restore
  | fillMapping f => exact ⟨f, rfl⟩
  | fillReading f i => exact ⟨f, rfl⟩
  | fillScrubbing f i => exact ⟨f, rfl⟩
  | slotReading slot buffer i => exact h.elim
  | slotWriting slot data i => exact h.elim

theorem holds_of_filling {t : Task} {f : Filling} {page : Page} (hf : t.filling? = some f)
    (hpage : f.page = some page) : t.holds f.slot page := by
  cases t <;> cases hf <;> exact ⟨rfl, hpage⟩

theorem cargo?_of_filling {t : Task} {f : Filling} (hf : t.filling? = some f) :
    t.cargo? = fillCargo? f := by
  cases t <;> cases hf <;> rfl

/-- A filling goes on with the same frame and the same slot. -/
theorem Follows.filling {t t' : Task} {f : Filling} (h : t.Follows (.callOut t'))
    (hf : t.filling? = some f) : t'.filling? = some f := by
  generalize hn : Next.callOut t' = n at h
  cases h with
  | ended e ht hend => rcases ht with rfl | ⟨i, rfl⟩ | rfl <;> exact nomatch hf
  | unread g ht ha => exact nomatch hn
  | full g ht ha => exact nomatch hn
  | written e => exact nomatch hf
  | nextWritten e hij => exact nomatch hf
  | told e hi => exact nomatch hf
  | read g =>
      cases hn
      exact hf
  | nextRead g hij =>
      cases hn
      exact hf
  | scrubbed g hi =>
      cases hn
      exact hf
  | nextScrubbed g hij =>
      cases hn
      exact hf

/-- A page-in answers with an error, or it was filling its frame. -/
theorem Follows.pageIn_reply {t : Task} {page : Page} {slot : Nat} {r : Reply}
    (h : t.Follows (.reply r)) (hserves : t.Serves (.pageIn page slot)) :
    (∃ e, r = .address (.error e)) ∨ ∃ f, t.filling? = some f ∧ f.page = some page ∧
      f.slot = slot ∧ r = .address (.ok f.address) := by
  have filling : ∀ f, t.filling? = some f → f.page = some page ∧ f.slot = slot := by
    intro f hf
    have hop := hserves.filling hf
    cases hp : f.page with
    | none => exact nomatch hop.of_none hp
    | some q =>
        cases hop.of_page hp
        exact ⟨rfl, rfl⟩
  generalize hn : Next.reply r = n at h
  cases h with
  | ended e ht hend =>
      have hneed : NeedServes (.pageIn page slot) e.need := by
        rcases ht with rfl | ⟨i, rfl⟩ | rfl
        · exact hserves
        · exact hserves
        · exact hserves
      rw [hneed.of_pageIn, ← hn] at hend
      cases hend with
      | found f hf => exact nomatch hf
      | failed e he =>
          cases he
          exact Or.inl ⟨e, rfl⟩
  | unread f ht ha =>
      cases hn
      have hf : t.filling? = some f := by
        rcases ht with rfl | ⟨i, rfl⟩
        · rfl
        · rfl
      obtain ⟨e, rfl⟩ := ha.of_page (filling f hf).1
      exact Or.inl ⟨_, rfl⟩
  | full f ht ha =>
      cases hn
      have hf : t.filling? = some f := by
        rcases ht with ⟨i, rfl, -⟩ | ⟨i, rfl⟩
        · rfl
        · rfl
      unfold Full at ha
      rw [(filling f hf).1] at ha
      rcases ha with rfl | rfl
      · exact Or.inr ⟨f, hf, (filling f hf).1, (filling f hf).2, rfl⟩
      · exact Or.inl ⟨_, rfl⟩
  | _ => exact nomatch hn

/-- A restore answers when its filling is over. -/
theorem Follows.restore_reply {t : Task} {slot address : Nat} {r : Reply}
    (h : t.Follows (.reply r)) (hserves : t.Serves (.restore slot address)) :
    ∃ f, t.filling? = some f ∧ f.page = none ∧ f.slot = slot ∧ f.address = address := by
  have filling : ∀ f, t.filling? = some f → ∃ f, t.filling? = some f ∧ f.page = none ∧
      f.slot = slot ∧ f.address = address := by
    intro f hf
    have hop := hserves.filling hf
    cases hp : f.page with
    | none =>
        cases hop.of_none hp
        exact ⟨f, hf, hp, rfl, rfl⟩
    | some q => exact nomatch hop.of_page hp
  generalize hn : Next.reply r = n at h
  cases h with
  | ended e ht hend =>
      have hneed : NeedServes (.restore slot address) e.need := by
        rcases ht with rfl | ⟨i, rfl⟩ | rfl
        · exact hserves
        · exact hserves
        · exact hserves
      exact absurd hneed NeedServes.not_restore
  | unread f ht ha =>
      refine filling f ?_
      rcases ht with rfl | ⟨i, rfl⟩
      · rfl
      · rfl
  | full f ht ha =>
      refine filling f ?_
      rcases ht with ⟨i, rfl, -⟩ | ⟨i, rfl⟩
      · rfl
      · rfl
  | _ => exact nomatch hn

/-- What a filling answers that has succeeded. -/
def doneReply (f : Filling) : Reply :=
  match f.page with
  | none => .transferred (.ok ())
  | some _ => .address (.ok f.address)

/-- A page-in that has read its slot releases it. -/
theorem filled_releases {f : Filling} {page : Page} (hm : m.swap.slots.Sound)
    (hp : f.page = some page) (ho : m.swap.slots.owner f.slot = some page)
    (h : filled m notices f = .ok p) : p.memory.swap.slots.state? f.slot = none := by
  cases filled_cases h with
  | unreleased hpage | restored hpage => exact nomatch hp.symm.trans hpage
  | broughtBack page' onChain slots coremap hpage hrelease =>
      obtain rfl : page' = page := Option.some.inj (hpage.symm.trans hp)
      rcases releaseIfOwned_ok hm hrelease with ⟨hne, -⟩ | ⟨-, -, hset⟩
      · exact absurd ho hne
      · exact hset.self

/-- A page-in that overwrites its slot releases it in the end. -/
theorem scrubNow_releases {f : Filling} {i : Place} {page : Page} (hm : m.swap.slots.Sound)
    (hp : f.page = some page) (ho : m.swap.slots.owner f.slot = some page)
    (h : scrubNow m f i = .ok p) : (∃ t, p.next = .callOut t ∧ t.scrubs f.slot) ∨
      p.memory.swap.slots.state? f.slot = none := by
  have ends : ∀ {device notices}, filled (m.putDevice device) notices f = .ok p →
      p.memory.swap.slots.state? f.slot = none :=
    fun {device} _ hfilled => filled_releases (m := m.putDevice device) hm hp ho hfilled
  cases scrubNow_cases h with
  | failed _ _ h => exact Or.inr (ends h)
  | next _ _ _ _ h =>
      cases scrubAt_cases h with
      | refused _ h => exact Or.inr (ends h)
      | ready => exact Or.inl ⟨_, rfl, rfl⟩
  | last _ _ _ _ h => exact Or.inr (ends h)

/-- Overwriting a slot makes its sector zero, or leaves the slot alone. -/
theorem scrubNow_stored {f : Filling} {i : Place} (hm : m.swap.Sound)
    (ht : (Task.fillScrubbing f i).Proper m.swap.device) (h : scrubNow m f i = .ok p) :
    p.memory.swap.device.stored f.slot = m.swap.device.stored f.slot ∨
      p.memory.swap.device.stored f.slot i = some .zero ∧
        ∀ j, j ≠ i → p.memory.swap.device.stored f.slot j = m.swap.device.stored f.slot j := by
  have zeroes : ∀ {device}, m.swap.device.store f.slot i .zero = .ok (.ok (), device) →
      p.memory.swap.device = device → p.memory.swap.device.stored f.slot i = some .zero ∧
        ∀ j, j ≠ i → p.memory.swap.device.stored f.slot j = m.swap.device.stored f.slot j := by
    rintro device hstore rfl
    obtain ⟨-, hother, hwritten, -⟩ := SwapDevice.store_ok hm.fits ht hstore
    exact ⟨hwritten rfl, fun j hj => hother f.slot j fun hx => hj hx.2⟩
  cases scrubNow_cases h with
  | failed device hstore h =>
      obtain ⟨-, -, -, hfailed⟩ := SwapDevice.store_ok hm.fits ht hstore
      rw [(filled_respects (m := m.putDevice device) hm.slots h).drops.device]
      exact Or.inl (hfailed ⟨_, rfl⟩ f.slot)
  | next device _ hstore _ h =>
      have hrest := scrubAt_respects (m := m.putDevice device) hm.slots h
      exact Or.inr (zeroes hstore hrest.drops.device)
  | last device _ hstore _ h =>
      have hrest := filled_respects (m := m.putDevice device) hm.slots h
      exact Or.inr (zeroes hstore hrest.drops.device)

/-! ## Restores -/

/-- What a piece of a restore does to the slot map: it releases the slot when it succeeds, whoever has
it, and else it leaves all slots alone. -/
inductive Restores (f : Filling) (m : Memory) (p : Piece) : Prop
  | released (hn : p.next = .reply (.transferred (.ok ())))
      (sets : m.swap.slots.Sets f.slot none p.memory.swap.slots)
  | left (hn : p.next ≠ .reply (.transferred (.ok ())))
      (slots : p.memory.swap.slots = m.swap.slots)

variable {f : Filling} {i : Place}

/-- A step before the piece that leaves all slots alone. -/
theorem Restores.of_same {n : Memory} (h : Restores f n p) (hs : n.swap.slots = m.swap.slots) :
    Restores f m p := by
  cases h with
  | released hn sets =>
      rw [hs] at sets
      exact .released hn sets
  | left hn slots => exact .left hn (slots.trans hs)

theorem filled_restores (hm : m.swap.slots.Sound) (hp : f.page = none)
    (h : filled m notices f = .ok p) : Restores f m p ∧
      (f.slot < m.swap.slots.capacity → p.next = .reply (.transferred (.ok ()))) := by
  cases filled_cases h with
  | unreleased _ hrelease =>
      obtain ⟨hsame, hle⟩ := release_error hrelease
      exact ⟨.left nofun hsame, fun hlt => absurd hlt (Nat.not_lt.mpr hle)⟩
  | restored _ hrelease => exact ⟨.released rfl (release_ok hm hrelease), fun _ => rfl⟩
  | broughtBack _ _ _ _ hpage => exact nomatch hp.symm.trans hpage

theorem fillFailed_restores {e : SwapError} (hp : f.page = none)
    (h : fillFailed m f e = .ok p) : Restores f m p := by
  cases fillFailed_cases h with
  | restore => exact .left nofun rfl
  | pageIn _ _ _ hpage => exact nomatch hp.symm.trans hpage

theorem scrubAt_restores (hm : m.swap.slots.Sound) (hp : f.page = none)
    (h : scrubAt m f i = .ok p) : Restores f m p ∧ (f.slot < m.swap.slots.capacity →
      ∀ r, p.next = .reply r → r = .transferred (.ok ())) := by
  cases scrubAt_cases h with
  | refused _ h =>
      obtain ⟨hrest, hends⟩ := filled_restores hm hp h
      refine ⟨hrest, fun hlt r hr => ?_⟩
      exact Next.reply.inj (hr.symm.trans (hends hlt))
  | ready => exact ⟨.left nofun rfl, fun _ r hr => nomatch hr⟩

/-- A restore that has begun to overwrite its slot succeeds. -/
theorem scrubNow_restores (hm : m.swap.slots.Sound) (hp : f.page = none)
    (h : scrubNow m f i = .ok p) : Restores f m p ∧ (f.slot < m.swap.slots.capacity →
      ∀ r, p.next = .reply r → r = .transferred (.ok ())) := by
  -- a restore that is over has answered so
  have ends : ∀ {device notices}, filled (m.putDevice device) notices f = .ok p →
      Restores f m p ∧ (f.slot < m.swap.slots.capacity →
        ∀ r, p.next = .reply r → r = .transferred (.ok ())) := by
    intro device notices hfilled
    obtain ⟨hrest, hends⟩ := filled_restores (m := m.putDevice device) hm hp hfilled
    refine ⟨hrest.of_same rfl, fun hlt r hr => ?_⟩
    exact Next.reply.inj (hr.symm.trans (hends hlt))
  cases scrubNow_cases h with
  | failed _ _ h => exact ends h
  | next device _ _ _ h =>
      obtain ⟨hrest, hends⟩ := scrubAt_restores (m := m.putDevice device) hm hp h
      exact ⟨hrest.of_same rfl, hends⟩
  | last _ _ _ _ h => exact ends h

/-- **A restore releases its slot when it succeeds and only then.** -/
theorem resume_restores {t : Task} (hm : m.swap.slots.Sound) (hp : f.page = none)
    (hf : t.filling? = some f) (h : resume held m t = .ok p) : Restores f m p := by
  have goesOn : FillingCases m f p → Restores f m p := by
    intro h
    cases h with
    | full device ram h =>
        exact (filled_restores (m := m.putSectors device ram) hm hp h).1.of_same rfl
    | unread device ram h => exact (fillFailed_restores hp h).of_same rfl
    | reading | scrubbing => exact .left nofun rfl
  cases t with
  | fillMapping g =>
      cases hf
      exact goesOn (.of_mapping h)
  | fillReading g i =>
      cases hf
      exact goesOn (.of_reading h)
  | fillScrubbing g i =>
      cases hf
      exact goesOn (.of_scrubbing h)
  | _ => exact nomatch hf

end Task

end PhysMem
