import PhysMem.Proofs.Telling

/-!
# Deliveries — a page-in brings what is in the slot

A page may be brought back long after it was evicted, and at the call-outs of its page-in others may
run. As long as the slot stays the page's, its bytes stay what they are until the page-in has read
them, and nobody else gets at the frame that they are read into: while sectors are read it is lent
to the device, and a store into it is refused.

* **`keeping`** is the rule of such runs.
* **`Fetches`** says what a page-in has in its frame, **`Fetches.goesOn`** takes it to the next call-out.
* **`Keeps`** is the invariant of slot and frames. **`Keeps.moved`** is its preservation by one move,
  **`Keeps.of_run`** by a run.
* **`Keeps.delivers`** — a page-in that succeeds has brought the bytes.
-/

namespace PhysMem

open SlotMap

namespace Task

/-- The sectors of its frame that a filling has read. -/
def hasRead : Task → Place → Prop
  | .fillReading _ i => fun j => j.val < i.val
  | .fillScrubbing .. => fun _ => True
  | _ => fun _ => False

/-- The address of the frame that has been filled from the slot, while the slot is overwritten. -/
def filledFrom? (slot : Nat) : Task → Option Nat
  | .fillScrubbing f _ => if f.slot = slot then some f.address else none
  | _ => none

theorem filling?_of_scrubs {t : Task} {slot : Nat} (h : t.scrubs slot) :
    ∃ f, t.filling? = some f ∧ f.slot = slot := by
  cases t with
  | fillScrubbing f i => exact ⟨f, rfl, h.symm⟩
  | _ => exact h.elim

end Task

/-! ## Filling a frame from the slot -/

/-- If the operation fills a frame from the slot, it knows where that is, and the frame has these
contents in the sectors that are read. -/
def Fetches (m : Memory) (slot : Nat) (c : Contents) (t : Task) : Prop :=
  ∀ f, t.filling? = some f → f.slot = slot →
    m.coremap.indexOf? f.address = some f.frame ∧
      ∀ j, t.hasRead j → (m.contents f.frame).get j = c.get j

namespace Fetches

open PhysMem.Task

variable {m m' : Memory} {slot : Nat} {c : Contents} {t t' : Task} {f : Filling} {i : Place}
  {held : Bool} {p : Piece} {own : Option Cargo} {grants : Page → Prop}

/-- A frame that is left alone has the contents that it had. -/
theorem spared (h : Fetches m slot c t) (table : m.coremap.SameTable m'.coremap)
    (contents : ∀ f, t.filling? = some f → f.slot = slot → (∃ j, t.hasRead j) →
      m'.contents f.frame = m.contents f.frame) : Fetches m' slot c t := by
  intro f hf hslot
  obtain ⟨hplaced, hread⟩ := h f hf hslot
  refine ⟨?_, fun j hj => ?_⟩
  · rw [table.indexOf?]
    exact hplaced
  · rw [contents f hf hslot ⟨j, hj⟩]
    exact hread j hj

/-- The frame has one sector more, unless the sector could not be read. -/
theorem reads (hm : m.swap.Sound) (hram : m.ram.size = m.coremap.size)
    (h : Fetches m f.slot c (.fillReading f i)) (proper : (Task.fillReading f i).Proper m.swap.device)
    (stored : ∀ j : Place, m.swap.device.stored f.slot j = some (c.get j))
    (hp : readNow held m f i = .ok p) (hread : ∀ r, p.next = .reply r → ¬ Unread f r) :
    ∀ j : Place, j.val < i.val + 1 → (p.memory.contents f.frame).get j = c.get j := by
  obtain ⟨hplaced, hbefore⟩ := h f rfl rfl
  have hlt : f.frame < m.ram.size := hram ▸ Coremap.lt_size_of_indexOf? hplaced
  rcases readNow_reads hm proper hlt hp with ⟨r, hn, hunread⟩ | ⟨data, hdata, hcontents⟩
  · exact absurd hunread (hread r hn)
  · obtain rfl : c.get i = data := Option.some.inj ((stored i).symm.trans hdata)
    rw [hcontents]
    refine forall_place_lt_succ ?_ fun j hj => ?_
    · exact Vector.getElem_set_self i.isLt
    · exact (Vector.getElem_set_ne i.isLt j.isLt (Nat.ne_of_gt hj)).trans (hbefore j hj)

/-- **A filling goes on** to its next call-out with what it has read. -/
theorem goesOn (hm : m.swap.Sound) (hram : m.ram.size = m.coremap.size) (h : Fetches m slot c t)
    (proper : t.Proper m.swap.device)
    (stored : (∃ f, t.filling? = some f ∧ f.slot = slot) → ¬ t.scrubs slot →
      ∀ j : Place, m.swap.device.stored slot j = some (c.get j))
    (hp : Task.resume held m t = .ok p) (resumes : Task.Resumes t m p)
    (hauls : Task.Hauls own grants m p) (follows : t.Follows p.next)
    (hn : p.next = .callOut t') : Fetches p.memory slot c t' := by
  have hplaced : ∀ {f : Filling}, m.coremap.indexOf? f.address = some f.frame →
      p.memory.coremap.indexOf? f.address = some f.frame := by
    intro f hf
    rw [resumes.table.indexOf?]
    exact hf
  have hread : ∀ f r, p.next = .reply r → ¬ Unread f r := fun f r hr => nomatch hn.symm.trans hr
  intro g hg hslot
  subst hslot
  generalize hnext : p.next = n at follows
  cases follows with
  | written e =>
      cases hn.symm.trans hnext
      exact nomatch hg
  | nextWritten e hij =>
      cases hn.symm.trans hnext
      exact nomatch hg
  | told e hi =>
      cases hn.symm.trans hnext
      exact nomatch hg
  | ended e ht hend =>
      rw [← hnext, hn] at hend
      obtain ⟨f, rfl⟩ := hend.fills
      cases hg
      exact ⟨hauls.placed g hn, fun _ hj => hj.elim⟩
  | read f =>
      cases hn.symm.trans hnext
      cases hg
      exact ⟨hplaced (h g rfl rfl).1, fun j hj => absurd hj (Nat.not_lt_zero _)⟩
  | @nextRead f i j hij =>
      cases hn.symm.trans hnext
      cases hg
      refine ⟨hplaced (h g rfl rfl).1, fun k hk => ?_⟩
      refine reads hm hram h proper (stored ⟨g, rfl, rfl⟩ id) hp (hread g) k ?_
      rw [← nextPlace_eq_some hij]
      exact hk
  | @scrubbed f i hi =>
      cases hn.symm.trans hnext
      cases hg
      refine ⟨hplaced (h g rfl rfl).1, fun k _ => ?_⟩
      exact reads hm hram h proper (stored ⟨g, rfl, rfl⟩ id) hp (hread g) k
        (lt_of_nextPlace_eq_none hi k)
  | nextScrubbed f hij =>
      cases hn.symm.trans hnext
      cases hg
      obtain ⟨hfound, hfull⟩ := h g rfl rfl
      rw [resumes.contents g.frame nofun]
      exact ⟨hplaced hfound, hfull⟩
  | unread f ht ha => exact nomatch hn.symm.trans hnext
  | full f ht ha => exact nomatch hn.symm.trans hnext

/-- **A page-in that succeeds has brought the contents.** -/
theorem brings {page : Page} {a : Nat} (hm : m.swap.Sound) (hram : m.ram.size = m.coremap.size)
    (h : Fetches m slot c t) (proper : t.Proper m.swap.device)
    (serves : t.Serves (.pageIn page slot))
    (stored : (∃ f, t.filling? = some f ∧ f.slot = slot) → ¬ t.scrubs slot →
      ∀ j : Place, m.swap.device.stored slot j = some (c.get j))
    (hp : Task.resume held m t = .ok p) (resumes : Task.Resumes t m p)
    (follows : t.Follows p.next) (hn : p.next = .reply (.address (.ok a))) :
    p.memory.contentsAt a = .ok c := by
  rw [hn] at follows
  obtain ⟨e, he⟩ | ⟨f, hf, hpage, rfl, hr⟩ := follows.pageIn_reply serves
  · exact nomatch he
  cases hr
  obtain ⟨hplaced, hread⟩ := h f hf rfl
  have hcontents : ∀ j, (p.memory.contents f.frame).get j = c.get j := by
    generalize hnext : Next.reply (.address (.ok f.address)) = n at follows
    cases follows with
    | ended e ht hend =>
        rcases ht with rfl | ⟨i, rfl⟩ | rfl <;> exact nomatch hf
    | unread g ht ha =>
        cases hnext
        have hg : g = f := by
          rcases ht with rfl | ⟨i, rfl⟩ <;> exact Option.some.inj hf
        subst hg
        obtain ⟨e, he⟩ := ha.of_page hpage
        exact nomatch he
    | full g ht ha =>
        cases hnext
        rcases ht with ⟨i, rfl, hi⟩ | ⟨i, rfl⟩
        · cases hf
          intro j
          refine reads hm hram h proper (stored ⟨f, rfl, rfl⟩ id) hp ?_ j
            (lt_of_nextPlace_eq_none hi j)
          intro r hr hunread
          cases hn.symm.trans hr
          obtain ⟨e, he⟩ := hunread.of_page hpage
          exact nomatch he
        · cases hf
          rw [resumes.contents f.frame nofun]
          exact fun j => hread j trivial
    | _ => exact nomatch hnext
  unfold Memory.contentsAt
  rw [resumes.table.indexOf?, hplaced]
  exact congrArg Except.ok (Vector.ext fun j hj => hcontents ⟨j, hj⟩)

end Fetches

namespace Machine

/-! ## Runs that keep the page -/

/-- Runs of the allocator without bare restores while the slot is the page's, where no program stores
into a frame that was filled from the slot and has not been handed out. -/
def keeping (page : Page) (slot : Nat) (w : Machine) (move : Move) : Bool :=
  guarded w move && decide (w.memory.swap.slots.owner slot = some page) &&
    !w.calls.any fun call => (call.task.filledFrom? slot).any fun address => move.storesTo address

/-- The slot has these contents while it is the page's, unless they are being overwritten, and what is
being filled from it has them too. No call evicts to the slot. -/
structure Keeps (page : Page) (slot : Nat) (c : Contents) (w : Machine) : Prop where
  hands : HandsSound w.memory w.calls
  guards : ∀ call ∈ w.calls, call.op.guardsSlots = true
  vacant : ∀ call ∈ w.calls, ∀ e, call.task.evicting? = some e → e.slot ≠ slot
  fetches : ∀ call ∈ w.calls, Fetches w.memory slot c call.task
  stored : w.memory.swap.slots.owner slot = some page →
    (∀ call ∈ w.calls, ¬ call.task.scrubs slot) →
      ∀ i, w.memory.swap.device.stored slot i = some (c.get i)

namespace Keeps

variable {page : Page} {slot : Nat} {c : Contents} {w w' z : Machine} {move : Move}
  {moves : List Move} {events : List Event}

/-- An operation starts. It evicts to a slot that was free. -/
theorem started (h : Keeps page slot c w) (howner : w.memory.swap.slots.owner slot = some page)
    {op : Operation} {p : Task.Piece} (hop : op.guardsSlots = true) (takes : Task.Takes w.memory p)
    (hauls : Task.Hauls none op.Grants w.memory p)
    (serves : ∀ t, p.next = .callOut t → t.Serves op ∧ t.site = .map)
    (hands : HandsSound (follow op w.calls p).1.memory (follow op w.calls p).1.calls) :
    Keeps page slot c (follow op w.calls p).1 := by
  refine ⟨hands, forall_follow (fun _ _ => hop) h.guards, forall_follow ?_ h.vacant, ?_, ?_⟩
  · rintro t ht e he rfl
    have hslot : t.evictSlot? = some e.slot := by
      cases t <;> cases he <;> rfl
    have hfree := takes.evictSlot? ht (serves t ht).2 hslot
    exact nomatch howner.symm.trans (state?_eq_none.mp hfree)
  · rw [follow_memory]
    refine forall_follow ?_ fun call hcall => (h.fetches call hcall).spared takes.table ?_
    · intro t ht f hf _
      have hmaps := (serves t ht).2
      cases t with
      | fillMapping g =>
          cases hf
          exact ⟨hauls.placed f ht, fun _ hj => hj.elim⟩
      | evictMapping e => exact nomatch hf
      | _ => exact nomatch hmaps
    · exact fun _ _ _ _ => Memory.contents_of_ram takes.ram _
  · intro _ hidle i
    rw [follow_memory, takes.device]
    exact h.stored howner (forall_of_follow hidle).2 i

/-- An address space is torn down. -/
theorem toreDown (h : Keeps page slot c w) (howner : w.memory.swap.slots.owner slot = some page)
    {space : Nat} {p : Task.Piece} (tears : Task.TearsDown space w.memory p) :
    Keeps page slot c ⟨p.memory, w.calls⟩ := by
  refine ⟨h.hands.toreDown tears, h.guards, h.vacant, fun call hcall => ?_, ?_⟩
  · exact (h.fetches call hcall).spared tears.table
      fun _ _ _ _ => Memory.contents_of_ram tears.ram _
  · intro _ hidle i
    rw [tears.device]
    exact h.stored howner hidle i

/-- Something is looked at or changed from outside. A store into a frame that is being filled is
refused. -/
theorem probed (hs : w.Sound) (h : Keeps page slot c w) {probe : Probe} {o : Outcome} {m : Memory}
    (hrule : keeping page slot w (.probe probe) = true)
    (hp : probe.perform (loans w.calls) w.memory = .ok (o, m)) (leaves : Probe.Leaves w.memory m) :
    Keeps page slot c { w with memory := m } := by
  obtain ⟨hkeeps, hstores⟩ := Bool.and_eq_true_iff.mp hrule
  obtain ⟨hguard, howner⟩ := Bool.and_eq_true_iff.mp hkeeps
  have hcoremap : m.coremap = w.memory.coremap := leaves.coremap
  refine ⟨h.hands.probed leaves, h.guards, h.vacant, fun call hcall => ?_, fun _ hidle i => ?_⟩
  · refine (h.fetches call hcall).spared ?_ ?_
    · show w.memory.coremap.SameTable m.coremap
      rw [hcoremap]
      exact .refl _
    · rintro f hf hslot ⟨j, hj⟩
      have hplaced := (h.fetches call hcall f hf hslot).1
      have hcontents : m.contents f.frame = (Made.mk w (.probe probe) []).storesInto f.address
          (w.memory.contents f.frame) := contents_of_probe hs.ram hguard hplaced hp
      rw [hcontents, Made.storesInto_of_refused]
      intro hto
      cases htask : call.task with
      | fillReading g i =>
          -- the frame is lent
          rw [htask] at hf
          cases hf
          cases probe with
          | store target bytes =>
              obtain rfl : target = f.address := eq_of_beq hto
              refine List.any_eq_true.mpr ⟨⟨f.frame, true⟩, List.mem_filterMap.mpr ?_, ?_⟩
              · exact ⟨call.task, List.mem_map_of_mem hcall, by rw [htask]; rfl⟩
              · exact decide_eq_true hplaced
          | _ => exact nomatch hto
      | fillScrubbing g i =>
          rw [htask] at hf
          cases hf
          have hany : (w.calls.any fun call => (call.task.filledFrom? slot).any
              fun address => Move.storesTo address (.probe probe)) = true := by
            have hfrom : (Task.fillScrubbing f i).filledFrom? slot = some f.address := if_pos hslot
            refine List.any_eq_true.mpr ⟨call, hcall, ?_⟩
            rw [htask, hfrom]
            exact hto
          rw [hany] at hstores
          exact nomatch hstores
      | _ =>
          rw [htask] at hj
          exact hj.elim
  · show m.swap.device.stored slot i = _
    rw [leaves.stored]
    exact h.stored (of_decide_eq_true howner) hidle i

/-- A call that fills a frame from the slot has it to itself. -/
theorem inSlot (hs : w.Sound) (h : Keeps page slot c w)
    (howner : w.memory.swap.slots.owner slot = some page) {call : Call} {outer : List Call}
    (hcalls : w.calls = call :: outer) (hfills : ∃ f, call.task.filling? = some f ∧ f.slot = slot)
    (hidle : ¬ call.task.scrubs slot) :
    ∀ i, w.memory.swap.device.stored slot i = some (c.get i) := by
  refine h.stored howner ?_
  have guards := h.guards
  have serves := hs.serves
  have apart := h.hands.apart
  rw [hcalls] at guards serves apart ⊢
  obtain ⟨hguard, hguards⟩ := List.forall_mem_cons.mp guards
  obtain ⟨hserve, hserves⟩ := List.forall_mem_cons.mp serves
  refine List.forall_mem_cons.mpr ⟨hidle, fun d hd hscrubs => ?_⟩
  -- both would have hold of the slot
  obtain ⟨f, hf, hslot⟩ := hfills
  obtain ⟨g, hg, hsame⟩ := Task.filling?_of_scrubs hscrubs
  obtain ⟨q, hq⟩ := hserve.filling_page hguard hf
  obtain ⟨q', hq'⟩ := (hserves d hd).filling_page (hguards d hd) hg
  refine (List.pairwise_cons.mp apart).1 d hd f.slot q q'
    (Task.owns_of_holds (Task.holds_of_filling hf hq)) ?_
  rw [hslot, ← hsame]
  exact Task.holds_of_filling hg hq'

/-- The innermost call goes on. -/
theorem resumed (hs : w.Sound) (h : Keeps page slot c w)
    (howner : w.memory.swap.slots.owner slot = some page) {call : Call} {outer : List Call}
    {p : Task.Piece} (hcalls : w.calls = call :: outer)
    (hp : Task.resume (deviceHeld outer) w.memory call.task = .ok p)
    (resumes : Task.Resumes call.task w.memory p)
    (hauls : Task.Hauls call.task.cargo? call.op.Grants w.memory p)
    (follows : call.task.Follows p.next)
    (hands : HandsSound (follow call.op outer p).1.memory (follow call.op outer p).1.calls) :
    Keeps page slot c (follow call.op outer p).1 := by
  have hmem : call ∈ w.calls := hcalls ▸ List.mem_cons_self
  obtain ⟨hguard, hguards⟩ := List.forall_mem_cons.mp (hcalls ▸ h.guards)
  obtain ⟨hvacant, hvacants⟩ := List.forall_mem_cons.mp (hcalls ▸ h.vacant)
  obtain ⟨hfill, hfills⟩ := List.forall_mem_cons.mp (hcalls ▸ h.fetches)
  refine ⟨hands, forall_follow (fun _ _ => hguard) hguards, forall_follow ?_ hvacants, ?_, ?_⟩
  · intro t ht e he
    rw [ht] at follows
    exact hvacant e (follows.passed (Or.inl he)).1
  · rw [follow_memory]
    refine forall_follow ?_ fun d hd => (hfills d hd).spared resumes.table ?_
    · intro t ht
      exact hfill.goesOn hs.area hs.ram (hs.proper call hmem)
        (fun hf hidle => h.inSlot hs howner hcalls hf hidle) hp resumes hauls follows ht
    · -- two fillings have two frames
      intro f hf _ _
      refine resumes.contents _ fun hsame => ?_
      have hinside : d ∈ w.calls := hcalls ▸ List.mem_cons_of_mem call hd
      obtain ⟨q, hq⟩ := (hs.serves d hinside).filling_page (hguards d hd) hf
      have hcargo := (Task.cargo?_of_filling hf).trans (Task.fillCargo?_of_page hq)
      obtain ⟨loan, hloan, hframe⟩ := Task.loan?_of_fills hsame
      obtain ⟨b, hb, hbframe⟩ := cargo?_of_loan hs hmem hguard hloan
      have apart := hs.laden.apart
      rw [hcalls] at apart
      exact (List.pairwise_cons.mp apart).1 d hd _ _ hb hcargo (hbframe.trans hframe)
  · intro howner' hidle
    rw [follow_memory] at howner' ⊢
    obtain ⟨hnext, houter⟩ := forall_of_follow hidle
    obtain ⟨hidle, hsame⟩ := stored_of_resumes hs hmem hguard (h.hands.busy call hmem) hp resumes
      (fun e i he => hvacant e (by rw [he]; rfl)) howner' hnext
    rw [hsame]
    refine h.stored howner ?_
    rw [hcalls]
    exact List.forall_mem_cons.mpr ⟨hidle, houter⟩

/-- **One move keeps the page**: its bytes stay in the slot, and in what is filled from it. -/
theorem moved (hs : w.Sound) (h : Keeps page slot c w) (hrule : keeping page slot w move = true)
    (hmoved : Moved w move w' events) : Keeps page slot c w' := by
  obtain ⟨hguard, howner⟩ := Bool.and_eq_true_iff.mp (Bool.and_eq_true_iff.mp hrule).1
  have howner := of_decide_eq_true howner
  have hands := h.hands.moved hs hguard hmoved
  cases hmoved with
  | started hop hno hp takes hauls serves => exact h.started howner hguard takes hauls serves hands
  | toreDown tears hauls gaveUp => exact h.toreDown howner tears
  | resumed hcalls hp resumes hauls follows =>
      exact h.resumed hs howner hcalls hp resumes hauls follows hands
  | rested hcalls => exact h
  | probed hp leaves => exact h.probed hs hrule hp leaves

/-- So does a run. -/
theorem of_run (hs : w.Sound) (h : Keeps page slot c w)
    (hrun : w.run (keeping page slot) moves = some (z, events)) :
    z.Sound ∧ Keeps page slot c z := by
  refine Sound.run_induction (P := fun w _ => Keeps page slot c w) (l := []) ?_ ?_ hs h hrun
  · intro w move hrule
    exact managed_of_guarded (Bool.and_eq_true_iff.mp (Bool.and_eq_true_iff.mp hrule).1).1
  · exact fun _ _ _ _ _ hs h hrule hmoved => h.moved hs hrule hmoved

end Keeps

end Machine

end PhysMem
