import PhysMem.Proofs.Machine
import PhysMem.Proofs.Pieces

/-!
# Progress — which call-out follows which

An eviction is stopped at its mapping, at its eight sectors in order and when the pager is told, a
filling at its mapping and at its sectors once or twice. An eviction that makes room for a page-in
is followed by that page-in's filling. What an operation answers depends on where it was stopped
last.

* **`Follows`** lists the successions, **`resume_follows`** shows there are no others.
* **`Serves`** says which operation may be stopped where; **`start_serves`** and **`Follows.serves`**
  carry it.
-/

namespace PhysMem.Task

/-- Whether the operation is one of the allocator's own, and not a bare transfer. -/
def isManaged : Task → Bool
  | .slotReading .. | .slotWriting .. => false
  | _ => true

/-- A page-in that has had its one try for room goes on to its transfer or ends with an error. -/
inductive RoomTried (page : Page) (slot : Nat) (n : Next) : Prop
  | found (f : Filling) (hn : n = .callOut (.fillMapping f)) (hslot : f.slot = slot)
      (hpage : f.page = some page)
  | failed (e : FrameError) (hn : n = .reply (.address (.error e))) (he : e ≠ .ownerReleased)

/-- What comes behind an eviction: its own answer, or what needed the room. -/
def Ended : Option Need → Next → Prop
  | none, n => ∃ r, n = .reply (.evicted r)
  | some (.allocate ..), n => ∃ r, n = .reply (.address r)
  | some (.pageIn page slot), n => RoomTried page slot n

/-- What a filling answers whose slot could not be read. -/
def Unread (f : Filling) (r : Reply) : Prop :=
  match f.page with
  | none => ∃ e, r = .transferred (.error e)
  | some _ => ∃ e, r = .address (.error (.restoreFailed e))

theorem Unread.of_page {f : Filling} {r : Reply} {page : Page} (h : Unread f r)
    (hpage : f.page = some page) : ∃ e, r = .address (.error (.restoreFailed e)) := by
  rw [Unread, hpage] at h
  exact h

theorem Unread.of_bare {f : Filling} {r : Reply} (h : Unread f r) (hpage : f.page = none) :
    ∃ e, r = .transferred (.error e) := by
  rw [Unread, hpage] at h
  exact h

/-- What a filling answers that is full. -/
def Full (f : Filling) (r : Reply) : Prop :=
  match f.page with
  | none => ∃ result, r = .transferred result
  | some _ => r = .address (.ok f.address) ∨ r = .address (.error .ownerReleased)

/-- What may come behind a call-out. -/
inductive Follows : Task → Next → Prop
  | written (e : Eviction) : Follows (.evictMapping e) (.callOut (.evictWriting e firstPlace))
  | nextWritten (e : Eviction) {i j : Place} (h : nextPlace i = some j) :
      Follows (.evictWriting e i) (.callOut (.evictWriting e j))
  | told (e : Eviction) {i : Place} (h : nextPlace i = none) :
      Follows (.evictWriting e i) (.callOut (.evictTelling e))
  | ended (e : Eviction) {t : Task} {n : Next}
      (ht : t = .evictMapping e ∨ (∃ i, t = .evictWriting e i) ∨ t = .evictTelling e)
      (h : Ended e.need n) : Follows t n
  | read (f : Filling) : Follows (.fillMapping f) (.callOut (.fillReading f firstPlace))
  | nextRead (f : Filling) {i j : Place} (h : nextPlace i = some j) :
      Follows (.fillReading f i) (.callOut (.fillReading f j))
  | scrubbed (f : Filling) {i : Place} (h : nextPlace i = none) :
      Follows (.fillReading f i) (.callOut (.fillScrubbing f firstPlace))
  | nextScrubbed (f : Filling) {i j : Place} (h : nextPlace i = some j) :
      Follows (.fillScrubbing f i) (.callOut (.fillScrubbing f j))
  | unread (f : Filling) {t : Task} {r : Reply}
      (ht : t = .fillMapping f ∨ ∃ i, t = .fillReading f i) (h : Unread f r) : Follows t (.reply r)
  | full (f : Filling) {t : Task} {r : Reply}
      (ht : (∃ i, t = .fillReading f i ∧ nextPlace i = none) ∨ ∃ i, t = .fillScrubbing f i)
      (h : Full f r) : Follows t (.reply r)

variable {held : Bool} {m : Memory} {p : Piece} {notices : List Notice}

/-! ## Fillings -/

theorem filled_full {f : Filling} (h : filled m notices f = .ok p) :
    ∃ r, p.next = .reply r ∧ Full f r := by
  unfold Full
  cases filled_cases h with
  | unreleased hpage | restored hpage =>
      rw [hpage]
      exact ⟨_, rfl, _, rfl⟩
  | broughtBack page onChain _ _ hpage =>
      rw [hpage]
      cases onChain with
      | true => exact ⟨_, rfl, Or.inl rfl⟩
      | false => exact ⟨_, rfl, Or.inr rfl⟩

theorem fillFailed_unread {f : Filling} {e : SwapError} (h : fillFailed m f e = .ok p) :
    ∃ r, p.next = .reply r ∧ Unread f r := by
  unfold Unread
  cases fillFailed_cases h with
  | restore hpage | pageIn _ _ _ hpage =>
      rw [hpage]
      exact ⟨_, rfl, _, rfl⟩

/-- A sector is about to be overwritten, or the filling is over. -/
theorem scrubAt_next {f : Filling} {i : Place} (h : scrubAt m f i = .ok p) :
    p.next = .callOut (.fillScrubbing f i) ∨ ∃ r, p.next = .reply r ∧ Full f r := by
  cases scrubAt_cases h with
  | refused _ h => exact Or.inr (filled_full h)
  | ready => exact Or.inl rfl

theorem slotRead_next {f : Filling} (h : slotRead held m f = .ok p) :
    p.next = .callOut (.fillScrubbing f firstPlace) ∨
      ∃ r, p.next = .reply r ∧ Full f r := by
  rcases slotRead_cases h with ⟨-, -, h⟩ | ⟨-, h⟩
  · exact scrubAt_next h
  · exact Or.inr (filled_full h)

theorem readAt_next {f : Filling} {i : Place} (h : readAt m f i = .ok p) :
    p.next = .callOut (.fillReading f i) ∨ ∃ r, p.next = .reply r ∧ Unread f r := by
  cases readAt_cases h with
  | refused _ h => exact Or.inr (fillFailed_unread h)
  | ready => exact Or.inl rfl

theorem readNow_follows {f : Filling} {i : Place} (h : readNow held m f i = .ok p) :
    Follows (.fillReading f i) p.next := by
  have unread : (∃ r, p.next = .reply r ∧ Unread f r) → Follows (.fillReading f i) p.next := by
    rintro ⟨r, hr, ha⟩
    rw [hr]
    exact .unread f (Or.inr ⟨i, rfl⟩) ha
  cases readNow_cases h with
  | failed _ _ h => exact unread (fillFailed_unread h)
  | next _ _ _ hj h =>
      rcases readAt_next h with hn | hn
      · rw [hn]
        exact .nextRead f hj
      · exact unread hn
  | last _ _ _ hj h =>
      rcases slotRead_next h with hn | ⟨r, hr, ha⟩
      · rw [hn]
        exact .scrubbed f hj
      · rw [hr]
        exact .full f (Or.inl ⟨i, rfl, hj⟩) ha

theorem scrubNow_follows {f : Filling} {i : Place} (h : scrubNow m f i = .ok p) :
    Follows (.fillScrubbing f i) p.next := by
  have full : (∃ r, p.next = .reply r ∧ Full f r) → Follows (.fillScrubbing f i) p.next := by
    rintro ⟨r, hr, ha⟩
    rw [hr]
    exact .full f (Or.inr ⟨i, rfl⟩) ha
  cases scrubNow_cases h with
  | failed _ _ h => exact full (filled_full h)
  | next _ _ _ hj h =>
      rcases scrubAt_next h with hn | hn
      · rw [hn]
        exact .nextScrubbed f hj
      · exact full hn
  | last _ _ _ _ h => exact full (filled_full h)

/-! ## Evictions -/

theorem met_ended {i : Nat} {need : Need} (h : met m notices i need = .ok p) :
    Ended (some need) p.next := by
  cases met_cases h with
  | allocated | seen => exact ⟨_, rfl⟩
  | pageIn => exact .found _ rfl rfl rfl

theorem unmet_ended {need : Need} {e : FrameError} (h : unmet m notices e need = .ok p)
    (he : e ≠ .ownerReleased) : Ended (some need) p.next := by
  cases unmet_cases h with
  | allocate => exact ⟨_, rfl⟩
  | pageIn => exact .failed e rfl he

theorem evictionEnded_ended {need : Option Need} {result : Except EvictError (Nat × Nat)}
    (h : evictionEnded m notices need result = .ok p) : Ended need p.next := by
  cases evictionEnded_cases h with
  | ended => exact ⟨_, rfl⟩
  | noVictim h | failed h | noRoom _ _ h => exact unmet_ended h nofun
  | room _ _ h => exact met_ended h

/-- Looking for a victim finds one or ends the eviction. -/
theorem evict_next {need : Option Need} (h : evict m need = .ok p) :
    (∃ e, p.next = .callOut (.evictMapping e) ∧ e.need = need) ∨ Ended need p.next := by
  cases evict_cases h with
  | noVictim _ h | noSlot _ _ _ _ _ _ _ h => exact Or.inr (evictionEnded_ended h)
  | reserved => exact Or.inl ⟨_, rfl, rfl⟩

/-- So does looking for room. -/
theorem provide_next {need : Need} (h : provide m need = .ok p) :
    (∃ e, p.next = .callOut (.evictMapping e) ∧ e.need = some need) ∨
      Ended (some need) p.next := by
  cases provide_cases h with
  | tooFew _ h => exact Or.inr (unmet_ended h nofun)
  | room _ _ _ h => exact Or.inr (met_ended h)
  | noRoom _ _ _ h => exact evict_next h

theorem writeFailed_ended {e : Eviction} {cause : SwapError}
    (h : writeFailed m e cause = .ok p) : Ended e.need p.next := by
  obtain ⟨owned, slots, n, notices, -, -, h⟩ := writeFailed_eq_ok h
  exact evictionEnded_ended h

theorem writeAt_next {e : Eviction} {i : Place} (h : writeAt m e i = .ok p) :
    p.next = .callOut (.evictWriting e i) ∨ Ended e.need p.next := by
  cases writeAt_cases h with
  | refused _ h => exact Or.inr (writeFailed_ended h)
  | ready => exact Or.inl rfl

theorem written_next {e : Eviction} (h : written m e = .ok p) :
    p.next = .callOut (.evictTelling e) ∨ Ended e.need p.next := by
  cases written_cases h with
  | freed _ _ _ _ _ _ _ _ h => exact Or.inr (evictionEnded_ended h)
  | told => exact Or.inl rfl

theorem writeNow_follows {e : Eviction} {i : Place} (h : writeNow m e i = .ok p) :
    Follows (.evictWriting e i) p.next := by
  have ended : Ended e.need p.next → Follows (.evictWriting e i) p.next :=
    .ended e (Or.inr (Or.inl ⟨i, rfl⟩))
  cases writeNow_cases h with
  | failed _ _ h => exact ended (writeFailed_ended h)
  | next _ _ _ hj h =>
      rcases writeAt_next h with hn | hn
      · rw [hn]
        exact .nextWritten e hj
      · exact ended hn
  | last _ _ _ hj h =>
      rcases written_next h with hn | hn
      · rw [hn]
        exact .told e hj
      · exact ended hn

theorem toldPager_ended {e : Eviction} (h : toldPager m e = .ok p) : Ended e.need p.next := by
  cases toldPager_cases h with
  | orphaned _ _ _ _ h | kept _ _ h => exact evictionEnded_ended h

/-- **There are no other successions.** -/
theorem resume_follows {t : Task} (ht : t.isManaged = true)
    (h : resume held m t = .ok p) : Follows t p.next := by
  cases t with
  | evictMapping e =>
      rcases writeAt_next (resume_evictMapping h).2 with hn | hn
      · rw [hn]
        exact .written e
      · exact .ended e (Or.inl rfl) hn
  | evictWriting e i => exact writeNow_follows h
  | evictTelling e => exact .ended e (Or.inr (Or.inr rfl)) (toldPager_ended h)
  | fillMapping f =>
      rcases readAt_next (resume_fillMapping h).2 with hn | ⟨r, hn, ha⟩
      · rw [hn]
        exact .read f
      · rw [hn]
        exact .unread f (Or.inl rfl) ha
  | fillReading f i => exact readNow_follows h
  | fillScrubbing f i => exact scrubNow_follows h
  | slotReading slot buffer i => exact nomatch ht
  | slotWriting slot data i => exact nomatch ht

/-! ## Which operation is stopped where -/

/-- The operation that an eviction is part of. -/
def NeedServes (op : Operation) : Option Need → Prop
  | none => op = .evict
  | some (.pageIn page slot) => op = .pageIn page slot
  | some (.allocate owner count true) => op = .allocateSeen count ∧ owner = .kernel
  | some (.allocate owner count false) => ∃ kind page, op = .allocate kind count page ∧
      requestOwner kind count page = .ok owner

/-- Only an eviction that makes room for it is part of a page-in. -/
theorem NeedServes.of_pageIn {page : Page} {slot : Nat} {need : Option Need}
    (h : NeedServes (.pageIn page slot) need) : need = some (.pageIn page slot) := by
  cases need with
  | none => exact nomatch h
  | some need =>
      cases need with
      | pageIn q x =>
          have hop : Operation.pageIn page slot = .pageIn q x := h
          cases hop
          rfl
      | allocate owner count seen =>
          cases seen with
          | true => exact nomatch h.1
          | false =>
              obtain ⟨_, _, hop, -⟩ := h
              exact nomatch hop

/-- No eviction is part of a restore. -/
theorem NeedServes.not_restore {slot address : Nat} {need : Option Need} :
    ¬ NeedServes (.restore slot address) need := by
  intro h
  cases need with
  | none => exact nomatch h
  | some need =>
      cases need with
      | pageIn q x => exact nomatch h
      | allocate owner count seen =>
          cases seen with
          | true => exact nomatch h.1
          | false =>
              obtain ⟨_, _, hop, -⟩ := h
              exact nomatch hop

/-- Nor is one part of a teardown. -/
theorem NeedServes.not_tearDown {space : Nat} {need : Option Need} :
    ¬ NeedServes (.tearDown space) need := by
  intro h
  cases need with
  | none => exact nomatch h
  | some need =>
      cases need with
      | pageIn q x => exact nomatch h
      | allocate owner count seen =>
          cases seen with
          | true => exact nomatch h.1
          | false =>
              obtain ⟨_, _, hop, -⟩ := h
              exact nomatch hop

/-- The operation that a filling is part of. -/
def FillServes (op : Operation) (f : Filling) : Prop :=
  match f.page with
  | some page => op = .pageIn page f.slot
  | none => op = .restore f.slot f.address

theorem FillServes.of_page {op : Operation} {f : Filling} {page : Page} (h : FillServes op f)
    (hp : f.page = some page) : op = .pageIn page f.slot := by
  unfold FillServes at h
  rw [hp] at h
  exact h

theorem FillServes.of_none {op : Operation} {f : Filling} (h : FillServes op f)
    (hp : f.page = none) : op = .restore f.slot f.address := by
  unfold FillServes at h
  rw [hp] at h
  exact h

/-- The operation may be stopped so. -/
def Serves (op : Operation) : Task → Prop
  | .evictMapping e | .evictWriting e _ | .evictTelling e => NeedServes op e.need
  | .fillMapping f | .fillReading f _ | .fillScrubbing f _ => FillServes op f
  | .slotReading .. | .slotWriting .. => False

theorem Serves.isManaged {op : Operation} {t : Task} (h : t.Serves op) : t.isManaged = true := by
  cases t <;> first | rfl | exact h.elim

/-- No teardown is ever stopped. -/
theorem Serves.not_tearDown {op : Operation} {t : Task} (h : t.Serves op) (space : Nat) :
    op ≠ .tearDown space := by
  rintro rfl
  have filling : ∀ f, ¬ FillServes (.tearDown space) f := by
    intro f hf
    cases hpage : f.page with
    | none => exact nomatch hf.of_none hpage
    | some page => exact nomatch hf.of_page hpage
  cases t with
  | evictMapping e => exact NeedServes.not_tearDown h
  | evictWriting e i => exact NeedServes.not_tearDown h
  | evictTelling e => exact NeedServes.not_tearDown h
  | fillMapping f => exact filling f h
  | fillReading f i => exact filling f h
  | fillScrubbing f i => exact filling f h
  | slotReading slot buffer i => exact h.elim
  | slotWriting slot data i => exact h.elim

/-- An operation that goes on behind an eviction is about to fill a frame. -/
theorem Ended.fills {need : Option Need} {t : Task} (h : Ended need (.callOut t)) :
    ∃ f, t = .fillMapping f := by
  cases need with
  | none =>
      obtain ⟨r, hr⟩ := h
      exact nomatch hr
  | some need =>
      cases need with
      | allocate owner count seen =>
          obtain ⟨r, hr⟩ := h
          exact nomatch hr
      | pageIn page slot =>
          cases h with
          | failed e hn => exact nomatch hn
          | found f hn =>
              cases hn
              exact ⟨f, rfl⟩

theorem Ended.maps {need : Option Need} {t : Task} (h : Ended need (.callOut t)) :
    t.site = .map := by
  obtain ⟨f, rfl⟩ := h.fills
  rfl

/-- The filling that comes behind an eviction is that of the page-in that needed the room. -/
theorem Ended.serves {op : Operation} {need : Option Need} {t : Task}
    (h : Ended need (.callOut t)) (hop : NeedServes op need) : t.Serves op := by
  cases need with
  | none =>
      obtain ⟨r, hr⟩ := h
      exact nomatch hr
  | some need =>
      cases need with
      | allocate owner count seen =>
          obtain ⟨r, hr⟩ := h
          exact nomatch hr
      | pageIn page slot =>
          cases h with
          | failed e hn he => exact nomatch hn
          | found f hn hslot hpage =>
              cases hn
              show FillServes op f
              unfold FillServes
              rw [hpage, hslot]
              exact hop

theorem Follows.serves {op : Operation} {t t' : Task} (h : Follows t (.callOut t'))
    (hop : t.Serves op) : t'.Serves op := by
  generalize hn : Next.callOut t' = n at h
  cases h with
  | written e => cases hn; exact hop
  | nextWritten e hij => cases hn; exact hop
  | told e hi => cases hn; exact hop
  | read f => cases hn; exact hop
  | nextRead f hij => cases hn; exact hop
  | scrubbed f hi => cases hn; exact hop
  | nextScrubbed f hij => cases hn; exact hop
  | unread f ht ha => cases hn
  | full f ht ha => cases hn
  | ended e ht hend =>
      subst hn
      refine hend.serves ?_
      rcases ht with rfl | ⟨i, rfl⟩ | rfl
      · exact hop
      · exact hop
      · exact hop

theorem provide_serves {op : Operation} {need : Need} {t : Task} (h : provide m need = .ok p)
    (ht : p.next = .callOut t) (hop : NeedServes op (some need)) :
    t.Serves op ∧ t.site = .map := by
  rcases provide_next h with ⟨e, hn, hneed⟩ | hend
  · rw [hn] at ht
    cases ht
    refine ⟨?_, rfl⟩
    show NeedServes op e.need
    rw [hneed]
    exact hop
  · rw [ht] at hend
    exact ⟨hend.serves hop, hend.maps⟩

theorem needServes_request {kind : FrameKind} {count : Nat} {page : Option Page}
    {owner : FrameOwner} (h : requestOwner kind count page = .ok owner) :
    NeedServes (.allocate kind count page) (some (.allocate owner count false)) :=
  ⟨kind, page, rfl, h⟩

theorem needServes_seen {count : Nat} {owner : FrameOwner}
    (h : requestOwner .kernel count none = .ok owner) :
    NeedServes (.allocateSeen count) (some (.allocate owner count true)) := by
  unfold requestOwner at h
  split at h
  · exact nomatch h
  · exact ⟨rfl, (Except.ok.inj h).symm⟩

/-- A piece with no call-outs left is the last. -/
theorem EndsBy.reply {x : Except Fault Piece} (h : EndsBy x 0) (hp : x = .ok p) :
    ∃ r, p.next = .reply r := by
  have hr := h p hp
  cases hn : p.next with
  | reply r => exact ⟨r, rfl⟩
  | callOut task =>
      rw [hn] at hr
      exact absurd (rank_pos task) (Nat.not_lt.mpr hr)

/-- An operation that starts is stopped where such an operation may be, and a frame is about to be
mapped for it. -/
theorem start_serves {op : Operation} {t : Task} (hop : op.isManaged = true)
    (h : start held m op = .ok p) (ht : p.next = .callOut t) : t.Serves op ∧ t.site = .map := by
  -- an operation that is over at once is not stopped at all
  have atOnce : (∃ r, p.next = .reply r) → t.Serves op ∧ t.site = .map := by
    rintro ⟨r, hr⟩
    rw [hr] at ht
    exact nomatch ht
  cases op with
  | allocate kind count page =>
      cases allocate_cases h with
      | refused => exact atOnce ⟨_, rfl⟩
      | provided hrequest h => exact provide_serves h ht (needServes_request hrequest)
  | allocateSeen count =>
      cases allocate_cases h with
      | refused => exact atOnce ⟨_, rfl⟩
      | provided hrequest h => exact provide_serves h ht (needServes_seen hrequest)
  | evict =>
      rcases evict_next h with ⟨e, hn, hneed⟩ | ⟨r, hr⟩
      · rw [hn] at ht
        cases ht
        refine ⟨?_, rfl⟩
        show NeedServes .evict e.need
        rw [hneed]
        rfl
      · exact atOnce ⟨_, hr⟩
  | pageIn page slot =>
      cases pageIn_cases h with
      | refused => exact atOnce ⟨_, rfl⟩
      | held _ _ h => exact provide_serves h ht rfl
  | restore slot address =>
      cases restore_cases h with
      | noFrame | noSlot => exact atOnce ⟨_, rfl⟩
      | filling =>
          cases ht
          exact ⟨rfl, rfl⟩
  | free address => exact atOnce ((free_rank m address).reply h)
  | freeSeen seen =>
      cases freeSeen_cases h with
      | unseen => exact atOnce ⟨_, rfl⟩
      | freed _ h => exact atOnce ((free_rank m _).reply h)
  | tearDown space =>
      obtain ⟨frames, coremap, cleared, slots, -, -, rfl⟩ := tearDown_eq_ok h
      exact atOnce ⟨_, rfl⟩
  | recordTlbSlot address slot =>
      cases recordTlbSlot_cases h with
      | noFrame | recorded => exact atOnce ⟨_, rfl⟩
  | readSlot slot buffer => exact nomatch hop
  | writeSlot slot buffer => exact nomatch hop
  | scrubSlot slot => exact nomatch hop

/-- A page-in that is over at once has failed. -/
theorem pageIn_reply {page : Page} {slot : Nat} {r : Reply}
    (h : start held m (.pageIn page slot) = .ok p) (hr : p.next = .reply r) :
    ∃ e, r = .address (.error e) := by
  cases pageIn_cases h with
  | refused =>
      cases hr
      exact ⟨_, rfl⟩
  | held _ _ h =>
      rcases provide_next h with ⟨e, hn, -⟩ | hend
      · rw [hn] at hr
        exact nomatch hr
      · cases hend with
        | found f hn =>
            rw [hn] at hr
            exact nomatch hr
        | failed e hn =>
            rw [hn] at hr
            cases hr
            exact ⟨e, rfl⟩

/-- So has a restore. -/
theorem restore_reply {slot address : Nat} {r : Reply}
    (h : start held m (.restore slot address) = .ok p) (hr : p.next = .reply r) :
    ∃ e, r = .transferred (.error e) := by
  cases restore_cases h with
  | noFrame | noSlot =>
      cases hr
      exact ⟨_, rfl⟩
  | filling => exact nomatch hr

end PhysMem.Task
