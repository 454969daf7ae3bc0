import PhysMem.Proofs.Evictions
import PhysMem.Proofs.SlotRequests

/-!
# Figures — what the pieces of an operation do to the counts

A memory system shows how many slots are used, how many evictions were told and how many pages were
read back. The slot map and the two other counters are changed at different places of an operation,
so between its call-outs they are out of step: a slot is used from its reservation, and its eviction
counts only when the pager has been told.

* **`Memory.Shows`** is what the figures are. **`Shows.settle`**, **`Shows.release`** and those beside
  them are what single steps do to them.
* **`Next.promised`** and **`Next.telling`** say what is out of step at a call-out.
* **`evict_shows`**, **`evicting_shows`**, **`toldPager_shows`** follow an eviction,
  **`Finishes`** and **`resume_finishes`** a filling.
-/

namespace PhysMem

open SlotMap

namespace SlotMap

variable {m m' : SlotMap} {slot space n : Nat} {page : Page} {b : Bool}

/-- A slot with a page is used. -/
theorem Sound.used_of_owner (hm : m.Sound) (h : m.owner slot = some page) :
    m.used.bit slot = true := by
  rw [hm.used_eq, h]
  rfl

/-- Clearing a slot with a page takes one off the count. -/
theorem Coherent.clear_count (hm : m.Coherent) (ho : m.owner slot = some page)
    (h : m.clear slot = .ok m') : m'.count + 1 = m.count := by
  have hcount := (clear_shape h).2
  rwa [hm.toSound.used_of_owner ho] at hcount

/-- A sweep takes what it clears off the count. -/
theorem Coherent.releaseOne_count (hm : m.Coherent) (h : m.releaseOne space slot = .ok (b, m')) :
    m'.count + b.toNat = m.count := by
  cases releaseOne_cases h with
  | free | other | orphaned => rfl
  | cleared howner _ _ hclear => exact hm.clear_count howner hclear

theorem Coherent.releaseSpace_count (hm : m.Coherent) (h : m.releaseSpace space = .ok (n, m')) :
    m'.count + n = m.count := by
  refine (Sweep.foldlM_range
    (P := fun _ (t : Nat × SlotMap) => t.2.Coherent ∧ t.2.count + t.1 = m.count) ⟨hm, rfl⟩ ?_ h).2
  rintro k ⟨c, t⟩ ⟨c', t'⟩ - ⟨ht, hcount⟩ hone
  obtain ⟨⟨b, u⟩, hu, he⟩ := Fault.bind_eq_ok.mp hone
  cases he
  refine ⟨Coherent.releaseOne ht hu |>.1, ?_⟩
  have hless := Coherent.releaseOne_count ht hu
  show t'.count + (if b = true then c + 1 else c) = m.count
  have hcount : t.count + c = m.count := hcount
  cases b with
  | true =>
      have hless : t'.count + 1 = t.count := hless
      rw [if_pos rfl]
      omega
  | false =>
      have hless : t'.count = t.count := hless
      rw [if_neg Bool.false_ne_true]
      omega

end SlotMap

/-! ## The figures -/

namespace Memory

/-- The parts of the slot map are in step, and the figures show so many slots used, so many
evictions and so many pages read back. -/
structure Shows (m : Memory) (used evicted restored : Nat) : Prop where
  coherent : m.swap.slots.Coherent
  used : m.swap.slots.count = used
  evictions : m.evictions = evicted % Word.span Word.bits
  restores : m.restores = restored % Word.span Word.bits

variable {m n : Memory} {slots : SlotMap} {used evicted restored slot space k : Nat} {page : Page}
  {b : Bool}

/-- The figures do not depend on frames, contents and the device. -/
theorem Shows.of_same (h : m.Shows used evicted restored) (hs : n.swap.slots = m.swap.slots)
    (he : n.evictions = m.evictions) (hr : n.restores = m.restores) :
    n.Shows used evicted restored :=
  ⟨hs ▸ h.coherent, hs ▸ h.used, he.trans h.evictions, hr.trans h.restores⟩

/-- A slot with a page is counted. -/
theorem Shows.of_owner (h : m.Shows used evicted restored)
    (ho : m.swap.slots.owner slot = some page) : ∃ less, used = less + 1 := by
  have hpos := h.coherent.count_pos (lt_capacity_of_owner ho) (h.coherent.toSound.used_of_owner ho)
  rw [h.used] at hpos
  exact Nat.exists_eq_add_one.mpr hpos

theorem Shows.putSlots {used' : Nat} (h : m.Shows used evicted restored) (hs : slots.Coherent)
    (hu : slots.count = used') : (m.putSlots slots).Shows used' evicted restored :=
  ⟨hs, hu, h.evictions, h.restores⟩

/-- The end of a transfer leaves the slot used. -/
theorem Shows.settle (h : m.Shows used evicted restored)
    (hs : m.swap.slots.state? slot = some (page, .busy))
    (hsettle : m.swap.slots.settle slot page = .ok (b, slots)) :
    b = true ∧ (m.putSlots slots).Shows used evicted restored := by
  obtain ⟨rfl, -⟩ := settle_live h.coherent.toSound hs nofun hsettle
  exact ⟨rfl, h.putSlots (h.coherent.settle hsettle) ((settle_shape hsettle).2.trans h.used)⟩

theorem Shows.hold (h : m.Shows used evicted restored)
    (hhold : m.swap.slots.hold slot page = .ok (b, slots)) :
    (m.putSlots slots).Shows used evicted restored := by
  refine h.putSlots (h.coherent.hold hhold) ?_
  cases b with
  | true => exact (hold_shape hhold).2.trans h.used
  | false => exact hold_false hhold ▸ h.used

theorem Shows.reserve (h : m.Shows used evicted restored)
    (hreserve : m.swap.slots.reserve page = .ok (.ok slot, slots)) :
    (m.putSlots slots).Shows (used + 1) evicted restored :=
  h.putSlots (h.coherent.reserve hreserve) ((reserve_shape hreserve).2.trans (h.used ▸ rfl))

/-- A guarded release of a slot of the page. -/
theorem Shows.releaseIfOwned (h : m.Shows (used + 1) evicted restored)
    (ho : m.swap.slots.owner slot = some page)
    (hrel : m.swap.slots.releaseIfOwned slot page = .ok (b, slots)) :
    (m.putSlots slots).Shows used evicted restored := by
  refine h.putSlots (h.coherent.releaseIfOwned hrel) ?_
  cases releaseIfOwned_cases hrel with
  | other hother => exact absurd ho hother
  | cleared _ hclear =>
      exact Nat.succ.inj ((h.coherent.clear_count ho hclear).trans h.used)

/-- A bare release of a slot that is used. -/
theorem Shows.release {answer : Except SwapError Unit} (h : m.Shows (used + 1) evicted restored)
    (ho : m.swap.slots.owner slot = some page)
    (hrel : m.swap.slots.release slot = .ok (answer, slots)) :
    answer = .ok () ∧ (m.putSlots slots).Shows used evicted restored := by
  have hcoherent := h.coherent.release hrel
  cases release_cases hrel with
  | outside hslot => exact absurd (lt_capacity_of_owner ho) (Nat.not_lt.mpr hslot)
  | cleared _ hclear =>
      have hless := (h.coherent.clear_count ho hclear).trans h.used
      exact ⟨rfl, h.putSlots hcoherent (Nat.succ.inj hless)⟩

theorem Shows.releaseSpace (h : m.Shows used evicted restored)
    (hrel : m.swap.slots.releaseSpace space = .ok (k, slots)) :
    ∃ left, left + k = used ∧ (m.putSlots slots).Shows left evicted restored :=
  ⟨slots.count, (h.coherent.releaseSpace_count hrel).trans h.used,
    h.putSlots (h.coherent.releaseSpace hrel).1 rfl⟩

theorem Shows.countEviction (h : m.Shows used evicted restored) :
    m.countEviction.Shows used (evicted + 1) restored := by
  refine ⟨h.coherent, h.used, ?_, h.restores⟩
  show (m.evictions + 1) % Word.span Word.bits = _
  rw [h.evictions, Nat.mod_add_mod]

theorem Shows.countRestore (h : m.Shows used evicted restored) :
    m.countRestore.Shows used evicted (restored + 1) := by
  refine ⟨h.coherent, h.used, h.evictions, ?_⟩
  show (m.restores + 1) % Word.span Word.bits = _
  rw [h.restores, Nat.mod_add_mod]

end Memory

/-! ## What is out of step -/

namespace Task

/-- A slot is used for an eviction that the pager has not been told of. -/
def promised : Task → Nat
  | .evictMapping _ | .evictWriting .. => 1
  | _ => 0

/-- The pager has been told of an eviction that is not counted yet. -/
def telling : Task → Nat
  | .evictTelling _ => 1
  | _ => 0

/-- A filling has nothing to do with an eviction. -/
theorem settled_of_filling {t : Task} {f : Filling} (hf : t.filling? = some f) :
    t.promised = 0 ∧ t.telling = 0 := by
  cases t <;> cases hf <;> exact ⟨rfl, rfl⟩

/-- What comes next has a slot reserved for an eviction that is to be told of. -/
def Next.promised : Next → Nat
  | .callOut t => t.promised
  | .reply _ => 0

/-- What comes next has told of an eviction that is to be counted. -/
def Next.telling : Next → Nat
  | .callOut t => t.telling
  | .reply _ => 0

variable {held : Bool} {m : Memory} {p : Piece} {notices : List Notice} {need : Need}
  {want : Option Need} {e : Eviction} {f : Filling} {i : Place} {used evicted restored : Nat}
  {page : Page}

theorem Ended.settled {n : Next} (h : Ended want n) : n.promised = 0 ∧ n.telling = 0 := by
  cases n with
  | reply r => exact ⟨rfl, rfl⟩
  | callOut t =>
      obtain ⟨f, rfl⟩ := h.fills
      exact ⟨rfl, rfl⟩

/-- The slot that a page-in has hold of is busy for it. -/
def HasHands (m : Memory) (want : Option Need) : Prop :=
  ∀ x q, Need.holds want x q → m.swap.slots.state? x = some (q, .busy)

/-! ## Finding room -/

theorem met_shows {i : Nat} (h : m.Shows used evicted restored)
    (hp : met m notices i need = .ok p) : p.memory.Shows used evicted restored := by
  cases met_cases hp with
  | allocated | seen | pageIn => exact h

theorem unmet_shows {error : FrameError} (h : m.Shows used evicted restored)
    (hands : HasHands m (some need)) (hp : unmet m notices error need = .ok p) :
    p.memory.Shows used evicted restored := by
  cases unmet_cases hp with
  | allocate => exact h
  | pageIn hsettle => exact (h.settle (hands _ _ ⟨rfl, rfl⟩) hsettle).2

theorem evictionEnded_shows {result : Except EvictError (Nat × Nat)}
    (h : m.Shows used evicted restored) (hands : HasHands m want)
    (hp : evictionEnded m notices want result = .ok p) : p.memory.Shows used evicted restored := by
  have h' : ∀ coremap, ({ m with coremap } : Memory).Shows used evicted restored :=
    fun coremap => h.of_same rfl rfl rfl
  cases evictionEnded_cases hp with
  | ended => exact h
  | noVictim hp | failed hp => exact unmet_shows h hands hp
  | room coremap _ hp => exact met_shows (h' coremap) hp
  | noRoom coremap _ hp => exact unmet_shows (h' coremap) hands hp

theorem putBack_shows {frame : Nat} {n : Memory} (h : m.Shows used evicted restored)
    (hp : putBack m frame = .ok (n, notices)) : n.Shows used evicted restored := by
  obtain ⟨onChain, coremap, -, rfl, -⟩ := putBack_eq_ok hp
  exact h.of_same rfl rfl rfl

/-- An eviction that begins has reserved a slot. -/
theorem evict_shows (h : m.Shows used evicted restored) (hands : HasHands m want)
    (hp : evict m want = .ok p) : p.memory.Shows (used + p.next.promised) evicted restored := by
  have h' : ∀ coremap, ({ m with coremap } : Memory).Shows used evicted restored :=
    fun coremap => h.of_same rfl rfl rfl
  cases evict_cases hp with
  | noVictim _ hp =>
      rw [(evictionEnded_ended hp).settled.1]
      exact evictionEnded_shows h hands hp
  | noSlot coremap slots n _ _ hreserve hback hp =>
      obtain ⟨hswap, -, -⟩ := putBack_same hback
      -- no slot was free, and the victim goes back where it was
      have hsame : slots = m.swap.slots := (reserve_error hreserve).1
      have hshows : ({ m with coremap }.putSlots slots).Shows used evicted restored :=
        (h' coremap).of_same hsame rfl rfl
      rw [(evictionEnded_ended hp).settled.1]
      refine evictionEnded_shows (putBack_shows hshows hback) (fun x q hx => ?_) hp
      rw [hswap]
      show slots.state? x = _
      rw [hsame]
      exact hands x q hx
  | reserved coremap slots _ _ hreserve => exact (h' coremap).reserve hreserve

theorem provide_shows (h : m.Shows used evicted restored) (hands : HasHands m (some need))
    (hp : provide m need = .ok p) : p.memory.Shows (used + p.next.promised) evicted restored := by
  have h' : ∀ coremap, ({ m with coremap } : Memory).Shows used evicted restored :=
    fun coremap => h.of_same rfl rfl rfl
  cases provide_cases hp with
  | tooFew _ hp =>
      rw [(unmet_ended hp nofun).settled.1]
      exact unmet_shows h hands hp
  | room coremap _ _ hp =>
      rw [(met_ended hp).settled.1]
      exact met_shows (h' coremap) hp
  | noRoom coremap _ _ hp => exact evict_shows (h' coremap) hands hp

/-! ## An eviction -/

/-- An eviction that is given up releases its slot. -/
theorem writeFailed_shows {cause : SwapError} (h : m.Shows (used + 1) evicted restored)
    (ho : m.swap.slots.owner e.slot = some e.page) (hands : HasHands m e.need) (he : e.Apart)
    (hp : writeFailed m e cause = .ok p) : p.memory.Shows used evicted restored := by
  obtain ⟨owned, slots, n, notices, hrelease, hback, hp⟩ := writeFailed_eq_ok hp
  obtain ⟨hswap, -, -⟩ := putBack_same hback
  refine evictionEnded_shows (putBack_shows (h.releaseIfOwned ho hrelease) hback)
    (fun x q hx => ?_) hp
  rw [hswap]
  show slots.state? x = _
  rw [← hands x q hx]
  rcases releaseIfOwned_ok h.coherent.toSound hrelease with ⟨-, -, rfl⟩ | ⟨-, -, hset⟩
  · rfl
  · refine hset.other fun hslot => ?_
    exact he e.slot e.page q ⟨rfl, rfl⟩ (hslot ▸ hx)

/-- A frame that is in its slot and was not given up leads to the telling. -/
theorem written_shows (h : m.Shows used evicted restored)
    (hs : m.swap.slots.state? e.slot = some (e.page, .busy))
    (hc : m.coremap.Carries (evictCargo e) false) (hp : written m e = .ok p) :
    p.memory.Shows used evicted restored ∧ p.next = .callOut (.evictTelling e) := by
  cases written_cases hp with
  | freed slots slots' coremap hsettle hd hgone =>
      rcases hgone with rfl | horphaned
      · exact nomatch (h.settle hs hsettle).1
      · exact nomatch horphaned.symm.trans (hc.orphaned hd)
  | told slots hsettle => exact ⟨(h.settle hs hsettle).2.of_same rfl rfl rfl, rfl⟩

/-- One more sector is written, or the eviction is given up, or the pager is told. -/
theorem evicting_shows (h : m.Shows (used + 1) evicted restored)
    (hs : m.swap.slots.state? e.slot = some (e.page, .busy)) (hands : HasHands m e.need)
    (he : e.Apart) (hc : m.coremap.Carries (evictCargo e) false) (hp : EvictingCases m e p) :
    p.memory.Shows (used + p.next.promised + p.next.telling) evicted restored := by
  have h' : ∀ device, (m.putDevice device).Shows (used + 1) evicted restored :=
    fun device => h.of_same rfl rfl rfl
  cases hp with
  | failed device hp =>
      rw [(writeFailed_ended hp).settled.1, (writeFailed_ended hp).settled.2]
      exact writeFailed_shows (h' device) (owner_of_state? hs) hands he hp
  | writing => exact h' _
  | written device hp =>
      obtain ⟨hshows, hn⟩ := written_shows (h' device) hs hc hp
      rw [hn]
      exact hshows

/-- An eviction that the pager was told of is counted, and its slot stays used. -/
theorem toldPager_shows (h : m.Shows used evicted restored) (hm : m.coremap.Sound)
    (hands : HasHands m e.need) (hc : m.coremap.Carries (evictCargo e) false)
    (hp : toldPager m e = .ok p) : p.memory.Shows used (evicted + 1) restored := by
  cases toldPager_cases hp with
  | orphaned coremap slots hfinish =>
      -- the frame was not given up, so the slot is left to the page
      obtain ⟨-, page, hrole, -⟩ := hm.finishEviction hfinish
      injection hrole.unique hc with _ _ horphaned
      exact nomatch horphaned
  | kept coremap _ hp =>
      have h' : ({ m with coremap } : Memory).Shows used evicted restored :=
        h.of_same rfl rfl rfl
      exact evictionEnded_shows h'.countEviction hands hp

/-! ## A filling -/

/-- What a filling relies on: its slot is used, a page-in has hold of it, and the frame of a page-in
was not given up. -/
structure Ready (m : Memory) (f : Filling) : Prop where
  used : ∃ page, m.swap.slots.owner f.slot = some page
  hands : ∀ page, f.page = some page → m.swap.slots.state? f.slot = some (page, .busy)
  cargo : ∀ c, fillCargo? f = some c → m.coremap.Carries c false

/-- What a piece of a filling does: the filling is done, its slot released and one page more read
back, or nothing is counted. -/
inductive Finishes (f : Filling) (used evicted restored : Nat) (p : Piece) : Prop
  | done (hn : p.next = .reply (doneReply f))
      (shows : p.memory.Shows used evicted (restored + 1))
  | undone (hn : p.next ≠ .reply (doneReply f))
      (shows : p.memory.Shows (used + 1) evicted restored)

theorem filled_finishes (h : m.Shows (used + 1) evicted restored) (hm : m.coremap.Sound)
    (hready : Ready m f) (hp : filled m notices f = .ok p) :
    Finishes f used evicted restored p := by
  cases filled_cases hp with
  | unreleased _ hrelease =>
      obtain ⟨page, ho⟩ := hready.used
      exact nomatch (h.release ho hrelease).1
  | restored hpage hrelease =>
      obtain ⟨page, ho⟩ := hready.used
      refine .done ?_ (h.release ho hrelease).2.countRestore
      unfold doneReply
      rw [hpage]
      rfl
  | broughtBack page onChain slots coremap hpage hrelease hunpin =>
      have hshows := h.releaseIfOwned (owner_of_state? (hready.hands page hpage)) hrelease
      obtain ⟨-, q, orphaned, hrole, rfl, -⟩ := hm.unpin hunpin
      injection hrole.unique (hready.cargo _ (fillCargo?_of_page hpage)) with _ _ horphaned
      subst horphaned
      refine .done ?_ (hshows.countRestore.of_same rfl rfl rfl)
      unfold doneReply
      rw [hpage]
      rfl

theorem fillFailed_finishes {error : SwapError} (h : m.Shows (used + 1) evicted restored)
    (hready : Ready m f) (hp : fillFailed m f error = .ok p) :
    Finishes f used evicted restored p := by
  cases fillFailed_cases hp with
  | restore hpage =>
      refine .undone ?_ h
      unfold doneReply
      rw [hpage]
      exact nofun
  | pageIn page coremap slots hpage _ hsettle =>
      refine .undone ?_ ((h.settle (hready.hands page hpage) hsettle).2.of_same rfl rfl rfl)
      unfold doneReply
      rw [hpage]
      exact nofun

/-- What a filling relies on is no matter of contents and the device. -/
theorem Ready.of_same {n : Memory} (h : Ready m f) (hs : n.swap.slots = m.swap.slots)
    (hc : n.coremap = m.coremap) : Ready n f :=
  ⟨hs ▸ h.used, hs ▸ h.hands, hc ▸ h.cargo⟩

/-- **A filling that goes on** releases its slot and is counted in one piece. -/
theorem resume_finishes {t : Task} (h : m.Shows (used + 1) evicted restored) (hm : m.coremap.Sound)
    (hf : t.filling? = some f) (hready : Ready m f) (hp : resume held m t = .ok p) :
    Finishes f used evicted restored p := by
  have goesOn : FillingCases m f p → Finishes f used evicted restored p := by
    have h' : ∀ device ram, (m.putSectors device ram).Shows (used + 1) evicted restored :=
      fun device ram => h.of_same rfl rfl rfl
    intro hp
    cases hp with
    | full device ram hp =>
        exact filled_finishes (h' device ram) hm (hready.of_same rfl rfl) hp
    | unread device ram hp => exact fillFailed_finishes (h' device ram) (hready.of_same rfl rfl) hp
    | reading | scrubbing => exact .undone nofun (h' _ _)
  cases t with
  | fillMapping g =>
      cases hf
      exact goesOn (.of_mapping hp)
  | fillReading g i =>
      cases hf
      exact goesOn (.of_reading hp)
  | fillScrubbing g i =>
      cases hf
      exact goesOn (.of_scrubbing hp)
  | _ => exact nomatch hf

/-! ## An operation that starts -/

theorem allocate_shows {kind : FrameKind} {count : Nat} {page : Option Page} {seen : Bool}
    (h : m.Shows used evicted restored) (hp : allocate m kind count page seen = .ok p) :
    p.memory.Shows (used + p.next.promised) evicted restored := by
  cases allocate_cases hp with
  | refused => exact h
  | provided _ hp =>
      refine provide_shows h ?_ hp
      exact fun _ _ hx => hx.elim

theorem free_shows {address : Nat} (h : m.Shows used evicted restored)
    (hp : free m address = .ok p) : p.memory.Shows (used + p.next.promised) evicted restored := by
  cases free_cases hp with
  | noFrame => exact h
  | refused | freed | deferred => exact h.of_same rfl rfl rfl

/-- A page-in that begins has hold of its slot. -/
theorem pageIn_shows {slot : Nat} (h : m.Shows used evicted restored)
    (hp : pageIn m page slot = .ok p) :
    p.memory.Shows (used + p.next.promised) evicted restored := by
  cases pageIn_cases hp with
  | refused hhold => exact h.hold hhold
  | held slots hhold hp =>
      refine provide_shows (h.hold hhold) ?_ hp
      rintro x q ⟨rfl, rfl⟩
      exact (hold_true h.coherent.toSound hhold).2.self

theorem restore_shows {slot address : Nat} (h : m.Shows used evicted restored)
    (hp : restore m slot address = .ok p) :
    p.memory.Shows (used + p.next.promised) evicted restored := by
  cases restore_cases hp with
  | noFrame | noSlot | filling => exact h

theorem recordTlbSlot_shows {address : Nat} {slot : Option Nat} (h : m.Shows used evicted restored)
    (hp : recordTlbSlot m address slot = .ok p) :
    p.memory.Shows (used + p.next.promised) evicted restored := by
  cases recordTlbSlot_cases hp with
  | noFrame => exact h
  | recorded => exact h.of_same rfl rfl rfl

/-- A teardown takes the slots that it clears off the count. -/
theorem tearDown_shows {space : Nat} (h : m.Shows used evicted restored)
    (hp : tearDown m space = .ok p) : ∃ frames cleared left,
      p.next = .reply (.tornDown frames cleared) ∧ left + cleared = used ∧
        p.memory.Shows left evicted restored := by
  obtain ⟨frames, coremap, cleared, slots, -, hsweep, rfl⟩ := tearDown_eq_ok hp
  have h' : ({ m with coremap } : Memory).Shows used evicted restored := h.of_same rfl rfl rfl
  obtain ⟨left, hleft, hshows⟩ := h'.releaseSpace hsweep
  exact ⟨frames, cleared, left, rfl, hleft, hshows⟩

/-- **An operation that starts** reserves at most one slot. -/
theorem start_shows {op : Operation} (h : m.Shows used evicted restored)
    (hop : op.isManaged = true) (hno : ∀ space, op ≠ .tearDown space)
    (hp : start held m op = .ok p) : p.memory.Shows (used + p.next.promised) evicted restored := by
  cases op with
  | allocate kind count page => exact allocate_shows h hp
  | free address => exact free_shows h hp
  | evict =>
      refine evict_shows h ?_ hp
      exact fun _ _ hx => hx.elim
  | restore slot address => exact restore_shows h hp
  | pageIn page slot => exact pageIn_shows h hp
  | tearDown space => exact absurd rfl (hno space)
  | allocateSeen count => exact allocate_shows h hp
  | freeSeen seen =>
      cases freeSeen_cases hp with
      | unseen => exact h
      | freed _ hp => exact free_shows h hp
  | recordTlbSlot address slot => exact recordTlbSlot_shows h hp
  | readSlot slot buffer => exact nomatch hop
  | writeSlot slot buffer => exact nomatch hop
  | scrubSlot slot => exact nomatch hop

end Task

end PhysMem
