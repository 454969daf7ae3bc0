import PhysMem.Proofs.FrameUse
import PhysMem.Proofs.Progress
import PhysMem.Proofs.SwapArea

/-!
# Hands — the slots an operation has hold of

An eviction has hold of its slot from the reservation until it settles the slot, a page-in from the
hold until its frame is filled or given back. What an operation may do to the slot map is bounded by
the slots it *owns*: those it has hold of, and the slot of an eviction that was told of, which the
eviction may still release.

* **`Task.holds`**, **`Task.owns`** are the hands of a stopped operation.
* **`Drops`** is what any piece does to the memory apart from transfers: slots are let go of, and
  the rest of the swap area stays as it is.
* **`resume_resumes`** — an operation that goes on lets go of its own slots only, and of each of
  them for good. **`start_takes`** — one that starts takes hold of slots that were free or idle.
-/

namespace PhysMem

/-! ## Letting go of slots -/

namespace SlotMap

/-- `m'` is `m` with some slots of `own` let go of: they are free or idle now, and free for sure if
they were orphaned. -/
structure LetsGo (own : Nat → Page → Prop) (m m' : SlotMap) : Prop where
  sound : m'.Sound
  capacity : m'.capacity = m.capacity
  state : ∀ x, m'.state? x = m.state? x ∨
    ∃ page s, m.state? x = some (page, s) ∧ own x page ∧
      (m'.state? x = none ∨ s ≠ .orphaned ∧ m'.state? x = some (page, .idle))

variable {m m' m'' : SlotMap} {own own' : Nat → Page → Prop} {slot : Nat} {page : Page}

theorem LetsGo.refl (hm : m.Sound) : m.LetsGo own m := ⟨hm, rfl, fun _ => Or.inl rfl⟩

theorem LetsGo.mono (h : m.LetsGo own m') (hle : ∀ x q, own x q → own' x q) :
    m.LetsGo own' m' := by
  refine ⟨h.sound, h.capacity, fun x => ?_⟩
  rcases h.state x with hx | ⟨q, s, hs, ho, hx⟩
  · exact Or.inl hx
  · exact Or.inr ⟨q, s, hs, hle x q ho, hx⟩

theorem LetsGo.trans (h : m.LetsGo own m') (h' : m'.LetsGo own m'') : m.LetsGo own m'' := by
  refine ⟨h'.sound, h'.capacity.trans h.capacity, fun x => ?_⟩
  rcases h.state x with hx | ⟨q, s, hs, ho, hx⟩
  · rw [← hx]
    exact h'.state x
  · refine Or.inr ⟨q, s, hs, ho, ?_⟩
    rcases h'.state x with hx' | ⟨q', s', hs', -, hx'⟩
    · rw [hx']
      exact hx
    · rcases hx with hx | ⟨hne, hx⟩
      · rw [hx] at hs'
        exact nomatch hs'
      · rw [hx] at hs'
        cases hs'
        exact hx'.imp id fun hx' => ⟨hne, hx'.2⟩

/-- A slot of nobody's hands stays as it is. -/
theorem LetsGo.unowned {s : SlotState} (h : m.LetsGo own m') (hs : m.state? slot = some (page, s))
    (ho : ¬ own slot page) : m'.state? slot = some (page, s) := by
  rcases h.state slot with hx | ⟨q, s', hs', hown, -⟩
  · rw [hx]
    exact hs
  · rw [hs] at hs'
    cases hs'
    exact absurd hown ho

theorem LetsGo.free (h : m.LetsGo own m') (hs : m.state? slot = none) : m'.state? slot = none := by
  rcases h.state slot with hx | ⟨q, s', hs', -, -⟩
  · rw [hx]
    exact hs
  · rw [hs] at hs'
    exact nomatch hs'

/-- What is busy for a page behind the step was so before. -/
theorem LetsGo.busy {s : SlotState} (h : m.LetsGo own m') (hs : m'.state? slot = some (page, s))
    (hbusy : s ≠ .idle) : m.state? slot = some (page, s) := by
  rcases h.state slot with hx | ⟨q, s', -, -, hx | ⟨-, hx⟩⟩
  · rw [← hx]
    exact hs
  · rw [hx] at hs
    exact nomatch hs
  · rw [hx] at hs
    cases hs
    exact absurd rfl hbusy

/-- One page in one slot. -/
def pair (slot : Nat) (page : Page) : Nat → Page → Prop := fun x q => x = slot ∧ q = page

theorem Sets.letsGo {s : Option (Page × SlotState)} (h : m.Sets slot s m') {t : SlotState}
    (hs : m.state? slot = some (page, t))
    (hend : s = none ∨ t ≠ .orphaned ∧ s = some (page, .idle)) :
    m.LetsGo (pair slot page) m' := by
  refine ⟨h.sound, h.capacity, fun x => ?_⟩
  by_cases hx : x = slot
  · subst hx
    exact Or.inr ⟨page, t, hs, ⟨rfl, rfl⟩, by rw [h.self]; exact hend⟩
  · exact Or.inl (h.other hx)

/-- Settling a slot lets go of it. -/
theorem settle_letsGo {live : Bool} (hm : m.Sound) (h : m.settle slot page = .ok (live, m')) :
    m.LetsGo (pair slot page) m' ∧ ∀ s, m'.state? slot = some (page, s) → s = .idle := by
  rcases settle_ok hm h with ⟨ho, -, rfl⟩ | ⟨hs, -, hset⟩ | ⟨⟨s, hs, hne⟩, -, hset⟩
  · exact ⟨.refl hm, fun s hs => absurd (owner_of_state? hs) ho⟩
  · refine ⟨hset.letsGo hs (Or.inl rfl), fun s hs => ?_⟩
    rw [hset.self] at hs
    exact nomatch hs
  · refine ⟨hset.letsGo hs (Or.inr ⟨hne, rfl⟩), fun s hs => ?_⟩
    rw [hset.self] at hs
    cases hs
    rfl

/-- So does a guarded release. -/
theorem releaseIfOwned_letsGo {b : Bool} (hm : m.Sound)
    (h : m.releaseIfOwned slot page = .ok (b, m')) :
    m.LetsGo (pair slot page) m' ∧ ∀ s, m'.state? slot = some (page, s) → s = .idle := by
  rcases releaseIfOwned_ok hm h with ⟨ho, -, rfl⟩ | ⟨ho, -, hset⟩
  · exact ⟨.refl hm, fun s hs => absurd (owner_of_state? hs) ho⟩
  · obtain ⟨t, ht⟩ := state?_of_owner ho
    refine ⟨hset.letsGo ht (Or.inl rfl), fun s hs => ?_⟩
    rw [hset.self] at hs
    exact nomatch hs

/-- A bare release takes the slot from whoever has it. -/
theorem release_letsGo {r : Except SwapError Unit} (hm : m.Sound)
    (h : m.release slot = .ok (r, m')) : m.LetsGo (fun x _ => x = slot) m' := by
  cases r with
  | error e =>
      rw [(release_error h).1]
      exact .refl hm
  | ok u =>
      have hset := release_ok hm h
      refine ⟨hset.sound, hset.capacity, fun x => ?_⟩
      by_cases hx : x = slot
      · subst hx
        cases hs : m.state? x with
        | none => exact Or.inl hset.self
        | some entry => exact Or.inr ⟨entry.1, entry.2, rfl, rfl, Or.inl hset.self⟩
      · exact Or.inl (hset.other hx)

end SlotMap

open SlotMap

/-! ## Hands -/

/-- The slot that something waiting for room has hold of. -/
def Need.holds : Option Need → Nat → Page → Prop
  | some (.pageIn page slot) => pair slot page
  | _ => fun _ _ => False

/-- What an eviction on its way to the device has hold of. -/
def Eviction.holds (e : Eviction) (x : Nat) (q : Page) : Prop :=
  pair e.slot e.page x q ∨ Need.holds e.need x q

/-- The eviction's slot is not the one that the need has hold of. -/
def Eviction.Apart (e : Eviction) : Prop := ∀ x q q', pair e.slot e.page x q → ¬ Need.holds e.need x q'

namespace Filling

/-- The entry that a filling takes away in the end; a restore takes its slot from whoever has it. -/
def owns (f : Filling) (x : Nat) (q : Page) : Prop := x = f.slot ∧ (f.page = none ∨ f.page = some q)

/-- What a filling has hold of: a page-in its slot, a restore nothing. -/
def holds (f : Filling) (x : Nat) (q : Page) : Prop := x = f.slot ∧ f.page = some q

end Filling

namespace Task

/-- The slots that the operation has hold of, with their pages. -/
def holds : Task → Nat → Page → Prop
  | .evictMapping e | .evictWriting e _ => e.holds
  | .evictTelling e => Need.holds e.need
  | .fillMapping f | .fillReading f _ | .fillScrubbing f _ => f.holds
  | .slotReading .. | .slotWriting .. => fun _ _ => False

/-- The entries of the slot map that the operation may still change. -/
def owns : Task → Nat → Page → Prop
  | .evictMapping e | .evictWriting e _ | .evictTelling e => e.holds
  | .fillMapping f | .fillReading f _ | .fillScrubbing f _ => f.owns
  | .slotReading .. | .slotWriting .. => fun _ _ => False

/-- The operation is one of the allocator's own, its slots are apart, and the slot of a transfer is
one of the device. -/
def Proper (d : SwapDevice) : Task → Prop
  | .evictMapping e | .evictTelling e => e.Apart
  | .evictWriting e _ => e.Apart ∧ e.slot < d.slots
  | .fillMapping _ => True
  | .fillReading f _ | .fillScrubbing f _ => f.slot < d.slots
  | .slotReading .. | .slotWriting .. => False

/-- The device may change as long as its slots stay where they are. -/
theorem Proper.of_layout {d d' : SwapDevice} {t : Task} (h : t.Proper d) (hl : d.SameLayout d') :
    t.Proper d' := by
  cases t with
  | evictWriting e i => exact ⟨h.1, hl.slots ▸ h.2⟩
  | fillReading f i => exact Nat.lt_of_lt_of_eq h hl.slots.symm
  | fillScrubbing f i => exact Nat.lt_of_lt_of_eq h hl.slots.symm
  | evictMapping e => exact h
  | evictTelling e => exact h
  | fillMapping f => exact h
  | slotReading slot buffer i => exact h
  | slotWriting slot data i => exact h

/-- The slot of a page-in, which is given back if no frame can be had or filled for it. -/
def keeps : Task → Nat → Page → Prop
  | .evictMapping e | .evictWriting e _ | .evictTelling e => Need.holds e.need
  | .fillMapping f | .fillReading f _ | .fillScrubbing f _ => f.holds
  | .slotReading .. | .slotWriting .. => fun _ _ => False

theorem holds_of_keeps {t : Task} {x : Nat} {q : Page} (h : t.keeps x q) : t.holds x q := by
  cases t with
  | evictMapping e => exact Or.inr h
  | evictWriting e i => exact Or.inr h
  | _ => exact h

theorem owns_of_holds {t : Task} {x : Nat} {q : Page} (h : t.holds x q) : t.owns x q := by
  cases t with
  | evictMapping e => exact h
  | evictWriting e i => exact h
  | evictTelling e => exact Or.inr h
  | fillMapping f => exact ⟨h.1, Or.inr h.2⟩
  | fillReading f i => exact ⟨h.1, Or.inr h.2⟩
  | fillScrubbing f i => exact ⟨h.1, Or.inr h.2⟩
  | slotReading slot buffer i => exact h
  | slotWriting slot data i => exact h

/-- A page-in has hold of its own slot only. -/
theorem Serves.of_keeps {op : Operation} {t : Task} {x : Nat} {q : Page} (h : t.Serves op)
    (hk : t.keeps x q) : op = .pageIn q x := by
  -- the page-in waits for an eviction, or its frame is being filled
  have waiting : ∀ need, NeedServes op need → Need.holds need x q → op = .pageIn q x := by
    intro need hop hx
    cases need with
    | none => exact hx.elim
    | some need =>
        cases need with
        | allocate owner count seen => exact hx.elim
        | pageIn page slot =>
            obtain ⟨rfl, rfl⟩ := hx
            exact hop
  have filling : ∀ f, FillServes op f → f.holds x q → op = .pageIn q x := by
    rintro f hop ⟨rfl, hpage⟩
    exact hop.of_page hpage
  cases t with
  | evictMapping e => exact waiting _ h hk
  | evictWriting e i => exact waiting _ h hk
  | evictTelling e => exact waiting _ h hk
  | fillMapping f => exact filling f h hk
  | fillReading f i => exact filling f h hk
  | fillScrubbing f i => exact filling f h hk
  | slotReading slot buffer i => exact hk.elim
  | slotWriting slot data i => exact hk.elim

namespace Next

/-- The hands of what comes next. -/
def holds : Next → Nat → Page → Prop
  | .callOut task => task.holds
  | .reply _ => fun _ _ => False

/-- The entries that what comes next may still change. -/
def owns : Next → Nat → Page → Prop
  | .callOut task => task.owns
  | .reply _ => fun _ _ => False

/-- The slot of what comes next that is a page-in's. -/
def keeps : Next → Nat → Page → Prop
  | .callOut task => task.keeps
  | .reply _ => fun _ _ => False

/-- What comes next is an operation of the allocator's own, if it is one. -/
def Proper (d : SwapDevice) : Next → Prop
  | .callOut task => task.Proper d
  | .reply _ => True

theorem owns_of_holds {n : Next} {x : Nat} {q : Page} (h : n.holds x q) : n.owns x q := by
  cases n with
  | callOut task => exact Task.owns_of_holds h
  | reply r => exact h.elim

end Next

/-- A page-in that lets go of its slot behind an eviction has found no room. -/
theorem Ended.fails {need : Option Need} {n : Next} {x : Nat} {q : Page} (h : Ended need n)
    (hneed : Need.holds need x q) (hno : ¬ n.holds x q) :
    ∃ e, n = .reply (.address (.error e)) ∧ e ≠ .ownerReleased := by
  cases need with
  | none => exact hneed.elim
  | some need =>
      cases need with
      | allocate owner count seen => exact hneed.elim
      | pageIn page slot =>
          obtain ⟨rfl, rfl⟩ := hneed
          cases h with
          | found f hn hslot hpage =>
              rw [hn] at hno
              exact absurd ⟨hslot.symm, hpage⟩ hno
          | failed e hn he => exact ⟨e, hn, he⟩

end Task

/-! ## Steps without a transfer -/

namespace Memory

/-- A step without a transfer: slots of `own` may be let go of, those of `held` are, and contents
and frames are where they were. -/
structure Drops (own held : Nat → Page → Prop) (m m' : Memory) : Prop where
  slots : m.swap.slots.LetsGo own m'.swap.slots
  done : ∀ x q s, held x q → m'.swap.slots.state? x = some (q, s) → s = .idle
  device : m'.swap.device = m.swap.device
  scrub : m'.swap.scrub = m.swap.scrub
  ram : m'.ram = m.ram
  table : m.coremap.SameTable m'.coremap

variable {m m' m'' : Memory} {own own' held held' : Nat → Page → Prop}

theorem Drops.mono (h : m.Drops own held m') (hown : ∀ x q, own x q → own' x q)
    (hheld : ∀ x q, held' x q → held x q) : m.Drops own' held' m' :=
  ⟨h.slots.mono hown, fun x q s hx => h.done x q s (hheld x q hx), h.device, h.scrub, h.ram,
    h.table⟩

/-- What was let go of stays let go of. -/
theorem Drops.trans (h : m.Drops own held m') (h' : m'.Drops own' held' m'') :
    m.Drops (fun x q => own x q ∨ own' x q) (fun x q => held x q ∨ held' x q) m'' := by
  refine ⟨(h.slots.mono fun _ _ => Or.inl).trans (h'.slots.mono fun _ _ => Or.inr), ?_,
    h'.device.trans h.device, h'.scrub.trans h.scrub, h'.ram.trans h.ram, h.table.trans h'.table⟩
  intro x q s hx hs
  rcases hx with hx | hx
  · refine Decidable.byContradiction fun hne => ?_
    exact hne (h.done x q s hx (h'.slots.busy hs hne))
  · exact h'.done x q s hx hs

/-- Frames, pager and counts may change without any slot being let go of. -/
theorem Drops.of_swap (hm : m.swap.slots.Sound) (hs : m'.swap = m.swap) (hr : m'.ram = m.ram)
    (ht : m.coremap.SameTable m'.coremap) :
    m.Drops (fun _ _ => False) (fun _ _ => False) m' := by
  refine ⟨?_, fun _ _ _ h => h.elim, congrArg SwapArea.device hs, congrArg SwapArea.scrub hs, hr,
    ht⟩
  rw [hs]
  exact .refl hm

/-- A step may be followed by changes of frames, pager and counts. -/
theorem Drops.then_same (h : m.Drops own held m') (hs : m''.swap = m'.swap)
    (hr : m''.ram = m'.ram) (ht : m'.coremap.SameTable m''.coremap) : m.Drops own held m'' := by
  have hsame : m'.Drops (fun _ _ => False) (fun _ _ => False) m'' :=
    .of_swap h.slots.sound hs hr ht
  exact (h.trans hsame).mono (fun _ _ ho => ho.resolve_right id) fun _ _ => Or.inl

theorem Drops.of_slots {slots : SlotMap} (h : m.swap.slots.LetsGo own slots)
    (hdone : ∀ x q s, held x q → slots.state? x = some (q, s) → s = .idle) :
    m.Drops own held (m.putSlots slots) :=
  ⟨h, hdone, rfl, rfl, rfl, .refl _⟩

theorem Drops.of_settle {slot : Nat} {page : Page} {live : Bool} {slots : SlotMap}
    (hm : m.swap.slots.Sound) (h : m.swap.slots.settle slot page = .ok (live, slots)) :
    m.Drops (pair slot page) (pair slot page) (m.putSlots slots) := by
  obtain ⟨hgo, hidle⟩ := settle_letsGo hm h
  refine .of_slots hgo ?_
  rintro x q s ⟨rfl, rfl⟩ hs
  exact hidle s hs

theorem Drops.of_releaseIfOwned {slot : Nat} {page : Page} {b : Bool} {slots : SlotMap}
    (hm : m.swap.slots.Sound) (h : m.swap.slots.releaseIfOwned slot page = .ok (b, slots)) :
    m.Drops (pair slot page) (pair slot page) (m.putSlots slots) := by
  obtain ⟨hgo, hidle⟩ := releaseIfOwned_letsGo hm h
  refine .of_slots hgo ?_
  rintro x q s ⟨rfl, rfl⟩ hs
  exact hidle s hs

end Memory

/-! ## Pieces without a transfer -/

namespace Task

/-- A piece lets go of slots in `own` only, and of those in `held` that what comes next has not
hold of. A slot of `spare` that an error sends back is idle again. -/
structure Respects (own held spare : Nat → Page → Prop) (m : Memory) (p : Piece) : Prop where
  drops : m.Drops (fun x q => own x q ∧ ¬ p.next.holds x q)
    (fun x q => held x q ∧ ¬ p.next.holds x q) p.memory
  next : ∀ x q, p.next.owns x q → own x q
  hands : ∀ x q, p.next.holds x q → held x q
  proper : p.next.Proper p.memory.swap.device
  kept : ∀ x q e, spare x q → p.next = .reply (.address (.error e)) → e ≠ .ownerReleased →
    m.swap.slots.state? x = some (q, .busy) → p.memory.swap.slots.state? x = some (q, .idle)

namespace Respects

variable {own own' held held' spare spare' : Nat → Page → Prop} {m m' : Memory} {p : Piece}

theorem mono (h : Respects own held spare m p) (hown : ∀ x q, own x q → own' x q)
    (hheld : ∀ x q, held' x q ↔ held x q) (hspare : ∀ x q, spare' x q → spare x q) :
    Respects own' held' spare' m p := by
  refine ⟨h.drops.mono ?_ ?_, fun x q hx => hown x q (h.next x q hx),
    fun x q hx => (hheld x q).mpr (h.hands x q hx), h.proper, ?_⟩
  · intro x q hx
    exact ⟨hown x q hx.1, hx.2⟩
  · intro x q hx
    exact ⟨(hheld x q).mp hx.1, hx.2⟩
  · intro x q e hx
    exact h.kept x q e (hspare x q hx)

/-- A step before the piece that lets go of slots that are none of the piece's. -/
theorem after (hstep : m.Drops own held m') (h : Respects own' held' spare m' p)
    (hapart : ∀ x q, own x q → ¬ own' x q) (hspare : ∀ x q, spare x q → own' x q) :
    Respects (fun x q => own x q ∨ own' x q) (fun x q => held x q ∨ held' x q) spare m p := by
  refine ⟨(hstep.trans h.drops).mono ?_ ?_, fun x q hx => Or.inr (h.next x q hx),
    fun x q hx => Or.inr (h.hands x q hx), h.proper, ?_⟩
  · rintro x q (hx | ⟨hx, hn⟩)
    · exact ⟨Or.inl hx, fun hn => hapart x q hx (h.next x q (Next.owns_of_holds hn))⟩
    · exact ⟨Or.inr hx, hn⟩
  · rintro x q ⟨hx | hx, hn⟩
    · exact Or.inl hx
    · exact Or.inr ⟨hx, hn⟩
  · intro x q e hx hreply hne hs
    refine h.kept x q e hx hreply hne (hstep.slots.unowned hs ?_)
    intro ho
    exact hapart x q ho (hspare x q hx)

/-- Changes of frames, pager and counts before the piece. -/
theorem of_same (h : Respects own held spare m' p) (hm : m.swap.slots.Sound)
    (hs : m'.swap = m.swap) (hr : m'.ram = m.ram) (ht : m.coremap.SameTable m'.coremap) :
    Respects own held spare m p := by
  refine ⟨((Memory.Drops.of_swap hm hs hr ht).trans h.drops).mono ?_ ?_, h.next, h.hands,
    h.proper, ?_⟩
  · rintro x q (hx | hx)
    · exact hx.elim
    · exact hx
  · intro x q hx
    exact Or.inr hx
  · intro x q e hx
    rw [← hs]
    exact h.kept x q e hx

/-- The last piece of an operation. -/
theorem reply {notices : List Notice} {r : Reply} (h : m.Drops own held m')
    (hkept : ∀ x q e, spare x q → r = .address (.error e) → e ≠ .ownerReleased →
      m.swap.slots.state? x = some (q, .busy) → m'.swap.slots.state? x = some (q, .idle)) :
    Respects own held spare m (finish m' notices r) := by
  refine ⟨h.mono (fun _ _ ho => ⟨ho, id⟩) (fun _ _ hx => hx.1), fun _ _ hx => hx.elim,
    fun _ _ hx => hx.elim, trivial, ?_⟩
  rintro x q e hx hr
  cases hr
  exact hkept x q e hx rfl

/-- A piece that ends at a call-out and has let go of nothing. -/
theorem stop {notices : List Notice} {t : Task} (hm : m.swap.slots.Sound)
    (hown : ∀ x q, t.owns x q → own x q) (hheld : ∀ x q, t.holds x q ↔ held x q)
    (hproper : t.Proper m.swap.device) : Respects own held spare m (stop m notices t) := by
  refine ⟨(Memory.Drops.of_swap hm rfl rfl (.refl _)).mono ?_ ?_, hown,
    fun x q hx => (hheld x q).mp hx, hproper, nofun⟩
  · exact fun _ _ hx => hx.elim
  · intro x q hx
    exact hx.2 ((hheld x q).mpr hx.1)

end Respects

variable {m : Memory} {p : Piece} {notices : List Notice}

/-! ### Filling a frame from a slot -/

theorem filled_respects {f : Filling} (hm : m.swap.slots.Sound)
    (h : filled m notices f = .ok p) : Respects f.owns f.holds f.holds m p := by
  -- a restore has hold of nothing, and takes its slot from whoever has it
  have restore : ∀ {released slots}, f.page = none →
      m.swap.slots.release f.slot = .ok (released, slots) →
        m.Drops f.owns f.holds (m.putSlots slots) := by
    intro released slots hpage hrelease
    refine .of_slots ((release_letsGo hm hrelease).mono ?_) ?_
    · rintro x q rfl
      exact ⟨rfl, Or.inl hpage⟩
    · rintro x q s ⟨-, hx⟩
      rw [hpage] at hx
      exact nomatch hx
  cases filled_cases h with
  | unreleased hpage hrelease => exact .reply (restore hpage hrelease) nofun
  | restored hpage hrelease =>
      exact .reply ((restore hpage hrelease).then_same rfl rfl (.refl _)) nofun
  | broughtBack page onChain slots _ hpage hrelease hunpin =>
      obtain ⟨u, -, -, -, hput⟩ := Coremap.unpin_ok hunpin
      have hdrop : m.Drops f.owns f.holds (m.putSlots slots) := by
        refine (Memory.Drops.of_releaseIfOwned hm hrelease).mono ?_ ?_
        · rintro x q ⟨rfl, rfl⟩
          exact ⟨rfl, Or.inr hpage⟩
        · rintro x q ⟨rfl, hx⟩
          rw [hpage] at hx
          exact ⟨rfl, (Option.some.inj hx).symm⟩
      refine .reply (hdrop.then_same rfl rfl hput.toSameTable) ?_
      intro x q e _ hr hne
      cases onChain with
      | true => cases hr
      | false =>
          cases hr
          exact absurd rfl hne

/-- A slot that is settled while it is busy is idle. -/
theorem settle_busy {slots slots' : SlotMap} {slot : Nat} {page : Page} {live : Bool}
    (hm : slots.Sound) (h : slots.settle slot page = .ok (live, slots'))
    (hs : slots.state? slot = some (page, .busy)) : slots'.state? slot = some (page, .idle) := by
  rcases settle_ok hm h with ⟨ho, -, -⟩ | ⟨hs', -, -⟩ | ⟨-, -, hset⟩
  · exact absurd (owner_of_state? hs) ho
  · rw [hs] at hs'
    exact nomatch hs'
  · exact hset.self

theorem fillFailed_respects {f : Filling} {e : SwapError} (hm : m.swap.slots.Sound)
    (h : fillFailed m f e = .ok p) : Respects f.owns f.holds f.holds m p := by
  cases fillFailed_cases h with
  | restore hpage =>
      refine .reply ((Memory.Drops.of_swap hm rfl rfl (.refl _)).mono ?_ ?_) nofun
      · exact fun _ _ hx => hx.elim
      · rintro x q ⟨-, hx⟩
        rw [hpage] at hx
        exact nomatch hx
  | pageIn page coremap slots hpage hdiscard hsettle =>
      have hdrop : m.Drops f.owns f.holds ({ m with coremap }.putSlots slots) := by
        refine ((Memory.Drops.of_settle hm hsettle).mono ?_ ?_).then_same rfl rfl
          (Coremap.discardPinned_ok hdiscard).2.toSameTable
        · rintro x q ⟨rfl, rfl⟩
          exact ⟨rfl, Or.inr hpage⟩
        · rintro x q ⟨rfl, hx⟩
          rw [hpage] at hx
          exact ⟨rfl, (Option.some.inj hx).symm⟩
      refine .reply hdrop ?_
      rintro x q e' ⟨rfl, hx⟩ - - hs
      rw [hpage] at hx
      cases hx
      exact settle_busy hm hsettle hs

/-- A refusal is the only way for a sector of a slot outside the device. -/
theorem lt_slots_of_writable {d : SwapDevice} {slot i : Nat}
    (h : d.writeRefusal? slot i = .ok none) : slot < d.slots := by
  unfold SwapDevice.writeRefusal? at h
  split at h
  · cases h
  · next hle => exact Nat.lt_of_not_le hle

theorem lt_slots_of_readable {d : SwapDevice} {slot i : Nat}
    (h : d.readRefusal? slot i = .ok none) : slot < d.slots := by
  unfold SwapDevice.readRefusal? at h
  split at h
  · cases h
  · next hle => exact Nat.lt_of_not_le hle

theorem scrubAt_respects {f : Filling} {i : Place} (hm : m.swap.slots.Sound)
    (h : scrubAt m f i = .ok p) : Respects f.owns f.holds f.holds m p := by
  cases scrubAt_cases h with
  | refused _ h => exact filled_respects hm h
  | ready href =>
      exact .stop hm (fun _ _ hx => hx) (fun _ _ => .rfl) (lt_slots_of_writable href)

theorem slotRead_respects {held : Bool} {f : Filling} (hm : m.swap.slots.Sound)
    (h : slotRead held m f = .ok p) : Respects f.owns f.holds f.holds m p := by
  rcases slotRead_cases h with ⟨-, -, h⟩ | ⟨-, h⟩
  · exact scrubAt_respects hm h
  · exact filled_respects hm h

theorem readAt_respects {f : Filling} {i : Place} (hm : m.swap.slots.Sound)
    (h : readAt m f i = .ok p) : Respects f.owns f.holds f.holds m p := by
  cases readAt_cases h with
  | refused _ h => exact fillFailed_respects hm h
  | ready href =>
      exact .stop hm (fun _ _ hx => hx) (fun _ _ => .rfl) (lt_slots_of_readable href)

/-! ### Finding room -/

theorem claimFor_table {coremap coremap' : Coremap} {need : Need} {first : Option Nat}
    (h : claimFor coremap need = .ok (first, coremap')) : coremap.SameTable coremap' := by
  cases need with
  | allocate owner count seen =>
      rcases Coremap.claim_ok h with ⟨-, hm⟩ | ⟨_, _, -, hm, -⟩
      · exact hm.toSameTable
      · exact hm.toSameTable
  | pageIn page slot =>
      have hrun : coremap.claimRun (.user page) 1 true = .ok (first, coremap') := h
      rcases Coremap.claimRun_ok hrun with ⟨-, hm⟩ | ⟨_, _, -, hm, -⟩
      · exact hm.toSameTable
      · exact hm.toSameTable

theorem met_respects {i : Nat} {need : Need} (hm : m.swap.slots.Sound)
    (h : met m notices i need = .ok p) :
    Respects (Need.holds (some need)) (Need.holds (some need)) (Need.holds (some need)) m p := by
  cases met_cases h with
  | allocated | seen => exact .reply (.of_swap hm rfl rfl (.refl _)) nofun
  | pageIn =>
      refine .stop hm ?_ ?_ trivial
      · rintro x q ⟨rfl, hx⟩
        rcases hx with hx | hx
        · exact nomatch hx
        · exact ⟨rfl, (Option.some.inj hx).symm⟩
      · intro x q
        constructor
        · rintro ⟨rfl, hx⟩
          exact ⟨rfl, (Option.some.inj hx).symm⟩
        · rintro ⟨rfl, rfl⟩
          exact ⟨rfl, rfl⟩

theorem unmet_respects {e : FrameError} {need : Need} (hm : m.swap.slots.Sound)
    (h : unmet m notices e need = .ok p) :
    Respects (Need.holds (some need)) (Need.holds (some need)) (Need.holds (some need)) m p := by
  cases unmet_cases h with
  | allocate => exact .reply (.of_swap hm rfl rfl (.refl _)) fun _ _ _ hx => hx.elim
  | pageIn hsettle =>
      refine .reply (.of_settle hm hsettle) ?_
      rintro x q e ⟨rfl, rfl⟩ - - hs
      exact settle_busy hm hsettle hs

theorem evictionEnded_respects {need : Option Need} {result : Except EvictError (Nat × Nat)}
    (hm : m.swap.slots.Sound) (h : evictionEnded m notices need result = .ok p) :
    Respects (Need.holds need) (Need.holds need) (Need.holds need) m p := by
  cases evictionEnded_cases h with
  | ended => exact .reply (.of_swap hm rfl rfl (.refl _)) nofun
  | noVictim h | failed h => exact unmet_respects hm h
  | room coremap hclaim h =>
      have hrest := met_respects (m := { m with coremap }) hm h
      exact hrest.of_same hm rfl rfl (claimFor_table hclaim)
  | noRoom coremap hclaim h =>
      have hrest := unmet_respects (m := { m with coremap }) hm h
      exact hrest.of_same hm rfl rfl (claimFor_table hclaim)

/-! ### Evictions -/

/-- Putting a frame back, or freeing it, changes nothing else. -/
theorem putBack_same {frame : Nat} {m' : Memory} (h : putBack m frame = .ok (m', notices)) :
    m'.swap = m.swap ∧ m'.ram = m.ram ∧ m.coremap.SameTable m'.coremap := by
  obtain ⟨onChain, coremap, habort, rfl, -⟩ := putBack_eq_ok h
  obtain ⟨u, -, -, -, hput⟩ := Coremap.abortEviction_ok habort
  exact ⟨rfl, rfl, hput.toSameTable⟩

theorem writeFailed_respects {e : Eviction} {cause : SwapError} (hm : m.swap.slots.Sound)
    (he : e.Apart) (h : writeFailed m e cause = .ok p) :
    Respects e.holds e.holds (Need.holds e.need) m p := by
  obtain ⟨owned, slots, n, notices, hrelease, hback, h⟩ := writeFailed_eq_ok h
  obtain ⟨hswap, hram, htable⟩ := putBack_same hback
  have hdrop : m.Drops (pair e.slot e.page) (pair e.slot e.page) n :=
    (Memory.Drops.of_releaseIfOwned hm hrelease).then_same hswap hram htable
  exact .after hdrop (evictionEnded_respects hdrop.slots.sound h) (fun x q hx => he x q q hx)
    fun _ _ hx => hx

theorem writeAt_respects {e : Eviction} {i : Place} (hm : m.swap.slots.Sound) (he : e.Apart)
    (h : writeAt m e i = .ok p) : Respects e.holds e.holds (Need.holds e.need) m p := by
  cases writeAt_cases h with
  | refused _ h => exact writeFailed_respects hm he h
  | ready href =>
      exact .stop hm (fun _ _ hx => hx) (fun _ _ => .rfl) ⟨he, lt_slots_of_writable href⟩

/-- A frame that is in its slot: either both are freed, or the pager is told and only the slot is
let go of. -/
theorem written_respects {e : Eviction} (hm : m.swap.slots.Sound) (he : e.Apart)
    (h : written m e = .ok p) : Respects e.holds e.holds (Need.holds e.need) m p := by
  cases written_cases h with
  | freed slots slots' coremap hsettle _ _ hfinish hrelease h =>
      have hdrop := Memory.Drops.of_settle hm hsettle
      have htable := (Coremap.finishEviction_ok hfinish).2.toSameTable
      have hfree : m.Drops (pair e.slot e.page) (pair e.slot e.page)
          ({ m.putSlots slots with coremap }.putSlots slots').countEviction := by
        refine ((hdrop.trans (.of_releaseIfOwned hdrop.slots.sound hrelease)).mono ?_ ?_).then_same
          rfl rfl htable
        · exact fun _ _ hx => hx.elim id id
        · exact fun _ _ hx => Or.inl hx
      exact .after hfree (evictionEnded_respects hfree.slots.sound h) (fun x q hx => he x q q hx)
        fun _ _ hx => hx
  | told slots hsettle =>
      have hdrop := Memory.Drops.of_settle hm hsettle
      refine ⟨⟨hdrop.slots.mono ?_, ?_, rfl, rfl, rfl, .refl _⟩, fun _ _ hx => hx,
        fun _ _ hx => Or.inr hx, he, nofun⟩
      · exact fun x q hx => ⟨Or.inl hx, he x q q hx⟩
      · rintro x q s ⟨hx | hx, hn⟩ hs
        · exact hdrop.done x q s hx hs
        · exact absurd hx hn

theorem toldPager_respects {e : Eviction} (hm : m.swap.slots.Sound) (he : e.Apart)
    (h : toldPager m e = .ok p) :
    Respects e.holds (Need.holds e.need) (Need.holds e.need) m p := by
  cases toldPager_cases h with
  | orphaned coremap slots hfinish hrelease h =>
      have htable := (Coremap.finishEviction_ok hfinish).2.toSameTable
      have hboth : m.Drops (pair e.slot e.page) (pair e.slot e.page)
          ({ m with coremap }.putSlots slots).countEviction :=
        (Memory.Drops.of_releaseIfOwned hm hrelease).then_same rfl rfl htable
      have hfree : m.Drops (pair e.slot e.page) (fun _ _ => False)
          ({ m with coremap }.putSlots slots).countEviction :=
        hboth.mono (fun _ _ hx => hx) fun _ _ hx => hx.elim
      refine (Respects.after hfree (evictionEnded_respects hfree.slots.sound h)
        (fun x q hx => he x q q hx) fun _ _ hx => hx).mono (fun _ _ hx => hx) ?_ fun _ _ hx => hx
      exact fun _ _ => ⟨Or.inr, fun hx => hx.resolve_left id⟩
  | kept coremap hfinish h =>
      have htable := (Coremap.finishEviction_ok hfinish).2.toSameTable
      have hrest := evictionEnded_respects (m := { m with coremap }.countEviction) hm h
      refine (hrest.of_same hm rfl rfl htable).mono ?_ (fun _ _ => .rfl) fun _ _ hx => hx
      exact fun _ _ hx => Or.inr hx

/-! ## Going on -/

/-- The sector of the swap area that a stopped operation is about to overwrite. -/
def writes : Task → Nat → Place → Prop
  | .evictWriting e i => fun x j => x = e.slot ∧ j = i
  | .fillScrubbing f i => fun x j => x = f.slot ∧ j = i
  | _ => fun _ _ => False

/-- The frame that a stopped operation is about to read a sector into. -/
def fills : Task → Nat → Prop
  | .fillReading f _ => fun k => k = f.frame
  | _ => fun _ => False

/-- What the transfer of a sector leaves alone: the slot map, the frame table, all sectors of the
swap area but the one that is written, and all frames but the one that is filled. -/
structure Transfers (t : Task) (m m' : Memory) : Prop where
  slots : m'.swap.slots = m.swap.slots
  scrub : m'.swap.scrub = m.swap.scrub
  coremap : m'.coremap = m.coremap
  layout : m.swap.device.SameLayout m'.swap.device
  stored : ∀ x j, ¬ t.writes x j → m'.swap.device.stored x j = m.swap.device.stored x j
  ram : m'.ram.size = m.ram.size
  contents : ∀ k, ¬ t.fills k → m'.contents k = m.contents k

theorem Transfers.refl (t : Task) (m : Memory) : Transfers t m m :=
  ⟨rfl, rfl, rfl, .refl _, fun _ _ _ => rfl, rfl, fun _ _ => rfl⟩

/-- What going on does to the memory: slots that the operation owns may be let go of, those it had
hold of and has no more are, and of the contents one sector changes at most. -/
structure Resumes (t : Task) (m : Memory) (p : Piece) : Prop where
  area : p.memory.swap.Sound
  slots : m.swap.slots.LetsGo (fun x q => t.owns x q ∧ ¬ p.next.holds x q) p.memory.swap.slots
  done : ∀ x q s, t.holds x q → ¬ p.next.holds x q →
    p.memory.swap.slots.state? x = some (q, s) → s = .idle
  next : ∀ x q, p.next.owns x q → t.owns x q
  hands : ∀ x q, p.next.holds x q → t.holds x q
  proper : p.next.Proper p.memory.swap.device
  kept : ∀ x q e, t.keeps x q → p.next = .reply (.address (.error e)) → e ≠ .ownerReleased →
    m.swap.slots.state? x = some (q, .busy) → p.memory.swap.slots.state? x = some (q, .idle)
  layout : m.swap.device.SameLayout p.memory.swap.device
  stored : ∀ x j, ¬ t.writes x j → p.memory.swap.device.stored x j = m.swap.device.stored x j
  scrub : p.memory.swap.scrub = m.swap.scrub
  ram : p.memory.ram.size = m.ram.size
  contents : ∀ k, ¬ t.fills k → p.memory.contents k = m.contents k
  table : m.coremap.SameTable p.memory.coremap

/-- A transfer, and a piece behind it. -/
theorem Resumes.of_transfer {t : Task} {m' : Memory} (hm : m.swap.Sound)
    (ht : Transfers t m m') (h : Respects t.owns t.holds t.keeps m' p) : Resumes t m p := by
  have hlayout : m.swap.device.SameLayout p.memory.swap.device := by
    rw [h.drops.device]
    exact ht.layout
  have hslots := h.drops.slots
  have hkept := h.kept
  rw [ht.slots] at hslots hkept
  refine ⟨⟨hslots.sound, hm.fits.of_layout hlayout, ?_⟩, hslots, ?_, h.next, h.hands,
    h.proper, hkept, hlayout, ?_, ?_, ?_, ?_, ?_⟩
  · rw [hslots.capacity, hm.capacity, hlayout.slots]
  · intro x q s hx hn
    exact h.drops.done x q s ⟨hx, hn⟩
  · intro x j hx
    rw [h.drops.device]
    exact ht.stored x j hx
  · rw [h.drops.scrub, ht.scrub]
  · rw [h.drops.ram, ht.ram]
  · intro k hk
    unfold Memory.contents
    rw [h.drops.ram]
    exact ht.contents k hk
  · have htable := h.drops.table
    rw [ht.coremap] at htable
    exact htable

/-- What writing one sector of a slot leaves alone. -/
theorem transfers_store {t : Task} {slot : Nat} {i : Place} {data : Sector}
    {answer : Except SwapError Unit} {device : SwapDevice} (hm : m.swap.Sound)
    (hslot : slot < m.swap.device.slots) (hw : t.writes slot i)
    (h : m.swap.device.store slot i data = .ok (answer, device)) :
    Transfers t m (m.putDevice device) := by
  obtain ⟨hlayout, hother, -, -⟩ := SwapDevice.store_ok hm.fits hslot h
  refine ⟨rfl, rfl, rfl, hlayout, ?_, rfl, fun _ _ => rfl⟩
  intro x j hx
  refine hother x j ?_
  rintro ⟨rfl, rfl⟩
  exact hx hw

theorem writeNow_resumes {e : Eviction} {i : Place} (hm : m.swap.Sound)
    (ht : (Task.evictWriting e i).Proper m.swap.device) (h : writeNow m e i = .ok p) :
    Resumes (.evictWriting e i) m p := by
  have htrans : ∀ {answer device},
      m.swap.device.store e.slot i ((m.contents e.frame).get i) = .ok (answer, device) →
        Transfers (.evictWriting e i) m (m.putDevice device) :=
    fun hstore => transfers_store hm ht.2 ⟨rfl, rfl⟩ hstore
  cases writeNow_cases h with
  | failed device hstore h =>
      exact .of_transfer hm (htrans hstore) (writeFailed_respects hm.slots ht.1 h)
  | next device _ hstore _ h =>
      exact .of_transfer hm (htrans hstore) (writeAt_respects hm.slots ht.1 h)
  | last device _ hstore _ h =>
      exact .of_transfer hm (htrans hstore) (written_respects hm.slots ht.1 h)

theorem scrubNow_resumes {f : Filling} {i : Place} (hm : m.swap.Sound)
    (ht : (Task.fillScrubbing f i).Proper m.swap.device) (h : scrubNow m f i = .ok p) :
    Resumes (.fillScrubbing f i) m p := by
  have htrans : ∀ {answer device}, m.swap.device.store f.slot i .zero = .ok (answer, device) →
      Transfers (.fillScrubbing f i) m (m.putDevice device) :=
    fun hstore => transfers_store hm ht ⟨rfl, rfl⟩ hstore
  cases scrubNow_cases h with
  | failed device hstore h => exact .of_transfer hm (htrans hstore) (filled_respects hm.slots h)
  | next device _ hstore _ h =>
      exact .of_transfer hm (htrans hstore) (scrubAt_respects hm.slots h)
  | last device _ hstore _ h => exact .of_transfer hm (htrans hstore) (filled_respects hm.slots h)

/-- The contents of frames other than the one that is written. -/
theorem contents_putContents_ne {k frame : Nat} (c : Contents) (hk : k ≠ frame) :
    (m.putContents frame c).contents k = m.contents k := by
  unfold Memory.contents Memory.putContents
  dsimp only
  rw [Array.getElem?_setIfInBounds_ne (Ne.symm hk)]

theorem readNow_resumes {held : Bool} {f : Filling} {i : Place} (hm : m.swap.Sound)
    (ht : (Task.fillReading f i).Proper m.swap.device) (h : readNow held m f i = .ok p) :
    Resumes (.fillReading f i) m p := by
  -- whatever comes of the read, the slots and all other frames are as they were
  have hstored : ∀ {answer device}, m.swap.device.fetch f.slot i = .ok (answer, device) →
      m.swap.device.SameLayout device ∧ ∀ x j, device.stored x j = m.swap.device.stored x j := by
    intro answer device hfetch
    obtain ⟨hlayout, hsame, -⟩ := SwapDevice.fetch_ok hm.fits ht hfetch
    exact ⟨hlayout, fun x j => congrFun (hsame x) j⟩
  have htrans : ∀ {answer device} (c : Contents),
      m.swap.device.fetch f.slot i = .ok (answer, device) →
        Transfers (.fillReading f i) m ((m.putDevice device).putContents f.frame c) := by
    intro answer device c hfetch
    obtain ⟨hlayout, hsame⟩ := hstored hfetch
    exact ⟨rfl, rfl, rfl, hlayout, fun x j _ => hsame x j, Array.size_setIfInBounds,
      fun k hk => contents_putContents_ne c hk⟩
  cases readNow_cases h with
  | failed device hfetch h =>
      obtain ⟨hlayout, hsame⟩ := hstored hfetch
      have hfailed : Transfers (.fillReading f i) m (m.putDevice device) :=
        ⟨rfl, rfl, rfl, hlayout, fun x j _ => hsame x j, rfl, fun _ _ => rfl⟩
      exact .of_transfer hm hfailed (fillFailed_respects (m := m.putDevice device) hm.slots h)
  | next device data hfetch _ h =>
      exact .of_transfer hm (htrans _ hfetch) (readAt_respects hm.slots h)
  | last device data hfetch _ h =>
      exact .of_transfer hm (htrans _ hfetch) (slotRead_respects hm.slots h)

/-- **Going on respects all other hands**: an operation of the allocator's own that goes on changes
entries that it owns, one sector of its own slot and one frame of its own at most. -/
theorem resume_resumes {held : Bool} {t : Task} (hm : m.swap.Sound)
    (ht : t.Proper m.swap.device) (h : resume held m t = .ok p) : Resumes t m p := by
  cases t with
  | evictMapping e =>
      exact .of_transfer hm (.refl _ _) (writeAt_respects hm.slots ht (resume_evictMapping h).2)
  | evictWriting e i => exact writeNow_resumes hm ht h
  | evictTelling e => exact .of_transfer hm (.refl _ _) (toldPager_respects hm.slots ht h)
  | fillMapping f =>
      exact .of_transfer hm (.refl _ _) (readAt_respects hm.slots (resume_fillMapping h).2)
  | fillReading f i => exact readNow_resumes hm ht h
  | fillScrubbing f i => exact scrubNow_resumes hm ht h
  | slotReading slot buffer i => exact ht.elim
  | slotWriting slot data i => exact ht.elim

/-! ## Starting -/

/-- What starting does to the memory: slots that come into the operation's hands were free, or idle
and are a page-in's, and are busy now, and every other entry, all contents and all frames' places
stay as they are. -/
structure Takes (m : Memory) (p : Piece) : Prop where
  slots : p.memory.swap.slots.Sound
  capacity : p.memory.swap.slots.capacity = m.swap.slots.capacity
  kept : ∀ x, (∀ q, ¬ p.next.holds x q) →
    p.memory.swap.slots.state? x = m.swap.slots.state? x
  taken : ∀ x q, p.next.holds x q → p.memory.swap.slots.state? x = some (q, .busy) ∧
    (m.swap.slots.state? x = none ∨
      m.swap.slots.state? x = some (q, .idle) ∧ p.next.keeps x q)
  proper : p.next.Proper p.memory.swap.device
  device : p.memory.swap.device = m.swap.device
  scrub : p.memory.swap.scrub = m.swap.scrub
  ram : p.memory.ram = m.ram
  table : m.coremap.SameTable p.memory.coremap

/-- An operation that is over at once and leaves the swap area alone. -/
theorem Takes.reply {m' : Memory} {r : Reply} (hm : m.swap.slots.Sound)
    (hs : m'.swap = m.swap) (hr : m'.ram = m.ram) (ht : m.coremap.SameTable m'.coremap) :
    Takes m (finish m' notices r) := by
  refine ⟨?_, ?_, ?_, fun _ _ hx => hx.elim, trivial, ?_, ?_, hr, ht⟩
  · show m'.swap.slots.Sound
    rw [hs]
    exact hm
  · exact congrArg (fun a => a.slots.capacity) hs
  · intro x _
    exact congrArg (fun a => a.slots.state? x) hs
  · exact congrArg SwapArea.device hs
  · exact congrArg SwapArea.scrub hs

/-- Room is made with the hands the need has, or a free slot is reserved for a victim. -/
inductive MakesRoom (m : Memory) (need : Option Need) (p : Piece) : Prop
  | without (h : Respects (Need.holds need) (Need.holds need) (Need.holds need) m p)
  | evicting (e : Eviction) (hnext : p.next = .callOut (.evictMapping e)) (hneed : e.need = need)
      (free : m.swap.slots.state? e.slot = none)
      (sets : m.swap.slots.Sets e.slot (some (e.page, .busy)) p.memory.swap.slots)
      (device : p.memory.swap.device = m.swap.device)
      (scrub : p.memory.swap.scrub = m.swap.scrub) (ram : p.memory.ram = m.ram)
      (table : m.coremap.SameTable p.memory.coremap)

theorem MakesRoom.of_same {m' : Memory} {need : Option Need} (h : MakesRoom m' need p)
    (hm : m.swap.slots.Sound) (hs : m'.swap = m.swap) (hr : m'.ram = m.ram)
    (ht : m.coremap.SameTable m'.coremap) : MakesRoom m need p := by
  cases h with
  | without h => exact .without (h.of_same hm hs hr ht)
  | evicting e hnext hneed free sets device scrub ram table =>
      rw [hs] at free sets device scrub
      exact .evicting e hnext hneed free sets device scrub (ram.trans hr) (ht.trans table)

theorem evict_makesRoom {need : Option Need} (hm : m.swap.slots.Sound)
    (h : evict m need = .ok p) : MakesRoom m need p := by
  cases evict_cases h with
  | noVictim _ h => exact .without (evictionEnded_respects hm h)
  | noSlot coremap slots n hdetach _ hreserve hback h =>
      obtain ⟨-, u, -, -, hput⟩ := Coremap.detachOldest_ok hdetach
      obtain ⟨hswap, hram, htable⟩ := putBack_same hback
      have hsame : slots = m.swap.slots := (reserve_error hreserve).1
      have hswap' : n.swap = m.swap := by
        rw [hswap, hsame]
        rfl
      have hsound : n.swap.slots.Sound := by
        rw [hswap']
        exact hm
      exact .without ((evictionEnded_respects hsound h).of_same hm hswap' hram
        (hput.toSameTable.trans htable))
  | reserved coremap slots hdetach _ hreserve =>
      obtain ⟨-, u, -, -, hput⟩ := Coremap.detachOldest_ok hdetach
      obtain ⟨hfree, hset⟩ := reserve_ok hm hreserve
      exact .evicting _ rfl rfl hfree hset rfl rfl rfl hput.toSameTable

theorem provide_makesRoom {need : Need} (hm : m.swap.slots.Sound)
    (h : provide m need = .ok p) : MakesRoom m (some need) p := by
  cases provide_cases h with
  | tooFew _ h => exact .without (unmet_respects hm h)
  | room coremap _ hclaim h =>
      have hrest := met_respects (m := { m with coremap }) hm h
      exact .without (hrest.of_same hm rfl rfl (claimFor_table hclaim))
  | noRoom coremap _ hclaim h =>
      have hrest := evict_makesRoom (m := { m with coremap }) hm h
      exact hrest.of_same hm rfl rfl (claimFor_table hclaim)

/-- Making room for something that has hold of no slot. -/
theorem MakesRoom.takes {need : Option Need} (h : MakesRoom m need p)
    (hneed : ∀ x q, ¬ Need.holds need x q) : Takes m p := by
  cases h with
  | without h =>
      have hno : ∀ x q, ¬ p.next.holds x q := by
        intro x q hx
        exact hneed x q (h.next x q (Next.owns_of_holds hx))
      refine ⟨h.drops.slots.sound, h.drops.slots.capacity, ?_, fun x q hx => absurd hx (hno x q),
        h.proper, h.drops.device, h.drops.scrub, h.drops.ram, h.drops.table⟩
      intro x _
      rcases h.drops.slots.state x with hx | ⟨q, s, -, ho, -⟩
      · exact hx
      · exact absurd ho.1 (hneed x q)
  | evicting e hnext hn free sets device scrub ram table =>
      refine ⟨sets.sound, sets.capacity, ?_, ?_, ?_, device, scrub, ram, table⟩
      · intro x hx
        refine sets.other fun he => hx e.page ?_
        rw [hnext]
        exact Or.inl ⟨he, rfl⟩
      · intro x q hx
        rw [hnext] at hx
        rcases hx with ⟨rfl, rfl⟩ | hx
        · exact ⟨sets.self, Or.inl free⟩
        · rw [hn] at hx
          exact absurd hx (hneed x q)
      · rw [hnext]
        intro x q q' _ hx
        rw [hn] at hx
        exact hneed x q' hx

/-- A page-in that has had its one try, or that goes on to an eviction of its own: its slot is busy
as long as it has hold of it, and idle again if it has let go. -/
theorem Respects.takes_pageIn {page : Page} {slot : Nat} {slots : SlotMap}
    (hidle : m.swap.slots.state? slot = some (page, .idle))
    (hset : m.swap.slots.Sets slot (some (page, .busy)) slots)
    (hr : Respects (Need.holds (some (.pageIn page slot))) (Need.holds (some (.pageIn page slot)))
      (Need.holds (some (.pageIn page slot))) (m.putSlots slots) p)
    (hn : (∃ e, p.next = .callOut (.evictMapping e) ∧ e.need = some (.pageIn page slot)) ∨
      RoomTried page slot p.next) : Takes m p := by
  have hbusy : slots.state? slot = some (page, .busy) := hset.self
  refine ⟨hr.drops.slots.sound, hr.drops.slots.capacity.trans hset.capacity, ?_, ?_,
    hr.proper, hr.drops.device, hr.drops.scrub, hr.drops.ram, hr.drops.table⟩
  · intro x hx
    by_cases hxs : x = slot
    · -- the page-in has let go of its slot, so it ended with an error
      subst hxs
      rw [hidle]
      rcases hn with ⟨e, hnext, hneed⟩ | hroom
      · refine absurd ?_ (hx page)
        rw [hnext]
        refine Or.inr ?_
        rw [hneed]
        exact ⟨rfl, rfl⟩
      · cases hroom with
        | found f hn hslot hpage =>
            exact absurd (by rw [hn]; exact ⟨hslot.symm, hpage⟩) (hx page)
        | failed e hn he => exact hr.kept x page e ⟨rfl, rfl⟩ hn he hbusy
    · rcases hr.drops.slots.state x with hs | ⟨q, s, -, ho, -⟩
      · exact hs.trans (hset.other hxs)
      · exact absurd ho.1.1 hxs
  · intro x q hx
    obtain ⟨rfl, rfl⟩ := hr.next x q (Next.owns_of_holds hx)
    refine ⟨hr.drops.slots.unowned hbusy fun ho => ho.2 hx, Or.inr ⟨hidle, ?_⟩⟩
    rcases hn with ⟨e, hnext, hneed⟩ | hroom
    · rw [hnext]
      show Need.holds e.need x q
      rw [hneed]
      exact ⟨rfl, rfl⟩
    · cases hroom with
      | found f hn hslot hpage =>
          rw [hn]
          exact ⟨hslot.symm, hpage⟩
      | failed e hn he =>
          rw [hn] at hx
          exact hx.elim

/-- A page-in holds an idle slot of its page, and gives it back if no frame is to be had. -/
theorem pageIn_takes {page : Page} {slot : Nat} (hm : m.swap.slots.Sound)
    (h : pageIn m page slot = .ok p) : Takes m p := by
  cases pageIn_cases h with
  | @refused slots hhold =>
      have hsame : slots = m.swap.slots := hold_false hhold
      refine .reply hm ?_ rfl (.refl _)
      show ({ m.swap with slots } : SwapArea) = m.swap
      rw [hsame]
  | held slots hhold h =>
      obtain ⟨hidle, hset⟩ := hold_true hm hhold
      have hroom : MakesRoom (m.putSlots slots) (some (.pageIn page slot)) p :=
        provide_makesRoom hset.sound h
      have hbusy : slots.state? slot = some (page, .busy) := hset.self
      cases hroom with
      | without hr => exact hr.takes_pageIn hidle hset (provide_next h)
      | evicting e hnext hneed free sets device scrub ram table =>
          -- the reserved slot was free while the page's own slot was busy
          have hne : e.slot ≠ slot := by
            intro he
            have : slots.state? e.slot = none := free
            rw [he, hbusy] at this
            exact nomatch this
          refine ⟨sets.sound, sets.capacity.trans hset.capacity, ?_, ?_, ?_, device, scrub, ram,
            table⟩
          · intro x hx
            rw [hnext] at hx
            rw [sets.other fun he => hx e.page (Or.inl ⟨he, rfl⟩)]
            refine hset.other fun he => hx page (Or.inr ?_)
            rw [hneed]
            exact ⟨he, rfl⟩
          · intro x q hx
            rw [hnext] at hx
            rcases hx with ⟨rfl, rfl⟩ | hx
            · exact ⟨sets.self, Or.inl ((hset.other hne).symm.trans free)⟩
            · rw [hneed] at hx
              obtain ⟨rfl, rfl⟩ := hx
              refine ⟨(sets.other (Ne.symm hne)).trans hbusy, Or.inr ⟨hidle, ?_⟩⟩
              rw [hnext]
              show Need.holds e.need x q
              rw [hneed]
              exact ⟨rfl, rfl⟩
          · rw [hnext]
            rintro x q q' ⟨rfl, rfl⟩ hx
            rw [hneed] at hx
            exact hne hx.1

theorem allocate_takes {kind : FrameKind} {count : Nat} {page : Option Page} {seen : Bool}
    (hm : m.swap.slots.Sound) (h : allocate m kind count page seen = .ok p) : Takes m p := by
  cases allocate_cases h with
  | refused => exact .reply hm rfl rfl (.refl _)
  | provided _ h => exact (provide_makesRoom hm h).takes fun _ _ hx => hx

theorem free_takes {address : Nat} (hm : m.swap.slots.Sound) (h : free m address = .ok p) :
    Takes m p := by
  cases free_cases h with
  | noFrame => exact .reply hm rfl rfl (.refl _)
  | refused _ _ hrelease | freed _ _ hrelease | deferred _ _ hrelease =>
      exact .reply hm rfl rfl (Coremap.release_table hrelease)

theorem restore_takes {slot address : Nat} (hm : m.swap.slots.Sound)
    (h : restore m slot address = .ok p) : Takes m p := by
  cases restore_cases h with
  | noFrame | noSlot => exact .reply hm rfl rfl (.refl _)
  | filling =>
      refine ⟨hm, rfl, fun _ _ => rfl, ?_, trivial, rfl, rfl, rfl, .refl _⟩
      rintro x q ⟨-, hx⟩
      exact nomatch hx

theorem recordTlbSlot_takes {address : Nat} {slot : Option Nat} (hm : m.swap.slots.Sound)
    (h : recordTlbSlot m address slot = .ok p) : Takes m p := by
  cases recordTlbSlot_cases h with
  | noFrame => exact .reply hm rfl rfl (.refl _)
  | recorded _ _ hset => exact .reply hm rfl rfl (Coremap.setTlbSlot_alike hset).toSameTable

/-- What a teardown does: it is over at once, and sweeps the slot map. -/
structure TearsDown (space : Nat) (m : Memory) (p : Piece) : Prop where
  next : ∃ frames cleared, p.next = .reply (.tornDown frames cleared)
  slots : p.memory.swap.slots.Sound
  capacity : p.memory.swap.slots.capacity = m.swap.slots.capacity
  state : ∀ x, p.memory.swap.slots.state? x = swept space (m.swap.slots.state? x)
  device : p.memory.swap.device = m.swap.device
  scrub : p.memory.swap.scrub = m.swap.scrub
  ram : p.memory.ram = m.ram
  table : m.coremap.SameTable p.memory.coremap

theorem tearDown_tearsDown {space : Nat} (hm : m.swap.slots.Sound)
    (h : tearDown m space = .ok p) : TearsDown space m p := by
  obtain ⟨frames, coremap, cleared, slots, hframes, hslots, rfl⟩ := tearDown_eq_ok h
  obtain ⟨hsound, hcap, hstate⟩ := SlotMap.releaseSpace_ok hm hslots
  exact ⟨⟨frames, cleared, rfl⟩, hsound, hcap, hstate, rfl, rfl, rfl,
    (Coremap.releaseSpace_ok hframes).1⟩

/-- **Starting takes free and idle slots only**, whatever else is in flight. -/
theorem start_takes {held : Bool} {op : Operation} (hm : m.swap.slots.Sound)
    (hop : op.isManaged = true) (hno : ∀ space, op ≠ .tearDown space)
    (h : start held m op = .ok p) : Takes m p := by
  cases op with
  | allocate kind count page => exact allocate_takes hm h
  | free address => exact free_takes hm h
  | evict => exact (evict_makesRoom hm h).takes fun _ _ hx => hx
  | restore slot address => exact restore_takes hm h
  | pageIn page slot => exact pageIn_takes hm h
  | tearDown space => exact absurd rfl (hno space)
  | allocateSeen count => exact allocate_takes hm h
  | freeSeen seen =>
      cases freeSeen_cases h with
      | unseen => exact .reply hm rfl rfl (.refl _)
      | freed _ h => exact free_takes hm h
  | recordTlbSlot address slot => exact recordTlbSlot_takes hm h
  | readSlot slot buffer => exact nomatch hop
  | writeSlot slot buffer => exact nomatch hop
  | scrubSlot slot => exact nomatch hop

/-- Making room owns no more than it has hold of. -/
theorem MakesRoom.owns {need : Option Need} (h : MakesRoom m need p)
    (hneed : ∀ x q, ¬ Need.holds need x q) {x : Nat} {q : Page} (hx : p.next.owns x q) :
    p.next.holds x q := by
  cases h with
  | without h => exact absurd (h.next x q hx) (hneed x q)
  | evicting e hnext =>
      rw [hnext] at hx ⊢
      exact hx

/-- An operation that is no restore owns at first what it has hold of. -/
theorem start_owns {held : Bool} {op : Operation} (hm : m.swap.slots.Sound)
    (hop : op.guardsSlots = true) (h : start held m op = .ok p) {x : Nat} {q : Page}
    (hx : p.next.owns x q) : p.next.holds x q := by
  -- an operation that is over at once owns nothing
  have atOnce : (∃ r, p.next = .reply r) → p.next.holds x q := by
    rintro ⟨r, hr⟩
    rw [hr] at hx
    exact hx.elim
  cases op with
  | allocate kind count page | allocateSeen count =>
      cases allocate_cases h with
      | refused => exact atOnce ⟨_, rfl⟩
      | provided _ h => exact (provide_makesRoom hm h).owns (fun _ _ hn => hn) hx
  | evict => exact (evict_makesRoom hm h).owns (fun _ _ hn => hn) hx
  | pageIn page slot =>
      cases pageIn_cases h with
      | refused => exact atOnce ⟨_, rfl⟩
      | held _ _ h =>
          rcases provide_next h with ⟨e, hn, -⟩ | hroom
          · rw [hn] at hx ⊢
            exact hx
          · cases hroom with
            | found f hn hslot hpage =>
                rw [hn] at hx ⊢
                obtain ⟨rfl, hq⟩ := hx
                rw [hpage] at hq
                exact ⟨rfl, hpage.trans (hq.resolve_left nofun)⟩
            | failed e hn he => exact atOnce ⟨_, hn⟩
  | free address => exact atOnce ((free_rank m address).reply h)
  | freeSeen seen =>
      cases freeSeen_cases h with
      | unseen => exact atOnce ⟨_, rfl⟩
      | freed _ h => exact atOnce ((free_rank m _).reply h)
  | tearDown space =>
      obtain ⟨frames, cleared, hn⟩ := (tearDown_tearsDown hm h).next
      exact atOnce ⟨_, hn⟩
  | recordTlbSlot address slot =>
      cases recordTlbSlot_cases h with
      | noFrame | recorded => exact atOnce ⟨_, rfl⟩
  | restore slot address => exact nomatch hop
  | readSlot slot buffer => exact nomatch hop
  | writeSlot slot buffer => exact nomatch hop
  | scrubSlot slot => exact nomatch hop

end Task

/-! ## Probes -/

/-- What a probe that leaves the slot map alone leaves alone besides: the frame table and all that
is in the slots. -/
structure Probe.Leaves (m m' : Memory) : Prop where
  slots : m'.swap.slots = m.swap.slots
  scrub : m'.swap.scrub = m.swap.scrub
  coremap : m'.coremap = m.coremap
  layout : m.swap.device.SameLayout m'.swap.device
  stored : ∀ x, m'.swap.device.stored x = m.swap.device.stored x
  ram : m'.ram.size = m.ram.size

theorem Probe.Leaves.refl (m : Memory) : Probe.Leaves m m :=
  ⟨rfl, rfl, rfl, .refl _, fun _ => rfl, rfl⟩

theorem Probe.Leaves.area {m m' : Memory} (h : Probe.Leaves m m') (hm : m.swap.Sound) :
    m'.swap.Sound := by
  refine ⟨?_, hm.fits.of_layout h.layout, ?_⟩
  · rw [h.slots]
    exact hm.slots
  · rw [h.slots, hm.capacity, h.layout.slots]

/-- Telling the drive something else leaves its sectors alone. -/
theorem Probe.leaves_tell (m : Memory) (direction : Direction)
    (change : DriveFaults → DriveFaults) :
    Probe.Leaves m (m.putDrive (m.drive.tell direction change)) := by
  refine ⟨rfl, rfl, rfl, ⟨rfl, rfl, rfl⟩, fun x => ?_, rfl⟩
  funext i
  cases direction <;> rfl

theorem Probe.leaves_putContentsAt (m : Memory) (address : Nat) (c : Contents) :
    Probe.Leaves m (m.putContentsAt address c) := by
  unfold Memory.putContentsAt
  split
  · exact ⟨rfl, rfl, rfl, .refl _, fun _ => rfl, Array.size_setIfInBounds⟩
  · exact ⟨rfl, rfl, rfl, .refl _, fun _ => rfl, rfl⟩

theorem Probe.act_leaves {p : Probe} {m m' : Memory} {o : Outcome}
    (hp : p.leavesSlots = true) (h : p.act m = .ok (o, m')) : Probe.Leaves m m' := by
  cases p with
  | stats =>
      obtain ⟨_, -, h⟩ := Fault.bind_eq_ok.mp h
      cases h
      exact .refl _
  | frameCount => cases h; exact .refl _
  | tlbSlot address =>
      obtain ⟨_, -, h⟩ := Fault.bind_eq_ok.mp h
      cases h
      exact .refl _
  | reserveSlot page => exact nomatch hp
  | holdSlot slot page => exact nomatch hp
  | settleSlot slot page => exact nomatch hp
  | releaseSlot slot => exact nomatch hp
  | releaseSlotIfOwned slot page => exact nomatch hp
  | releaseSlots space => exact nomatch hp
  | isReserved slot =>
      obtain ⟨_, -, h⟩ := Fault.bind_eq_ok.mp h
      cases h
      exact .refl _
  | slotOwner slot => cases h; exact .refl _
  | swapInfo => cases h; exact .refl _
  | setFailing direction failing => cases h; exact leaves_tell _ _ _
  | setLimit direction limit => cases h; exact leaves_tell _ _ _
  | store address bytes =>
      obtain ⟨old, -, h⟩ := Fault.bind_eq_ok.mp h
      cases h
      exact leaves_putContentsAt _ _ _
  | contents address =>
      obtain ⟨_, -, h⟩ := Fault.bind_eq_ok.mp h
      cases h
      exact .refl _
  | map page address =>
      unfold Probe.act at h
      dsimp only at h
      split at h
      · cases h
        exact ⟨rfl, rfl, rfl, .refl _, fun _ => rfl, rfl⟩
      · cases h
        exact .refl _
  | entry page => cases h; exact .refl _

theorem Probe.perform_leaves {loans : List Task.Loan} {p : Probe} {m m' : Memory} {o : Outcome}
    (hp : p.leavesSlots = true) (h : p.perform loans m = .ok (o, m')) : Probe.Leaves m m' := by
  rcases perform_cases h with ⟨-, -, rfl⟩ | ⟨-, h⟩
  · exact .refl _
  · exact act_leaves hp h

end PhysMem
