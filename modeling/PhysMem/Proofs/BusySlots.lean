import PhysMem.Proofs.Calls
import PhysMem.Proofs.Transfers

/-!
# Busy slots — what an operation has hold of stays its own

At every call-out of an operation others may run, to any depth, and each of them may reserve, hold,
settle and release slots. None of them gets at a slot that an operation in flight has hold of: such
a slot is used, busy and the page's, so no reservation finds it, no hold succeeds on it, and a
teardown only orphans it. This is an invariant of the stack of calls, carried by the lemmas on
hands: what a call owns is apart from what the calls around it have hold of.

* **`HandsSound`** is the invariant, **`HandsSound.moved`** its preservation by one move.
* **`transfers`** is the slot that a call itself transfers, **`untransferred_of_resume`** says that it
  leaves all others alone.
* **`busy_slot_protocol`** is what it says of every run without bare restores.
-/

namespace PhysMem

open SlotMap

/-- The slot is used, it is busy, and it is the page's. -/
def Memory.Busy (m : Memory) (slot : Nat) (page : Page) : Prop :=
  ∃ s, m.swap.slots.state? slot = some (page, s) ∧ s ≠ .idle

/-- The words of the slot map show a busy slot, and no reservation finds it. -/
theorem Memory.Busy.flags {m : Memory} {slot : Nat} {page : Page} (hm : m.swap.Sound)
    (h : m.Busy slot page) :
    m.swap.slots.isUsed slot = .ok true ∧ m.swap.slots.isBusy slot = .ok true ∧
      m.swap.slots.owner slot = some page ∧
      ∀ other taken slots, m.swap.slots.reserve other = .ok (.ok taken, slots) → taken ≠ slot := by
  obtain ⟨s, hs, hne⟩ := h
  have howner : m.swap.slots.owner slot = some page := owner_of_state? hs
  have hlt : slot < m.swap.slots.capacity := lt_capacity_of_owner howner
  have hbusy : m.swap.slots.busy.bit slot = true := (busy_bit_iff hm.slots hs).mpr hne
  refine ⟨isUsed_of_owner hm.slots howner, ?_, howner, ?_⟩
  · unfold isBusy
    rw [if_pos hlt, Bits.get_eq_ok_of_bit hbusy]
  · rintro other taken slots hreserve rfl
    have hfree := (reserve_ok hm.slots hreserve).1
    rw [hs] at hfree
    exact nomatch hfree

/-- What settling makes of a slot that was so: a busy one is idle, and an orphaned one is free. -/
def Memory.Settled (m : Memory) (slot : Nat) (page : Page) : SlotState → Prop
  | .idle => False
  | .busy => m.swap.slots.state? slot = some (page, .idle)
  | .orphaned => m.swap.slots.state? slot = none

namespace Task

/-- The slot that the operation itself transfers, with its page. The slot of a page-in that waits for
room is not among those of the eviction that makes it. -/
def transfers : Task → Nat → Page → Prop
  | .evictMapping e | .evictWriting e _ | .evictTelling e => pair e.slot e.page
  | .fillMapping f | .fillReading f _ | .fillScrubbing f _ => f.holds
  | .slotReading .. | .slotWriting .. => fun _ _ => False

theorem owns_of_transfers {t : Task} {x : Nat} {q : Page} (h : t.transfers x q) : t.owns x q := by
  cases t with
  | evictMapping e | evictWriting e i | evictTelling e => exact Or.inl h
  | fillMapping f | fillReading f i | fillScrubbing f i => exact ⟨h.1, Or.inr h.2⟩
  | slotReading slot buffer i | slotWriting slot data i => exact h

/-- What an operation owns it transfers, or a page-in waits there for its eviction, unless it is a
bare restore. -/
theorem Serves.transfers_or_waits {op : Operation} {t : Task} {x : Nat} {q : Page}
    (h : t.Serves op) (hop : op.guardsSlots = true) (ho : t.owns x q) :
    t.transfers x q ∨ ∃ e, t.eviction? = some e ∧ Need.holds e.need x q := by
  have filling : ∀ f, t.filling? = some f → f.owns x q → f.holds x q := by
    intro f hf hx
    obtain ⟨page, hpage⟩ := h.filling_page hop hf
    exact ⟨hx.1, hx.2.resolve_left fun hnone => nomatch hpage.symm.trans hnone⟩
  cases t with
  | evictMapping e | evictWriting e i | evictTelling e => exact ho.imp id fun hx => ⟨e, rfl, hx⟩
  | fillMapping f | fillReading f i | fillScrubbing f i => exact Or.inl (filling f rfl ho)
  | slotReading slot buffer i | slotWriting slot data i => exact ho.elim

/-- A page-in that waits for an eviction and lets go of its slot has failed. -/
theorem Follows.fails {t : Task} {n : Next} {e : Eviction} {x : Nat} {q : Page} (h : t.Follows n)
    (he : t.eviction? = some e) (hneed : Need.holds e.need x q) (hno : ¬ n.holds x q) :
    ∃ e, n = .reply (.address (.error e)) ∧ e ≠ .ownerReleased := by
  cases h with
  | written e' | nextWritten e' hij =>
      cases he
      exact absurd (Or.inr hneed) hno
  | told e' hi =>
      cases he
      exact absurd hneed hno
  | ended e' ht hend =>
      obtain rfl : e' = e := by
        rcases ht with rfl | ⟨i, rfl⟩ | rfl <;> exact Option.some.inj he
      exact hend.fails hneed hno
  | unread f ht ha => rcases ht with rfl | ⟨i, rfl⟩ <;> exact nomatch he
  | full f ht ha => rcases ht with ⟨i, rfl, -⟩ | ⟨i, rfl⟩ <;> exact nomatch he
  | _ => exact nomatch he

end Task

namespace Machine

/-- Every slot that one of some calls has hold of is busy for its page, and none of them is among
what a call further in owns. -/
structure HandsSound (m : Memory) (calls : List Call) : Prop where
  busy : ∀ c ∈ calls, ∀ x q, c.task.holds x q → m.Busy x q
  apart : calls.Pairwise fun inner outer =>
    ∀ x q q', inner.task.owns x q → ¬ outer.task.holds x q'

/-- Without calls there are no hands. -/
theorem HandsSound.nil (m : Memory) : HandsSound m [] := ⟨List.forall_mem_nil _, .nil⟩

/-- A busy slot stays busy when an operation starts. -/
theorem busy_of_takes {m : Memory} {p : Task.Piece} (h : Task.Takes m p) {x : Nat} {q : Page}
    (hb : m.Busy x q) : p.memory.Busy x q ∧ ∀ q', ¬ p.next.holds x q' := by
  obtain ⟨s, hs, hne⟩ := hb
  have hno : ∀ q', ¬ p.next.holds x q' := by
    intro q' hx
    rcases (h.taken x q' hx).2 with hfree | ⟨hidle, -⟩
    · exact nomatch hs.symm.trans hfree
    · cases hs.symm.trans hidle
      exact hne rfl
  refine ⟨⟨s, ?_, hne⟩, hno⟩
  rw [h.kept x hno]
  exact hs

/-- A teardown orphans a busy slot and leaves it to its page. -/
theorem busy_of_tearsDown {space : Nat} {m : Memory} {p : Task.Piece}
    (h : Task.TearsDown space m p) {x : Nat} {q : Page} (hb : m.Busy x q) :
    p.memory.Busy x q := by
  obtain ⟨s, hs, hne⟩ := hb
  unfold Memory.Busy
  rw [h.state, hs]
  by_cases hspace : q.space = space
  · rw [swept_busy hspace hne]
    exact ⟨.orphaned, rfl, nofun⟩
  · rw [swept_other hspace]
    exact ⟨s, rfl, hne⟩

/-- What an operation has hold of and keeps stays busy when it goes on, and so does everything that
it does not own. -/
theorem busy_of_resumes {t : Task} {m : Memory} {p : Task.Piece} (h : Task.Resumes t m p)
    {x : Nat} {q : Page} (hb : m.Busy x q) (hx : ¬ t.owns x q ∨ p.next.holds x q) :
    p.memory.Busy x q := by
  obtain ⟨s, hs, hne⟩ := hb
  refine ⟨s, h.slots.unowned hs ?_, hne⟩
  rintro ⟨howns, hno⟩
  exact hx.elim (fun h => h howns) hno

/-- The calls that a piece leaves behind. -/
theorem HandsSound.follow {op : Operation} {outer : List Call} {p : Task.Piece}
    (hbusy : ∀ x q, p.next.holds x q → p.memory.Busy x q)
    (busy : ∀ c ∈ outer, ∀ x q, c.task.holds x q → p.memory.Busy x q)
    (hapart : ∀ c ∈ outer, ∀ x q q', p.next.owns x q → ¬ c.task.holds x q')
    (apart : outer.Pairwise fun inner outer =>
      ∀ x q q', inner.task.owns x q → ¬ outer.task.holds x q') :
    HandsSound p.memory (Machine.follow op outer p).1.calls := by
  obtain ⟨-, ⟨task, hnext, hcalls, -⟩ | ⟨reply, -, hcalls, -⟩⟩ := follow_calls op outer p
  · rw [hnext] at hbusy hapart
    rw [hcalls]
    exact ⟨List.forall_mem_cons.mpr ⟨hbusy, busy⟩, .cons hapart apart⟩
  · rw [hcalls]
    exact ⟨busy, apart⟩

/-- What a call owns at first it has just taken, and it did not take a busy slot. -/
theorem HandsSound.started {m : Memory} {calls : List Call} (h : HandsSound m calls)
    {op : Operation} {p : Task.Piece} (takes : Task.Takes m p)
    (howns : ∀ x q, p.next.owns x q → p.next.holds x q) :
    HandsSound p.memory (Machine.follow op calls p).1.calls := by
  refine .follow ?_ ?_ ?_ h.apart
  · intro x q hx
    exact ⟨.busy, (takes.taken x q hx).1, nofun⟩
  · intro c hc x q hx
    exact (busy_of_takes takes (h.busy c hc x q hx)).1
  · intro c hc x q q' hx hheld
    exact (busy_of_takes takes (h.busy c hc x q' hheld)).2 q (howns x q hx)

theorem HandsSound.toreDown {m : Memory} {calls : List Call} (h : HandsSound m calls)
    {space : Nat} {p : Task.Piece} (tears : Task.TearsDown space m p) :
    HandsSound p.memory calls := by
  refine ⟨?_, h.apart⟩
  intro c hc x q hx
  exact busy_of_tearsDown tears (h.busy c hc x q hx)

/-- A call that goes on keeps its hands off those of the calls around it. -/
theorem HandsSound.resumed {m : Memory} {call : Call} {outer : List Call}
    (h : HandsSound m (call :: outer)) {op : Operation} {p : Task.Piece}
    (resumes : Task.Resumes call.task m p) :
    HandsSound p.memory (Machine.follow op outer p).1.calls := by
  obtain ⟨hbusy, hbusies⟩ := List.forall_mem_cons.mp h.busy
  obtain ⟨hapart, haparts⟩ := List.pairwise_cons.mp h.apart
  refine .follow ?_ ?_ ?_ haparts
  · intro x q hx
    exact busy_of_resumes resumes (hbusy x q (resumes.hands x q hx)) (Or.inr hx)
  · intro c hc x q hx
    refine busy_of_resumes resumes (hbusies c hc x q hx) (Or.inl ?_)
    intro howns
    exact hapart c hc x q q howns hx
  · intro c hc x q q' hx
    exact hapart c hc x q q' (resumes.next x q hx)

theorem HandsSound.probed {m m' : Memory} {calls : List Call} (h : HandsSound m calls)
    (leaves : Probe.Leaves m m') : HandsSound m' calls := by
  refine ⟨?_, h.apart⟩
  intro c hc x q hx
  unfold Memory.Busy
  rw [leaves.slots]
  exact h.busy c hc x q hx

/-- **One move keeps all hands**: whatever the rules let happen, every slot in hand stays busy for
its page, and the hands stay apart. -/
theorem HandsSound.moved {w w' : Machine} {move : Move} {events : List Event} (hs : w.Sound)
    (hw : HandsSound w.memory w.calls) (hrule : guarded w move = true)
    (h : Moved w move w' events) : HandsSound w'.memory w'.calls := by
  cases h with
  | @started op p hop hno hp takes hauls serves =>
      rw [follow_memory]
      exact hw.started takes fun x q => Task.start_owns hs.area.slots hrule hp
  | toreDown tears hauls gaveUp => exact hw.toreDown tears
  | @resumed call outer p hcalls hp resumes hauls follows =>
      rw [hcalls] at hw
      rw [follow_memory]
      exact hw.resumed resumes
  | rested hcalls => exact hw
  | probed hp leaves => exact hw.probed leaves

/-- The hands of a run are sound at every moment. -/
theorem HandsSound.of_run {m : Memory} {moves : List Move} {w : Machine} {events : List Event}
    (hm : m.IsFresh) (h : (Machine.idle m).run guarded moves = some (w, events)) :
    w.Sound ∧ HandsSound w.memory w.calls :=
  Sound.run_induction (P := fun w _ => HandsSound w.memory w.calls) (l := [])
    (fun _ _ => managed_of_guarded) (fun _ _ _ _ _ hs hw hrule hmoved => hw.moved hs hrule hmoved)
    (.idle hm) (.nil m) h

/-- In runs without bare restores no call is one. -/
theorem guards_of_run {m : Memory} {moves : List Move} {w : Machine} {events : List Event}
    (hm : m.IsFresh) (hrun : (Machine.idle m).run guarded moves = some (w, events)) :
    ∀ call ∈ w.calls, call.op.guardsSlots = true := by
  refine (Sound.run_induction (P := fun w _ => ∀ call ∈ w.calls, call.op.guardsSlots = true)
    (l := []) (fun _ _ => managed_of_guarded) ?_ (.idle hm) (List.forall_mem_nil _) hrun).2
  intro w past move w' events hs h hrule hmoved
  cases hmoved with
  | started hop hno hp takes hauls serves => exact forall_follow (fun _ _ => hrule) h
  | toreDown tears hauls gaveUp => exact h
  | @resumed call outer p hcalls hp resumes hauls follows =>
      obtain ⟨hguard, hguards⟩ := List.forall_mem_cons.mp (hcalls ▸ h)
      exact forall_follow (fun _ _ => hguard) hguards
  | rested hcalls => exact h
  | probed hp leaves => exact h

/-! ## The protocol -/

/-- A page-in has hold of its slot at every call-out. -/
theorem holds_of_serves {t : Task} {page : Page} {slot : Nat} (h : t.Serves (.pageIn page slot)) :
    t.holds slot page := by
  -- the page-in waits for an eviction, or its frame is being filled
  have waiting : ∀ need, Task.NeedServes (.pageIn page slot) need → Need.holds need slot page := by
    intro need hneed
    rw [hneed.of_pageIn]
    exact ⟨rfl, rfl⟩
  have filling : ∀ f, Task.FillServes (.pageIn page slot) f → f.holds slot page := by
    intro f hf
    cases hp : f.page with
    | none => exact nomatch hf.of_none hp
    | some q =>
        cases hf.of_page hp
        exact ⟨rfl, hp⟩
  cases t with
  | evictMapping e => exact Or.inr (waiting e.need h)
  | evictWriting e i => exact Or.inr (waiting e.need h)
  | evictTelling e => exact waiting e.need h
  | fillMapping f => exact filling f h
  | fillReading f i => exact filling f h
  | fillScrubbing f i => exact filling f h
  | slotReading slot buffer i => exact h.elim
  | slotWriting slot data i => exact h.elim

/-- A sector that an operation is about to write lies in the slot that it transfers. -/
theorem transfers_of_writes {w : Machine} (hs : w.Sound) (hands : HandsSound w.memory w.calls)
    {call : Call} (hmem : call ∈ w.calls) (hguard : call.op.guardsSlots = true) {slot : Nat} {i : Place}
    {page : Page} {s : SlotState} (hw : call.task.writes slot i)
    (hstate : w.memory.swap.slots.state? slot = some (page, s)) : call.task.transfers slot page := by
  have same : ∀ q, call.task.holds slot q → q = page := by
    intro q hholds
    obtain ⟨s', hs', -⟩ := hands.busy call hmem slot q hholds
    exact congrArg Prod.fst (Option.some.inj (hs'.symm.trans hstate))
  have serves := hs.serves call hmem
  cases htask : call.task with
  | evictWriting e j =>
      rw [htask] at hw same
      obtain ⟨rfl, -⟩ := hw
      exact ⟨rfl, (same e.page (Or.inl ⟨rfl, rfl⟩)).symm⟩
  | fillScrubbing f j =>
      rw [htask] at hw same serves
      obtain ⟨rfl, -⟩ := hw
      obtain ⟨q, hq⟩ := serves.filling_page hguard rfl
      exact ⟨rfl, hq.trans (congrArg some (same q ⟨rfl, hq⟩))⟩
  | _ =>
      rw [htask] at hw
      exact hw.elim

/-- **A call that goes on leaves alone what it does not transfer.** Only a page-in that waited for it
and has failed settles its own slot. -/
theorem untransferred_of_resume {w : Machine} (hs : w.Sound) (hands : HandsSound w.memory w.calls)
    (guards : ∀ c ∈ w.calls, c.op.guardsSlots = true) {call : Call} {outer : List Call}
    {p : Task.Piece} (hcalls : w.calls = call :: outer)
    (hp : Task.resume (deviceHeld outer) w.memory call.task = .ok p) {slot : Nat} {page : Page}
    {s : SlotState} (hstate : w.memory.swap.slots.state? slot = some (page, s))
    (hother : ¬ call.task.transfers slot page) :
    p.memory.swap.device.stored slot = w.memory.swap.device.stored slot ∧
      (p.memory.swap.slots.state? slot = some (page, s) ∨ call.op = .pageIn page slot ∧
        (∃ e, p.next = .reply (.address (.error e))) ∧ p.memory.Settled slot page s) := by
  have hmem : call ∈ w.calls := hcalls ▸ List.mem_cons_self
  have serves := hs.serves call hmem
  have resumes := Task.resume_resumes hs.area (hs.proper call hmem) hp
  refine ⟨funext fun i => resumes.stored slot i fun hw => ?_, ?_⟩
  · exact hother (transfers_of_writes hs hands hmem (guards call hmem) hw hstate)
  rcases resumes.slots.state slot with hsame | ⟨q, s', hs', ⟨howns, hno⟩, hgone⟩
  · exact Or.inl (hsame.trans hstate)
  · cases hs'.symm.trans hstate
    obtain ⟨e, he, hneed⟩ := (serves.transfers_or_waits (guards call hmem) howns).resolve_left hother
    obtain ⟨error, hn, herror⟩ :=
      (Task.resume_follows serves.isManaged hp).fails he hneed hno
    have hkeeps : call.task.keeps slot page := by
      cases htask : call.task <;> rw [htask] at he <;> cases he <;> exact hneed
    obtain ⟨s', hs', hbusy⟩ := hands.busy call hmem slot page (Task.holds_of_keeps hkeeps)
    cases hs'.symm.trans hstate
    refine Or.inr ⟨serves.of_keeps hkeeps, ⟨error, hn⟩, ?_⟩
    cases s with
    | idle => exact absurd rfl hbusy
    | busy => exact resumes.kept slot page error hkeeps hn herror hstate
    | orphaned => exact hgone.resolve_right fun hidle => hidle.1 rfl

/-- **The busy-slot protocol**, at every moment of every run without bare restores.

At every call-out a page-in in flight has hold of its slot, and every slot that an operation has
hold of is used, busy and the page's, and is found by no reservation. When the innermost operation
goes on, it leaves the bytes of every reserved slot alone but those of the slot that it transfers
itself, and the entry too; but a page-in that waited for room and fails there settles its own slot.
An operation that starts leaves all bytes alone, and all entries of reserved slots but that of the
slot that a page-in takes hold of, unless it is a teardown. -/
theorem busy_slot_protocol {m : Memory} {moves : List Move} {w : Machine} {events : List Event}
    (hm : m.IsFresh) (hrun : (Machine.idle m).run guarded moves = some (w, events)) :
    (∀ c ∈ w.calls,
      (∀ page slot, c.op = .pageIn page slot → c.task.holds slot page) ∧
      ∀ slot page, c.task.holds slot page →
        w.memory.swap.slots.isUsed slot = .ok true ∧ w.memory.swap.slots.isBusy slot = .ok true ∧
        w.memory.swap.slots.owner slot = some page ∧
        ∀ other taken slots,
          w.memory.swap.slots.reserve other = .ok (.ok taken, slots) → taken ≠ slot) ∧
    (∀ call outer piece, w.calls = call :: outer →
      Task.resume (deviceHeld outer) w.memory call.task = .ok piece →
      ∀ slot page s, w.memory.swap.slots.state? slot = some (page, s) →
        ¬ call.task.transfers slot page →
        piece.memory.swap.device.stored slot = w.memory.swap.device.stored slot ∧
        (piece.memory.swap.slots.state? slot = some (page, s) ∨ call.op = .pageIn page slot ∧
          (∃ e, piece.next = .reply (.address (.error e))) ∧ piece.memory.Settled slot page s)) ∧
    (∀ op piece, op.guardsSlots = true → (∀ space, op ≠ .tearDown space) →
      Task.start (deviceHeld w.calls) w.memory op = .ok piece →
      ∀ slot page s, w.memory.swap.slots.state? slot = some (page, s) →
        piece.memory.swap.device.stored slot = w.memory.swap.device.stored slot ∧
        (piece.memory.swap.slots.state? slot = some (page, s) ∨ op = .pageIn page slot ∧
          s = .idle ∧ piece.memory.swap.slots.state? slot = some (page, .busy))) := by
  obtain ⟨hs, hands⟩ := HandsSound.of_run hm hrun
  refine ⟨?_, ?_, ?_⟩
  · intro c hc
    refine ⟨?_, ?_⟩
    · intro page slot hop
      have hserves := hs.serves c hc
      rw [hop] at hserves
      exact holds_of_serves hserves
    · intro slot page hx
      exact (hands.busy c hc slot page hx).flags hs.area
  · intro call outer piece hcalls hp slot page s hstate hother
    exact untransferred_of_resume hs hands (guards_of_run hm hrun) hcalls hp hstate hother
  · intro op piece hop hno hp slot page s hstate
    have hmanaged := isManaged_of_guardsSlots hop
    have takes := Task.start_takes hs.area.slots hmanaged hno hp
    refine ⟨by rw [takes.device], ?_⟩
    by_cases hx : ∃ q, piece.next.holds slot q
    · -- what is taken is free or idle, and idle slots are taken by page-ins only
      obtain ⟨q, hx⟩ := hx
      obtain ⟨hbusy, hfree | ⟨hidle, hkeeps⟩⟩ := takes.taken slot q hx
      · exact nomatch hstate.symm.trans hfree
      · cases hstate.symm.trans hidle
        cases hnext : piece.next with
        | reply r =>
            rw [hnext] at hx
            exact hx.elim
        | callOut t =>
            rw [hnext] at hkeeps
            have hserves := (Task.start_serves hmanaged hp hnext).1
            exact Or.inr ⟨hserves.of_keeps hkeeps, rfl, hbusy⟩
    · refine Or.inl ?_
      rw [takes.kept slot fun q hq => hx ⟨q, hq⟩]
      exact hstate

/-- A page of space 1 goes to slot 0 with a byte that was stored. Then space 2 gets both frames, and
the page is brought back, which evicts to slot 1. Ahead of the first sector space 1 is torn down. -/
def tornDownWaiting : List Move :=
  [.start (.allocate .user 1 (some ⟨1, 0⟩)), .probe (.store 4096 #[7]), .start .evict] ++
    List.replicate 10 .resume ++
    [.start (.allocate .user 1 (some ⟨2, 0⟩)), .start (.allocate .user 1 (some ⟨2, 1⟩)),
      .start (.pageIn ⟨1, 0⟩ 0), .resume, .start (.tearDown 1)]

/-- A page-in waits for an eviction. Both have their slots, and when the eviction writes its first
sector, the slot of the page-in keeps its byte and stays orphaned. -/
theorem busy_slot_protocol_of_tornDownWaiting :
    ∃ w events call piece, (Machine.idle .small).run guarded tornDownWaiting = some (w, events) ∧
      w.calls = [call] ∧ call.op = .pageIn ⟨1, 0⟩ 0 ∧
      call.task = .evictWriting ⟨0, 4096, ⟨2, 0⟩, 1, some (.pageIn ⟨1, 0⟩ 0)⟩ Task.firstPlace ∧
      w.memory.swap.slots.isBusy 0 = .ok true ∧ w.memory.swap.slots.owner 0 = some ⟨1, 0⟩ ∧
      w.memory.swap.slots.isBusy 1 = .ok true ∧ w.memory.swap.slots.owner 1 = some ⟨2, 0⟩ ∧
      Task.resume false w.memory call.task = .ok piece ∧
      (piece.memory.swap.device.stored 0 Task.firstPlace).map (·[0]) = some 7 ∧
      piece.memory.swap.slots.state? 0 = some (⟨1, 0⟩, .orphaned) := by
  let e : Eviction := ⟨0, 4096, ⟨2, 0⟩, 1, some (.pageIn ⟨1, 0⟩ 0)⟩
  have hseen : ((Machine.idle .small).run guarded tornDownWaiting).bind (fun r =>
        (r.1.run guarded [.resume]).map fun s =>
          ([r.1.calls, s.1.calls], (r.1.memory.swap.device.stored 0 Task.firstPlace).map (·[0]),
            r.1.memory.swap.slots.state? 0)) =
      some ([[⟨.pageIn ⟨1, 0⟩ 0, .evictWriting e Task.firstPlace⟩],
        [⟨.pageIn ⟨1, 0⟩ 0, .evictWriting e ⟨1, by decide⟩⟩]], some 7,
        some (⟨1, 0⟩, .orphaned)) := by decide +kernel
  obtain ⟨⟨w, events⟩, hrun, hseen⟩ := Option.bind_eq_some_iff.mp hseen
  obtain ⟨⟨w', more⟩, hmore, hseen⟩ := Option.map_eq_some_iff.mp hseen
  simp only [Prod.mk.injEq, List.cons.injEq, and_true] at hseen
  obtain ⟨⟨hcalls, hcalls'⟩, hbyte, hstate⟩ := hseen
  obtain ⟨piece, hp, rfl, -⟩ := resume_of_calls hcalls (run_one hmore).2
  obtain ⟨hheld, hgoes, -⟩ := busy_slot_protocol Memory.small_isFresh hrun
  have hmem := hcalls ▸ List.mem_cons_self
  obtain ⟨-, hwaits, howner, -⟩ := (hheld _ hmem).2 0 ⟨1, 0⟩ (Or.inr ⟨rfl, rfl⟩)
  obtain ⟨-, hwrites, howner', -⟩ := (hheld _ hmem).2 1 ⟨2, 0⟩ (Or.inl ⟨rfl, rfl⟩)
  obtain ⟨hsame, hentry⟩ := hgoes _ _ piece hcalls hp 0 ⟨1, 0⟩ _ hstate (fun h => nomatch h.1)
  refine ⟨w, events, _, piece, hrun, hcalls, rfl, rfl, hwaits, howner, hwrites, howner', hp, ?_, ?_⟩
  · rw [hsame]
    exact hbyte
  · refine hentry.resolve_right fun ⟨_, ⟨error, hn⟩, _⟩ => ?_
    -- the eviction has come to its next sector
    unfold follow at hcalls'
    rw [hn] at hcalls'
    exact nomatch hcalls'

end Machine

end PhysMem
