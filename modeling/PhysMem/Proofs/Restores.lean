import PhysMem.Proofs.BusySlots
import PhysMem.Proofs.Transfers

/-!
# Restores — transfers that hold nothing

A restore looks once whether its slot is used. It does not hold the slot, and in the end it releases
it whoever has it by then. So it keeps to the reservation that it found only as long as that lasts:
if the space of the page is torn down at a call-out and another page is evicted to the slot, the
restore reads, overwrites and releases what is the other page's. A restore at a call-out of an
operation that holds the slot takes the slot from it.

* **`Around`** is the invariant of a restore in flight, for what it found and for the calls inside.
* **`Around.moved`** is its preservation by one move, **`Around.of_run`** by a run.
* **`restore_spares_others_iff`** says exactly when a restore spares the reservations that it did not
  find, and what it does to its slot.
-/

namespace PhysMem

open SlotMap

namespace Task

/-- The slot of an eviction that has not come to its end. -/
def evictSlot? : Task → Option Nat
  | .evictMapping e | .evictWriting e _ | .evictTelling e => some e.slot
  | _ => none

/-- An eviction goes on with the same slot, and what comes behind it is none. -/
theorem Follows.evictSlot? {t t' : Task} {x : Nat} (h : t.Follows (.callOut t'))
    (hx : t'.evictSlot? = some x) : t.evictSlot? = some x := by
  generalize hn : Next.callOut t' = n at h
  cases h with
  | written e =>
      cases hn
      exact hx
  | nextWritten e hij =>
      cases hn
      exact hx
  | told e hi =>
      cases hn
      exact hx
  | ended e ht hend =>
      subst hn
      obtain ⟨f, rfl⟩ := hend.fills
      exact nomatch hx
  | read f =>
      cases hn
      exact nomatch hx
  | nextRead f hij =>
      cases hn
      exact nomatch hx
  | scrubbed f hi =>
      cases hn
      exact nomatch hx
  | nextScrubbed f hij =>
      cases hn
      exact nomatch hx
  | unread f ht ha => exact nomatch hn
  | full f ht ha => exact nomatch hn

/-- An eviction that starts takes a slot that was free. -/
theorem Takes.evictSlot? {m : Memory} {p : Piece} {t : Task} {x : Nat} (h : Takes m p)
    (hn : p.next = .callOut t) (hmaps : t.site = .map) (hx : t.evictSlot? = some x) :
    m.swap.slots.state? x = none := by
  cases t with
  | evictMapping e =>
      cases hx
      have hproper := h.proper
      have htaken := h.taken e.slot e.page
      rw [hn] at hproper htaken
      rcases (htaken (Or.inl ⟨rfl, rfl⟩)).2 with hfree | ⟨-, hk⟩
      · exact hfree
      · exact absurd hk (hproper e.slot e.page e.page ⟨rfl, rfl⟩)
  | fillMapping f => exact nomatch hx
  | _ => exact nomatch hmaps

end Task

namespace Machine

variable {w : Machine}

/-- **A slot that stays a page's keeps its bytes** when a call goes on, unless the call evicts to the
slot or is still overwriting it. -/
theorem stored_of_resumes (hs : w.Sound) {call : Call} {held : Bool} {p : Task.Piece} {x : Nat}
    {page : Page} (hmem : call ∈ w.calls) (hguard : call.op.guardsSlots = true)
    (hbusy : ∀ y q, call.task.holds y q → w.memory.Busy y q)
    (hp : Task.resume held w.memory call.task = .ok p)
    (resumes : Task.Resumes call.task w.memory p)
    (hevict : ∀ e i, call.task = .evictWriting e i → e.slot ≠ x)
    (howner : p.memory.swap.slots.owner x = some page)
    (hnext : ∀ t, p.next = .callOut t → ¬ t.scrubs x) : ¬ call.task.scrubs x ∧
      p.memory.swap.device.stored x = w.memory.swap.device.stored x := by
  -- a page-in that is done with overwriting the slot has released it
  have hidle : ¬ call.task.scrubs x := by
    intro hscrubs
    have hserves := hs.serves call hmem
    cases hc : call.task with
    | fillScrubbing f i =>
        rw [hc] at hp hscrubs hserves hbusy
        obtain rfl : x = f.slot := hscrubs
        obtain ⟨q, hpage⟩ := hserves.filling_page hguard rfl
        obtain ⟨s, hs', -⟩ := hbusy f.slot q ⟨rfl, hpage⟩
        have hq := owner_of_state? hs'
        rcases Task.scrubNow_releases hs.area.slots hpage hq hp with ⟨t, ht, hx⟩ | hfree
        · exact hnext t ht hx
        · exact nomatch howner.symm.trans (state?_eq_none.mp hfree)
    | _ =>
        rw [hc] at hscrubs
        exact hscrubs.elim
  refine ⟨hidle, funext fun i => resumes.stored _ i fun hw => ?_⟩
  cases hc : call.task with
  | evictWriting e j =>
      rw [hc] at hw
      exact hevict e j hc hw.1.symm
  | fillScrubbing f j =>
      rw [hc] at hw hidle
      exact hidle hw.1
  | _ =>
      rw [hc] at hw
      exact hw.elim

/-! ## Runs inside a restore -/

/-- Runs of the allocator without bare restores, inside `n` calls and the one further in. -/
def within (n : Nat) (w : Machine) (move : Move) : Bool :=
  guarded w move && decide (n < w.calls.length)

/-- Such runs while a slot is a page's. -/
def lasting (n slot : Nat) (page : Page) (w : Machine) (move : Move) : Bool :=
  within n w move && decide (w.memory.swap.slots.owner slot = some page)

/-- A piece inside some calls leaves those around them alone. -/
theorem follow_append (op : Operation) (inner outer : List Call) (p : Task.Piece) :
    (follow op (inner ++ outer) p).1.calls = (follow op inner p).1.calls ++ outer := by
  unfold follow
  cases p.next <;> rfl

/-- The innermost call has no calls inside it. -/
theorem nil_of_innermost {inner outer : List Call} {call last : Call}
    (h : inner ++ call :: outer = last :: outer) : inner = [] ∧ call = last := by
  cases inner with
  | nil => exact ⟨rfl, (List.cons.inj h).1⟩
  | cons first rest =>
      have hlen := congrArg List.length h
      simp only [List.cons_append, List.length_append, List.length_cons] at hlen
      omega

/-- What was found when a restore started: the calls around it, its filling, and what was in the
slot. -/
structure Found where
  outer : List Call
  filling : Filling
  page : Page
  state : SlotState
  memory : Memory

namespace Found

variable (g : Found)

/-- The restore, stopped somewhere. -/
def call (t : Task) : Call := ⟨.restore g.filling.slot g.filling.address, t⟩

/-- A restore is stopped with some calls inside it. Their hands are sound, what was found busy is
still busy and none of theirs, and if the reservation lasts, the slot holds what was found unless it
is being overwritten. -/
structure Around (lasts : Prop) (w : Machine) (inner : List Call) (t : Task) : Prop where
  calls : w.calls = inner ++ g.call t :: g.outer
  filling : t.filling? = some g.filling
  bare : g.filling.page = none
  placed : g.filling.frame < w.memory.ram.size
  hands : HandsSound w.memory inner
  guards : ∀ c ∈ inner, c.op.guardsSlots = true
  busy : g.state ≠ .idle → w.memory.Busy g.filling.slot g.page ∧
    ∀ c ∈ inner, ∀ q, ¬ c.task.owns g.filling.slot q
  kept : lasts → w.memory.swap.slots.owner g.filling.slot = some g.page →
    (∀ c ∈ inner, c.task.evictSlot? ≠ some g.filling.slot) ∧
      (¬ t.scrubs g.filling.slot → (∀ c ∈ inner, ¬ c.task.scrubs g.filling.slot) →
        w.memory.swap.device.stored g.filling.slot = g.memory.swap.device.stored g.filling.slot)

namespace Around

variable {g : Found} {lasts : Prop} {w : Machine} {inner : List Call} {t : Task}

/-- An operation starts at a call-out inside the restore. -/
theorem started (h : g.Around lasts w inner t) {op : Operation} {p : Task.Piece}
    (hop : op.guardsSlots = true) (takes : Task.Takes w.memory p)
    (howns : ∀ x q, p.next.owns x q → p.next.holds x q)
    (maps : ∀ t, p.next = .callOut t → t.site = .map)
    (hlast : lasts → w.memory.swap.slots.owner g.filling.slot = some g.page) :
    g.Around lasts (follow op w.calls p).1 (follow op inner p).1.calls t := by
  refine ⟨?_, h.filling, h.bare, ?_, ?_, forall_follow (fun _ _ => hop) h.guards, ?_, ?_⟩
  · rw [h.calls]
    exact follow_append op inner _ p
  · rw [follow_memory, takes.ram]
    exact h.placed
  · rw [follow_memory]
    exact h.hands.started takes howns
  · intro hne
    obtain ⟨hbusy, hfar⟩ := h.busy hne
    obtain ⟨hbusy', hno⟩ := busy_of_takes takes hbusy
    rw [follow_memory]
    refine ⟨hbusy', forall_follow ?_ hfar⟩
    intro t' ht q hx
    exact hno q (howns _ q (by rw [ht]; exact hx))
  · intro hl _
    have howner := hlast hl
    obtain ⟨hevicts, hstored⟩ := h.kept hl howner
    refine ⟨forall_follow ?_ hevicts, ?_⟩
    · intro t' ht hx
      have hfree := takes.evictSlot? ht (maps t' ht) hx
      exact nomatch howner.symm.trans (state?_eq_none.mp hfree)
    · intro ht hinner
      rw [follow_memory, takes.device]
      refine hstored ht fun c hc => hinner c ?_
      obtain ⟨-, ⟨task, -, hcalls, -⟩ | ⟨reply, -, hcalls, -⟩⟩ := follow_calls op inner p
      · rw [hcalls]
        exact List.mem_cons_of_mem _ hc
      · rw [hcalls]
        exact hc

/-- An address space is torn down inside the restore. -/
theorem toreDown (h : g.Around lasts w inner t) {space : Nat} {p : Task.Piece}
    (tears : Task.TearsDown space w.memory p)
    (hlast : lasts → w.memory.swap.slots.owner g.filling.slot = some g.page) :
    g.Around lasts ⟨p.memory, w.calls⟩ inner t := by
  refine ⟨h.calls, h.filling, h.bare, ?_, h.hands.toreDown tears, h.guards, ?_, ?_⟩
  · rw [tears.ram]
    exact h.placed
  · intro hne
    obtain ⟨hbusy, hfar⟩ := h.busy hne
    exact ⟨busy_of_tearsDown tears hbusy, hfar⟩
  · intro hl _
    rw [tears.device]
    exact h.kept hl (hlast hl)

/-- A probe inside the restore. -/
theorem probed (h : g.Around lasts w inner t) {m : Memory} (leaves : Probe.Leaves w.memory m)
    (hlast : lasts → w.memory.swap.slots.owner g.filling.slot = some g.page) :
    g.Around lasts { w with memory := m } inner t := by
  refine ⟨h.calls, h.filling, h.bare, ?_, h.hands.probed leaves, h.guards, ?_, ?_⟩
  · rw [leaves.ram]
    exact h.placed
  · unfold Memory.Busy
    rw [leaves.slots]
    exact h.busy
  · intro hl _
    rw [leaves.stored]
    exact h.kept hl (hlast hl)

/-- An operation inside the restore goes on. -/
theorem inside (hs : w.Sound) {call : Call} {rest : List Call}
    (h : g.Around lasts w (call :: rest) t) {held : Bool} {p : Task.Piece}
    (hp : Task.resume held w.memory call.task = .ok p)
    (resumes : Task.Resumes call.task w.memory p) (follows : call.task.Follows p.next)
    (hlast : lasts → w.memory.swap.slots.owner g.filling.slot = some g.page) :
    g.Around lasts (follow call.op (rest ++ g.call t :: g.outer) p).1
      (follow call.op rest p).1.calls t := by
  have hmem : call ∈ w.calls := by
    rw [h.calls]
    exact List.mem_cons_self
  obtain ⟨hguard, hguards⟩ := List.forall_mem_cons.mp h.guards
  refine ⟨follow_append call.op rest _ p, h.filling, h.bare, ?_, ?_,
    forall_follow (fun _ _ => hguard) hguards, ?_, ?_⟩
  · rw [follow_memory, resumes.ram]
    exact h.placed
  · rw [follow_memory]
    exact h.hands.resumed resumes
  · intro hne
    obtain ⟨hbusy, hfar⟩ := h.busy hne
    obtain ⟨hown, hfar⟩ := List.forall_mem_cons.mp hfar
    rw [follow_memory]
    refine ⟨busy_of_resumes resumes hbusy (Or.inl (hown _)), forall_follow ?_ hfar⟩
    intro t' ht q hx
    exact hown q (resumes.next _ q (by rw [ht]; exact hx))
  · intro hl howner'
    have howner := hlast hl
    obtain ⟨hevicts, hstored⟩ := h.kept hl howner
    obtain ⟨hevict, hevicts⟩ := List.forall_mem_cons.mp hevicts
    refine ⟨forall_follow ?_ hevicts, ?_⟩
    · intro t' ht hx
      rw [ht] at follows
      exact hevict (follows.evictSlot? hx)
    · intro ht hinner
      rw [follow_memory] at howner' ⊢
      obtain ⟨hnext, hrest⟩ := forall_of_follow hinner
      obtain ⟨hidle, hsame⟩ := stored_of_resumes hs hmem hguard
        (h.hands.busy call List.mem_cons_self) hp resumes
        (fun e i he hx => hevict (by rw [he, ← hx]; rfl)) howner' hnext
      rw [hsame]
      exact hstored ht (List.forall_mem_cons.mpr ⟨hidle, hrest⟩)

/-- The restore goes on itself, to its next call-out. -/
theorem own (hs : w.Sound) (h : g.Around lasts w [] t) {held : Bool} {p : Task.Piece}
    (hp : Task.resume held w.memory t = .ok p) (resumes : Task.Resumes t w.memory p)
    (follows : t.Follows p.next) {t' : Task} (hn : p.next = .callOut t')
    (hlast : lasts → w.memory.swap.slots.owner g.filling.slot = some g.page) :
    g.Around lasts ⟨p.memory, g.call t' :: g.outer⟩ [] t' := by
  have hslots : p.memory.swap.slots = w.memory.swap.slots := by
    cases Task.resume_restores hs.area.slots h.bare h.filling hp with
    | released hr sets => exact nomatch hn.symm.trans hr
    | left hr slots => exact slots
  rw [hn] at follows
  refine ⟨rfl, follows.filling h.filling, h.bare, ?_, .nil _, List.forall_mem_nil _, ?_, ?_⟩
  · rw [resumes.ram]
    exact h.placed
  · intro hne
    refine ⟨?_, List.forall_mem_nil _⟩
    obtain ⟨s, hbusy⟩ := (h.busy hne).1
    refine ⟨s, ?_⟩
    rw [hslots]
    exact hbusy
  · intro hl _
    obtain ⟨-, hstored⟩ := h.kept hl (hlast hl)
    refine ⟨List.forall_mem_nil _, fun ht' _ => ?_⟩
    have ht : ¬ t.scrubs g.filling.slot := by
      intro hscrubs
      cases hc : t with
      | fillScrubbing f i =>
          rw [hc] at hscrubs follows
          cases follows with
          | nextScrubbed f hij => exact ht' hscrubs
          | ended e ht hend => rcases ht with ht | ⟨i, ht⟩ | ht <;> exact nomatch ht
      | _ =>
          rw [hc] at hscrubs
          exact hscrubs.elim
    rw [← hstored ht (List.forall_mem_nil _)]
    funext i
    refine resumes.stored _ i fun hw => ?_
    have hf := h.filling
    cases hc : t with
    | fillScrubbing f j =>
        rw [hc] at hw ht
        exact ht hw.1
    | evictWriting e j =>
        rw [hc] at hf
        exact nomatch hf
    | _ =>
        rw [hc] at hw
        exact hw.elim

/-- **A restore in flight stays one until it has answered.** -/
theorem moved (hs : w.Sound) (h : g.Around lasts w inner t) {w' : Machine} {move : Move}
    {events : List Event} (hrule : within g.outer.length w move = true)
    (hlast : lasts → w.memory.swap.slots.owner g.filling.slot = some g.page)
    (hmoved : Moved w move w' events) :
    (∃ inner' t', g.Around lasts w' inner' t') ∨ w'.calls = g.outer := by
  have hguard := (Bool.and_eq_true_iff.mp hrule).1
  cases hmoved with
  | @started op p hop hno hp takes hauls serves =>
      refine Or.inl ⟨_, t, h.started hguard takes ?_ (fun t' ht' => (serves t' ht').2) hlast⟩
      exact fun x q => Task.start_owns hs.area.slots hguard hp
  | toreDown tears hauls gaveUp => exact Or.inl ⟨inner, t, h.toreDown tears hlast⟩
  | @resumed call outer p hcalls hp resumes hauls follows =>
      have hsplit := hcalls.symm.trans h.calls
      cases inner with
      | nil =>
          obtain ⟨rfl, rfl⟩ := List.cons.inj hsplit
          unfold follow
          cases hn : p.next with
          | callOut t' => exact Or.inl ⟨[], t', h.own hs hp resumes follows hn hlast⟩
          | reply r => exact Or.inr rfl
      | cons first rest =>
          obtain ⟨rfl, rfl⟩ := List.cons.inj hsplit
          exact Or.inl ⟨_, t, h.inside hs hp resumes follows hlast⟩
  | rested hcalls =>
      rw [h.calls] at hcalls
      exact nomatch (List.append_eq_nil_iff.mp hcalls).2
  | probed hp leaves => exact Or.inl ⟨inner, t, h.probed leaves hlast⟩

/-- So does one behind a run inside it. -/
theorem of_run {rules : Machine → Move → Bool}
    (hle : ∀ w move, rules w move = true → within g.outer.length w move = true)
    (hlast : ∀ w move, rules w move = true → lasts →
      w.memory.swap.slots.owner g.filling.slot = some g.page)
    (hs : w.Sound) (h : g.Around lasts w inner t) {moves : List Move} {z : Machine}
    {events : List Event} (hrun : w.run rules moves = some (z, events)) :
    z.Sound ∧ ((∃ inner' t', g.Around lasts z inner' t') ∨ z.calls.length ≤ g.outer.length) := by
  refine Sound.run_induction (P := fun z _ => (∃ inner' t', g.Around lasts z inner' t') ∨
    z.calls.length ≤ g.outer.length) (l := []) ?_ ?_ hs (Or.inl ⟨inner, t, h⟩) hrun
  · intro w move hrule
    exact managed_of_guarded (Bool.and_eq_true_iff.mp (hle w move hrule)).1
  · intro w _ move w' events hs hw hrule hmoved
    rcases hw with ⟨inner, t, h⟩ | hover
    · rcases h.moved hs (hle w move hrule) (hlast w move hrule) hmoved with hmore | hend
      · exact Or.inl hmore
      · exact Or.inr (Nat.le_of_eq (congrArg List.length hend))
    · have hin := of_decide_eq_true (Bool.and_eq_true_iff.mp (hle w move hrule)).2
      exact absurd hin (Nat.not_lt.mpr hover)

/-- When the restore is the innermost call, there are no calls inside it. -/
theorem innermost (h : g.Around lasts w inner t) {t' : Task}
    (hcalls : w.calls = g.call t' :: g.outer) : g.Around lasts w [] t' := by
  obtain ⟨rfl, hcall⟩ := nil_of_innermost (h.calls.symm.trans hcalls)
  cases hcall
  exact h

/-! ## The piece that comes next -/

/-- The restore overwrites a sector of its slot at most. -/
theorem stored_own (hs : w.Sound) (h : g.Around lasts w inner t) {held : Bool} {p : Task.Piece}
    (hp : Task.resume held w.memory t = .ok p) :
    (∀ x, x ≠ g.filling.slot →
      p.memory.swap.device.stored x = w.memory.swap.device.stored x) ∧
    (p.memory.swap.device.stored g.filling.slot = w.memory.swap.device.stored g.filling.slot ∨
      ∃ f i, t = .fillScrubbing f i ∧
        p.memory.swap.device.stored g.filling.slot i = some .zero ∧
        ∀ j, j ≠ i → p.memory.swap.device.stored g.filling.slot j =
          w.memory.swap.device.stored g.filling.slot j) := by
  have hmem : g.call t ∈ w.calls := by
    rw [h.calls]
    exact List.mem_append_right _ List.mem_cons_self
  have hproper : t.Proper w.memory.swap.device := hs.proper _ hmem
  have hstored := (Task.resume_resumes hs.area hproper hp).stored
  have hf := h.filling
  cases t with
  | fillMapping f => exact ⟨fun x _ => funext fun i => hstored x i id,
      Or.inl (funext fun i => hstored _ i id)⟩
  | fillReading f i => exact ⟨fun x _ => funext fun j => hstored x j id,
      Or.inl (funext fun j => hstored _ j id)⟩
  | fillScrubbing f i =>
      have hslot : f.slot = g.filling.slot := congrArg Filling.slot (Option.some.inj hf)
      refine ⟨fun x hx => funext fun j => hstored x j fun hw => hx (hw.1.trans hslot), ?_⟩
      rw [← hslot]
      rcases Task.scrubNow_stored hs.area hproper hp with hsame | ⟨hzero, hother⟩
      · exact Or.inl hsame
      · exact Or.inr ⟨f, i, rfl, hzero, hother⟩
  | _ => exact nomatch hf

/-- It reads what is in its slot. -/
theorem reads_own (hs : w.Sound) (h : g.Around lasts w inner t) {held : Bool} {p : Task.Piece}
    (hp : Task.resume held w.memory t = .ok p) {f : Filling} {i : Place}
    (ht : t = .fillReading f i) :
    (∃ e, p.next = .reply (.transferred (.error e))) ∨
      ∃ data, w.memory.swap.device.stored g.filling.slot i = some data ∧
        p.memory.contents f.frame = (w.memory.contents f.frame).set i data i.isLt := by
  have hmem : g.call t ∈ w.calls := by
    rw [h.calls]
    exact List.mem_append_right _ List.mem_cons_self
  have hproper : t.Proper w.memory.swap.device := hs.proper _ hmem
  have hf := h.filling
  rw [ht] at hp hproper hf
  cases hf
  rcases Task.readNow_reads hs.area hproper h.placed hp with ⟨r, hn, hunread⟩ | hread
  · obtain ⟨e, rfl⟩ := hunread.of_bare h.bare
    exact Or.inl ⟨e, hn⟩
  · exact Or.inr hread

/-- What was found busy lasts. -/
theorem outlasts (hs : w.Sound) (h : g.Around lasts w inner t) (hbusy : g.state ≠ .idle)
    {moves : List Move} {z : Machine} {events : List Event}
    (hrun : w.run (within g.outer.length) moves = some (z, events)) :
    w.run (lasting g.outer.length g.filling.slot g.page) moves = some (z, events) := by
  refine run_strict (P := fun z => z.Sound ∧ ((∃ inner' t', g.Around False z inner' t') ∨
    z.calls.length ≤ g.outer.length)) ?_ ?_ ⟨hs, Or.inl ⟨inner, t, ?_⟩⟩ hrun
  · rintro w move w' events ⟨hs, hw⟩ hrule hstep
    have hmoved := moved_of_step hs
      (managed_of_guarded (Bool.and_eq_true_iff.mp hrule).1) hstep
    refine ⟨hs.moved hmoved, ?_⟩
    rcases hw with ⟨inner, t, h⟩ | hover
    · rcases h.moved hs hrule (fun hf => hf.elim) hmoved with hmore | hend
      · exact Or.inl hmore
      · exact Or.inr (Nat.le_of_eq (congrArg List.length hend))
    · have hin := of_decide_eq_true (Bool.and_eq_true_iff.mp hrule).2
      exact absurd hin (Nat.not_lt.mpr hover)
  · rintro w move ⟨-, ⟨inner, t, h⟩ | hover⟩ hrule
    · obtain ⟨s, hstate, -⟩ := (h.busy hbusy).1
      exact Bool.and_eq_true_iff.mpr ⟨hrule, decide_eq_true (owner_of_state? hstate)⟩
    · have hin := of_decide_eq_true (Bool.and_eq_true_iff.mp hrule).2
      exact absurd hin (Nat.not_lt.mpr hover)
  · exact ⟨h.calls, h.filling, h.bare, h.placed, h.hands, h.guards, h.busy, fun hf => hf.elim⟩

end Around

end Found

/-- A restore of a used slot is over at once, or it has found the slot as it is. -/
theorem restore_finds {w y : Machine} {slot address : Nat} {page : Page} {s : SlotState}
    {now : List Event} (hs : w.Sound) (hfound : w.memory.swap.slots.state? slot = some (page, s))
    (hstart : w.step (.start (.restore slot address)) = .ok (y, now)) :
    y.calls = w.calls ∨ ∃ f : Filling, f.slot = slot ∧ f.address = address ∧
      ∀ lasts, (Found.mk w.calls f page s w.memory).Around lasts y [] (.fillMapping f) := by
  obtain ⟨p, hp, hfollow⟩ := start_cases hstart
  cases Task.restore_cases hp with
  | noFrame =>
      cases hfollow
      exact Or.inl rfl
  | noSlot =>
      cases hfollow
      exact Or.inl rfl
  | @filling i hi =>
      cases hfollow
      refine Or.inr ⟨⟨i, address, slot, none⟩, rfl, rfl, fun lasts => ?_⟩
      refine ⟨rfl, rfl, rfl, ?_, .nil _, List.forall_mem_nil _, ?_, ?_⟩
      · show i < w.memory.ram.size
        rw [hs.ram]
        exact Coremap.lt_size_of_indexOf? hi
      · exact fun hne => ⟨⟨s, hfound, hne⟩, List.forall_mem_nil _⟩
      · exact fun _ _ => ⟨List.forall_mem_nil _, fun _ _ => rfl⟩

/-- The slot is the page's at every moment of a run inside `n` calls. -/
def Lasts (n slot : Nat) (page : Page) (w : Machine) (moves : List Move) (z : Machine)
    (events : List Event) : Prop :=
  w.run (lasting n slot page) moves = some (z, events) ∧
    z.memory.swap.slots.owner slot = some page

/-- The restore answers inside `n` calls that it has succeeded. -/
def Succeeds (n slot address : Nat) (events : List Event) : Prop :=
  .answered n (.restore slot address) (.transferred (.ok ())) ∈ events

/-- **When a restore spares the reservations of others.**

A restore starts in any run of the allocator and finds its slot reserved for a page, and any
operations but restores run at its call-outs. Whenever it goes on, it spares every reservation that
it did not find, unless the one that it found is lost, the slot is reserved again and the restore
succeeds; then it takes the slot away. It reads and overwrites its slot whoever has it, and touches
no other. As long as the reservation lasts, it reads what was stored for it. A reservation that
another operation holds busy lasts, and stays busy unless the restore succeeds. -/
theorem restore_spares_others_iff {m : Memory} {before moves : List Move} {w y z z' : Machine}
    {past now later last : List Event} (hm : m.IsFresh)
    (hrun : (Machine.idle m).run managed before = some (w, past))
    {slot address : Nat} {page : Page} {s : SlotState}
    (hfound : w.memory.swap.slots.state? slot = some (page, s))
    (hstart : w.step (.start (.restore slot address)) = .ok (y, now))
    (hinside : y.run (within w.calls.length) moves = some (z, later)) {t : Task}
    (hcalls : z.calls = ⟨.restore slot address, t⟩ :: w.calls)
    (hstep : z.step .resume = .ok (z', last)) :
    ((∀ x q u, z.memory.swap.slots.state? x = some (q, u) →
        ¬ (x = slot ∧ Lasts w.calls.length slot page y moves z later) →
        z'.memory.swap.slots.state? x = some (q, u)) ↔
      Lasts w.calls.length slot page y moves z later ∨ z.memory.swap.slots.state? slot = none ∨
        ¬ Succeeds w.calls.length slot address last) ∧
    (∀ x, x ≠ slot → z'.memory.swap.slots.state? x = z.memory.swap.slots.state? x ∧
      z'.memory.swap.device.stored x = z.memory.swap.device.stored x) ∧
    (Succeeds w.calls.length slot address last → z'.memory.swap.slots.state? slot = none) ∧
    (¬ Succeeds w.calls.length slot address last →
      z'.memory.swap.slots = z.memory.swap.slots) ∧
    (z'.memory.swap.device.stored slot = z.memory.swap.device.stored slot ∨
      ∃ f i, t = .fillScrubbing f i ∧ z'.memory.swap.device.stored slot i = some .zero ∧
        ∀ j, j ≠ i →
          z'.memory.swap.device.stored slot j = z.memory.swap.device.stored slot j) ∧
    (∀ f i, t = .fillReading f i →
      (∃ e, .answered w.calls.length (.restore slot address) (.transferred (.error e)) ∈ last) ∨
      ∃ data, z.memory.swap.device.stored slot i = some data ∧
        z'.memory.contents f.frame = (z.memory.contents f.frame).set i data i.isLt ∧
        (Lasts w.calls.length slot page y moves z later →
          w.memory.swap.device.stored slot i = some data)) ∧
    (s ≠ .idle → Lasts w.calls.length slot page y moves z later ∧
      (z'.memory.Busy slot page ↔ ¬ Succeeds w.calls.length slot address last)) := by
  have hw := Sound.of_run hm hrun
  have hy := (hw.moved (moved_of_step hw rfl hstart))
  have hlt : w.calls.length < z.calls.length := by
    rw [hcalls]
    exact Nat.lt_succ_self _
  obtain hover | ⟨f, rfl, rfl, around⟩ := restore_finds hw hfound hstart
  · -- the restore was over at once, so there is no run inside it
    exfalso
    cases moves with
    | nil =>
        cases hinside
        rw [hover] at hlt
        exact Nat.lt_irrefl _ hlt
    | cons move rest =>
        obtain ⟨_, _, _, hrule, -⟩ := run_cons hinside
        have hin := of_decide_eq_true (Bool.and_eq_true_iff.mp hrule).2
        rw [hover] at hin
        exact Nat.lt_irrefl _ hin
  -- behind any run inside it the restore is the innermost call
  have innermost : ∀ {lasts}, (z.Sound ∧ ((∃ inner' t',
      (Found.mk w.calls f page s w.memory).Around lasts z inner' t') ∨
        z.calls.length ≤ w.calls.length)) →
      z.Sound ∧ (Found.mk w.calls f page s w.memory).Around lasts z [] t := by
    rintro lasts ⟨hz, ⟨inner, t', h⟩ | hend⟩
    · exact ⟨hz, h.innermost hcalls⟩
    · exact absurd hlt (Nat.not_lt.mpr hend)
  obtain ⟨hz, h⟩ := innermost ((around False).of_run (fun _ _ hr => hr)
    (fun _ _ _ hf => hf.elim) hy hinside)
  obtain ⟨p, hp, rfl, rfl⟩ : ∃ p, Task.resume (deviceHeld w.calls) z.memory t = .ok p ∧
      z' = (follow (.restore f.slot f.address) w.calls p).1 ∧
      last = (follow (.restore f.slot f.address) w.calls p).2 := resume_of_calls hcalls hstep
  have answers : ∀ r, .answered w.calls.length (.restore f.slot f.address) r ∈
      (follow (.restore f.slot f.address) w.calls p).2 ↔ p.next = .reply r :=
    fun r => ⟨fun ha => (answered_of_follow ha).1, mem_follow_of_reply⟩
  have hsucceeds : Succeeds w.calls.length f.slot f.address
      (follow (.restore f.slot f.address) w.calls p).2 ↔
        p.next = .reply (.transferred (.ok ())) := answers _
  obtain ⟨hok, hno⟩ : (p.next = .reply (.transferred (.ok ())) →
        z.memory.swap.slots.Sets f.slot none p.memory.swap.slots) ∧
      (p.next ≠ .reply (.transferred (.ok ())) →
        p.memory.swap.slots = z.memory.swap.slots) := by
    cases Task.resume_restores hz.area.slots h.bare h.filling hp with
    | released hn sets => exact ⟨fun _ => sets, fun hne => absurd hn hne⟩
    | left hn slots => exact ⟨fun ho => absurd ho hn, fun _ => slots⟩
  obtain ⟨hstored, hown⟩ := h.stored_own hz hp
  rw [follow_memory, hsucceeds]
  refine ⟨⟨?_, ?_⟩, ?_, fun hn => (hok hn).self, hno, hown, ?_, ?_⟩
  · intro hspares
    by_cases hlasts : Lasts w.calls.length f.slot page y moves z later
    · exact Or.inl hlasts
    · cases hused : z.memory.swap.slots.state? f.slot with
      | none => exact Or.inr (Or.inl rfl)
      | some entry =>
          refine Or.inr (Or.inr fun hn => ?_)
          have hkept := hspares f.slot entry.1 entry.2 hused fun hx => hlasts hx.2
          exact nomatch (hok hn).self.symm.trans hkept
  · rintro hspares x q u hx hother
    by_cases hn : p.next = .reply (.transferred (.ok ()))
    · have hne : x ≠ f.slot := by
        rintro rfl
        rcases hspares with hlasts | hfree | hne
        · exact hother ⟨rfl, hlasts⟩
        · exact nomatch hx.symm.trans hfree
        · exact hne hn
      exact ((hok hn).other hne).trans hx
    · rw [hno hn]
      exact hx
  · intro x hx
    refine ⟨?_, hstored x hx⟩
    by_cases hn : p.next = .reply (.transferred (.ok ()))
    · exact (hok hn).other hx
    · rw [hno hn]
  · intro f' i ht
    rcases h.reads_own hz hp ht with ⟨e, he⟩ | ⟨data, hdata, hcontents⟩
    · exact Or.inl ⟨e, (answers _).mpr he⟩
    · refine Or.inr ⟨data, hdata, hcontents, ?_⟩
      rintro ⟨hlasting, howner⟩
      obtain ⟨-, h⟩ := innermost ((around True).of_run
        (fun _ _ hr => (Bool.and_eq_true_iff.mp hr).1)
        (fun _ _ hr _ => of_decide_eq_true (Bool.and_eq_true_iff.mp hr).2) hy hlasting)
      have hsame : z.memory.swap.device.stored f.slot = w.memory.swap.device.stored f.slot :=
        (h.kept trivial howner).2 (by rw [ht]; exact id) (List.forall_mem_nil _)
      rw [← hsame]
      exact hdata
  · intro hne
    obtain ⟨⟨u, hu, huse⟩, -⟩ := h.busy hne
    refine ⟨⟨(around False).outlasts hy hne hinside, owner_of_state? hu⟩, ?_, ?_⟩
    · rintro ⟨v, hv, -⟩ hn
      exact nomatch (hok hn).self.symm.trans hv
    · intro hn
      refine ⟨u, ?_, huse⟩
      rw [hno hn]
      exact hu

/-- While a restore of slot 0 waits, the page of space 1 in it is torn down, a page of space 2 is
evicted to it, and the restore overwrites all but the last sector. -/
def lostSlot : List Move :=
  [.start (.tearDown 1), .start (.allocate .user 1 (some ⟨2, 0⟩)), .start .evict] ++
    List.replicate 26 .resume

/-- The page of space 2 has its slot taken away. -/
theorem restore_spares_others_iff_of_lostSlot :
    ∃ w past y now z later z' last, (Machine.idle .small).run managed
        ([.start (.allocate .user 1 (some ⟨1, 0⟩)), .start .evict] ++
          List.replicate 10 .resume) = some (w, past) ∧
      w.step (.start (.restore 0 8192)) = .ok (y, now) ∧
      y.run (within w.calls.length) lostSlot = some (z, later) ∧
      z.step .resume = .ok (z', last) ∧
      w.memory.swap.slots.state? 0 = some (⟨1, 0⟩, .idle) ∧
      z.memory.swap.slots.state? 0 = some (⟨2, 0⟩, .idle) ∧
      z'.memory.swap.slots.state? 0 = none := by
  have hbefore : ((Machine.idle .small).run managed ([.start (.allocate .user 1 (some ⟨1, 0⟩)),
      .start .evict] ++ List.replicate 10 .resume)).map
        (fun r => (r.1.calls, r.1.memory.swap.slots.state? 0)) =
      some ([], some (⟨1, 0⟩, .idle)) := by decide +kernel
  have hlost : (((Machine.idle .small).run managed ([.start (.allocate .user 1 (some ⟨1, 0⟩)),
      .start .evict] ++ List.replicate 10 .resume)).bind fun r =>
        (r.1.run managed [.start (.restore 0 8192)]).bind fun s =>
          (s.1.run (within r.1.calls.length) lostSlot).bind fun u =>
            (u.1.run managed [.resume]).map fun v =>
              (u.1.calls, u.1.memory.swap.slots.state? 0, v.2)) =
      some ([⟨.restore 0 8192, .fillScrubbing ⟨1, 8192, 0, none⟩ ⟨7, by decide⟩⟩],
        some (⟨2, 0⟩, .idle), [.answered 0 (.restore 0 8192) (.transferred (.ok ()))]) := by
    decide +kernel
  obtain ⟨⟨w, past⟩, hrun, hw⟩ := Option.map_eq_some_iff.mp hbefore
  obtain ⟨hempty, hfound⟩ := Prod.mk.inj hw
  rw [hrun, Option.bind_some] at hlost
  obtain ⟨⟨y, now⟩, hy, hlost⟩ := Option.bind_eq_some_iff.mp hlost
  obtain ⟨⟨z, later⟩, hz, hlost⟩ := Option.bind_eq_some_iff.mp hlost
  obtain ⟨⟨z', last⟩, hz', hlost⟩ := Option.map_eq_some_iff.mp hlost
  obtain ⟨hcalls, hrest⟩ := Prod.mk.inj hlost
  obtain ⟨hused, hlast⟩ := Prod.mk.inj hrest
  dsimp only at hempty hfound hcalls hused hlast
  have hstart := (run_one hy).2
  have hstep := (run_one hz').2
  have hcalls' : z.calls = ⟨.restore 0 8192,
      .fillScrubbing ⟨1, 8192, 0, none⟩ ⟨7, by decide⟩⟩ :: w.calls := by
    rw [hempty]
    exact hcalls
  have hsucceeds : Succeeds w.calls.length 0 8192 last := by
    rw [hempty, hlast]
    exact List.mem_cons_self
  exact ⟨w, past, y, now, z, later, z', last, hrun, hstart, hz, hstep, hfound, hused,
    (restore_spares_others_iff Memory.small_isFresh hrun hfound hstart hz hcalls' hstep).2.2.1
      hsucceeds⟩

/-- A restore at a call-out of the eviction to slot 0 takes the slot from the eviction. -/
theorem restore_frees_busy_slot :
    ∃ w past z later, (Machine.idle .small).run managed
        [.start (.allocate .user 1 (some ⟨1, 0⟩)), .start .evict] = some (w, past) ∧
      w.run managed (.start (.restore 0 8192) :: List.replicate 17 .resume) = some (z, later) ∧
      z.calls = w.calls ∧
      w.calls = [⟨.evict, .evictMapping ⟨0, 4096, ⟨1, 0⟩, 0, none⟩⟩] ∧
      w.memory.swap.slots.state? 0 = some (⟨1, 0⟩, .busy) ∧
      z.memory.swap.slots.state? 0 = none := by
  have hheld : ((Machine.idle .small).run managed
      [.start (.allocate .user 1 (some ⟨1, 0⟩)), .start .evict]).map
        (fun r => (r.1.calls, r.1.memory.swap.slots.state? 0)) =
      some ([⟨.evict, .evictMapping ⟨0, 4096, ⟨1, 0⟩, 0, none⟩⟩],
        some (⟨1, 0⟩, .busy)) := by decide +kernel
  have hfreed : (((Machine.idle .small).run managed
      [.start (.allocate .user 1 (some ⟨1, 0⟩)), .start .evict]).bind fun r =>
        (r.1.run managed (.start (.restore 0 8192) :: List.replicate 17 .resume)).map fun s =>
          (s.1.calls, s.1.memory.swap.slots.state? 0)) =
      some ([⟨.evict, .evictMapping ⟨0, 4096, ⟨1, 0⟩, 0, none⟩⟩], none) := by decide +kernel
  obtain ⟨⟨w, past⟩, hrun, hw⟩ := Option.map_eq_some_iff.mp hheld
  rw [hrun, Option.bind_some] at hfreed
  obtain ⟨⟨z, later⟩, hz, hshown⟩ := Option.map_eq_some_iff.mp hfreed
  obtain ⟨hcalls, hbusy⟩ := Prod.mk.inj hw
  obtain ⟨hcalls', hfree⟩ := Prod.mk.inj hshown
  exact ⟨w, past, z, later, hrun, hz, hcalls'.trans hcalls.symm, hcalls, hbusy, hfree⟩

end Machine

end PhysMem
