import PhysMem.Proofs.Cargo
import PhysMem.Proofs.Fresh

/-!
# Calls in flight — what one move does

The lemmas on the pieces of operations, put together for the machine. A machine is *sound* when its
swap area and its coremap are, every call is stopped where its operation may be, every frame in
transit is the cargo of one call, and some call has hold of every busy slot. Every run of the
allocator's own operations, at any call-outs and to any depth, stays sound.

* **`managed`** and **`guarded`** are the rules of such runs, with bare restores and without.
* **`Laden`** says that the frames in transit are the cargoes of the calls.
* **`Moved`** says what a move does, **`moved_of_step`** that it does nothing else.
* **`Sound.moved`** and **`Sound.of_run`** — soundness is kept.
-/

namespace PhysMem.Machine

/-- Runs of the allocator: its own operations may start at any moment, and anything but the slot map
may be changed from outside. -/
def managed : Machine → Move → Bool
  | _, .start op => op.isManaged
  | _, .resume => true
  | _, .probe p => p.leavesSlots

/-- Runs of the allocator without bare restores. -/
def guarded : Machine → Move → Bool
  | _, .start op => op.guardsSlots
  | _, .resume => true
  | _, .probe p => p.leavesSlots

theorem isManaged_of_guardsSlots {op : Operation} (h : op.guardsSlots = true) :
    op.isManaged = true := by
  cases op <;> first | rfl | exact h

theorem managed_of_guarded {w : Machine} {move : Move} (h : guarded w move = true) :
    managed w move = true := by
  cases move with
  | start op => exact isManaged_of_guardsSlots h
  | resume => rfl
  | probe p => exact h

/-- The frames in transit are the cargoes of the calls, each of one call. -/
structure Laden (m : Memory) (calls : List Call) : Prop where
  aboard : ∀ c ∈ calls, Task.Aboard m c.task.cargo?
  apart : calls.Pairwise fun inner outer => ∀ c d, inner.task.cargo? = some c →
    outer.task.cargo? = some d → c.frame ≠ d.frame
  carried : ∀ c o, m.coremap.Carries c o → ∃ call ∈ calls, call.task.cargo? = some c

/-- Swap area and coremap are sound, every call is stopped where its operation may be, and whatever
is in transit or busy is so for some call. -/
structure Sound (w : Machine) : Prop where
  area : w.memory.swap.Sound
  coremap : w.memory.coremap.Sound
  ram : w.memory.ram.size = w.memory.coremap.size
  proper : ∀ c ∈ w.calls, c.task.Proper w.memory.swap.device
  serves : ∀ c ∈ w.calls, c.task.Serves c.op
  laden : Laden w.memory w.calls
  held : ∀ x q s, w.memory.swap.slots.state? x = some (q, s) → s ≠ .idle →
    ∃ c ∈ w.calls, c.task.holds x q

theorem Sound.idle {m : Memory} (h : m.IsFresh) : (Machine.idle m).Sound := by
  obtain ⟨count, base, policy, hcreate⟩ := h.coremap
  obtain ⟨hcoremap, hfree⟩ := Coremap.create_sound hcreate
  refine ⟨h.area.1, hcoremap, h.ram, List.forall_mem_nil _,
    List.forall_mem_nil _,
    ⟨List.forall_mem_nil _, .nil, ?_⟩, ?_⟩
  · intro c o hc
    exact nomatch hfree _ _ hc
  · intro x q s hs
    exact nomatch (h.area.2 x).symm.trans hs

/-- What a move does to a sound machine. -/
inductive Moved (w : Machine) : Move → Machine → List Event → Prop
  /-- An operation starts. -/
  | started {op : Operation} {p : Task.Piece} (hop : op.isManaged = true)
      (hno : ∀ space, op ≠ .tearDown space)
      (hp : Task.start (deviceHeld w.calls) w.memory op = .ok p) (takes : Task.Takes w.memory p)
      (hauls : Task.Hauls none op.Grants w.memory p)
      (serves : ∀ t, p.next = .callOut t → t.Serves op ∧ t.site = .map) :
      Moved w (.start op) (follow op w.calls p).1 (follow op w.calls p).2
  /-- An address space is torn down. -/
  | toreDown {space frames cleared : Nat} {p : Task.Piece}
      (tears : Task.TearsDown space w.memory p)
      (hauls : Task.Hauls none (Operation.tearDown space).Grants w.memory p)
      (gaveUp : ∀ i r, w.memory.coremap.HasRole i r →
        p.memory.coremap.HasRole i (Coremap.roleAfter space r)) :
      Moved w (.start (.tearDown space)) ⟨p.memory, w.calls⟩
        [.answered w.calls.length (.tearDown space) (.tornDown frames cleared)]
  /-- The innermost call goes on. -/
  | resumed {call : Call} {outer : List Call} {p : Task.Piece} (hcalls : w.calls = call :: outer)
      (hp : Task.resume (deviceHeld outer) w.memory call.task = .ok p)
      (resumes : Task.Resumes call.task w.memory p)
      (hauls : Task.Hauls call.task.cargo? call.op.Grants w.memory p)
      (follows : call.task.Follows p.next) :
      Moved w .resume (follow call.op outer p).1 (follow call.op outer p).2
  /-- There is no call to go on. -/
  | rested (hcalls : w.calls = []) : Moved w .resume w []
  /-- Something is looked at or changed from outside. -/
  | probed {probe : Probe} {o : Outcome} {m : Memory}
      (hp : probe.perform (loans w.calls) w.memory = .ok (o, m)) (leaves : Probe.Leaves w.memory m) :
      Moved w (.probe probe) { w with memory := m } []

variable {w w' : Machine} {move : Move} {events : List Event}

/-- **A move does one of these things and no other.** -/
theorem moved_of_step (hw : w.Sound) (hrule : managed w move = true)
    (h : w.step move = .ok (w', events)) : Moved w move w' events := by
  cases move with
  | start op =>
      obtain ⟨p, hp, hfollow⟩ := start_cases h
      by_cases hop : ∃ space, op = .tearDown space
      · obtain ⟨space, rfl⟩ := hop
        have ht := Task.tearDown_tearsDown hw.area.slots hp
        obtain ⟨frames, cleared, hnext⟩ := ht.next
        have he : (w', events) = (⟨p.memory, w.calls⟩,
            [.answered w.calls.length (.tearDown space) (.tornDown frames cleared)]) := by
          rw [← hfollow]
          unfold follow
          rw [hnext]
        cases he
        obtain ⟨hauls, hgave⟩ := Task.tearDown_hauls hw.coremap hp
        exact .toreDown ht hauls hgave
      · have hno : ∀ space, op ≠ .tearDown space := fun space he => hop ⟨space, he⟩
        have he : (follow op w.calls p).1 = w' ∧ (follow op w.calls p).2 = events := by
          rw [hfollow]
          exact ⟨rfl, rfl⟩
        obtain ⟨rfl, rfl⟩ := he
        refine .started hrule hno hp (Task.start_takes hw.area.slots hrule hno hp)
          (Task.start_hauls hw.coremap hrule hp) ?_
        intro t ht
        exact Task.start_serves hrule hp ht
  | resume =>
      rcases resume_cases h with ⟨hcalls, rfl, rfl⟩ | ⟨call, outer, p, hcalls, hp, hfollow⟩
      · exact .rested hcalls
      · have hmem : call ∈ w.calls := by
          rw [hcalls]
          exact List.mem_cons_self
        have he : (follow call.op outer p).1 = w' ∧ (follow call.op outer p).2 = events := by
          rw [hfollow]
          exact ⟨rfl, rfl⟩
        obtain ⟨rfl, rfl⟩ := he
        exact .resumed hcalls hp (Task.resume_resumes hw.area (hw.proper call hmem) hp)
          (Task.resume_hauls hw.coremap (hw.serves call hmem) (hw.laden.aboard call hmem) hp)
          (Task.resume_follows (hw.serves call hmem).isManaged hp)
  | probe probe =>
      obtain ⟨outcome, m, hp, rfl, rfl⟩ := probe_cases h
      exact .probed hp (Probe.perform_leaves hrule hp)

/-- A property of calls that holds of those around a piece and of what the piece leaves. -/
theorem forall_follow {P : Call → Prop} {op : Operation} {outer : List Call} {p : Task.Piece}
    (hnew : ∀ t, p.next = .callOut t → P ⟨op, t⟩) (hold : ∀ c ∈ outer, P c) :
    ∀ c ∈ (follow op outer p).1.calls, P c := by
  obtain ⟨-, ⟨task, hnext, hcalls, -⟩ | ⟨reply, -, hcalls, -⟩⟩ := follow_calls op outer p
  · rw [hcalls]
    exact List.forall_mem_cons.mpr ⟨hnew task hnext, hold⟩
  · rw [hcalls]
    exact hold

/-- What holds of the calls behind a piece holds of the one that it leaves and of those around it. -/
theorem forall_of_follow {P : Call → Prop} {op : Operation} {outer : List Call} {p : Task.Piece}
    (h : ∀ c ∈ (follow op outer p).1.calls, P c) :
    (∀ t, p.next = .callOut t → P ⟨op, t⟩) ∧ ∀ c ∈ outer, P c := by
  obtain ⟨-, ⟨task, hnext, hcalls, -⟩ | ⟨reply, hnext, hcalls, -⟩⟩ := follow_calls op outer p
  · rw [hcalls] at h
    obtain ⟨hhead, htail⟩ := List.forall_mem_cons.mp h
    refine ⟨fun t ht => ?_, htail⟩
    cases hnext.symm.trans ht
    exact hhead
  · rw [hcalls] at h
    exact ⟨fun t ht => (nomatch hnext.symm.trans ht), h⟩

theorem follow_memory (op : Operation) (outer : List Call) (p : Task.Piece) :
    (follow op outer p).1.memory = p.memory := (follow_calls op outer p).1

/-- The pager is told of an eviction that goes on from there. -/
theorem told_of_follow {op : Operation} {outer : List Call} {p : Task.Piece} {page : Page}
    {slot : Nat} {c : Contents} (h : .told page slot c ∈ (follow op outer p).2) :
    ∃ e, p.next = .callOut (.evictTelling e) ∧ e.page = page ∧ e.slot = slot ∧
      p.memory.contents e.frame = c := by
  obtain ⟨-, ⟨task, hnext, -, hshown⟩ | ⟨reply, -, -, hshown⟩⟩ := follow_calls op outer p
  · rw [hshown] at h
    cases task with
    | evictTelling e =>
        cases List.mem_singleton.mp h
        exact ⟨e, hnext, rfl, rfl, rfl⟩
    | _ => exact (List.not_mem_nil h).elim
  · rw [hshown] at h
    exact nomatch List.mem_singleton.mp h

/-- Whether the pager is told that the page went to the slot. -/
def tells (page : Page) (slot : Nat) : Event → Bool
  | .told q x _ => q == page && x == slot
  | .answered .. => false

theorem told_of_any {page : Page} {slot : Nat} (h : events.any (tells page slot) = true) :
    ∃ c, .told page slot c ∈ events := by
  obtain ⟨event, hmem, hevent⟩ := List.any_eq_true.mp h
  cases event with
  | told q x c =>
      obtain ⟨hpage, hslot⟩ := Bool.and_eq_true_iff.mp hevent
      obtain rfl := eq_of_beq hpage
      obtain rfl := eq_of_beq hslot
      exact ⟨c, hmem⟩
  | answered n op r => exact nomatch hevent

theorem answered_of_follow {op o : Operation} {outer : List Call} {p : Task.Piece} {n : Nat}
    {r : Reply} (h : .answered n o r ∈ (follow op outer p).2) :
    p.next = .reply r ∧ o = op ∧ n = outer.length := by
  obtain ⟨-, ⟨task, -, -, hshown⟩ | ⟨reply, hnext, -, hshown⟩⟩ := follow_calls op outer p
  · rw [hshown] at h
    cases task with
    | evictTelling e => exact nomatch List.mem_singleton.mp h
    | _ => exact (List.not_mem_nil h).elim
  · rw [hshown] at h
    cases List.mem_singleton.mp h
    exact ⟨hnext, rfl, rfl⟩

theorem mem_follow_of_reply {op : Operation} {outer : List Call} {p : Task.Piece} {r : Reply}
    (h : p.next = .reply r) : .answered outer.length op r ∈ (follow op outer p).2 := by
  unfold follow
  rw [h]
  exact List.mem_singleton.mpr rfl

/-- What is in transit behind a piece is the cargo of the call that it leaves, or of one around. -/
theorem Laden.follow {own : Option Cargo} {grants : Page → Prop} {m : Memory} {op : Operation}
    {outer : List Call} {p : Task.Piece} (h : Task.Hauls own grants m p) (hown : Task.Aboard m own)
    (aboard : ∀ c ∈ outer, Task.Aboard m c.task.cargo?)
    (hapart : ∀ c ∈ outer, ∀ a d, own = some a → c.task.cargo? = some d → a.frame ≠ d.frame)
    (apart : outer.Pairwise fun inner outer => ∀ c d, inner.task.cargo? = some c →
      outer.task.cargo? = some d → c.frame ≠ d.frame)
    (carried : ∀ c o, m.coremap.Carries c o →
      own = some c ∨ ∃ call ∈ outer, call.task.cargo? = some c) :
    Laden p.memory (Machine.follow op outer p).1.calls := by
  -- the cargo of a call around is not the operation's
  have hother : ∀ call ∈ outer, ∀ d, call.task.cargo? = some d → own ≠ some d :=
    fun call hcall d hd he => hapart call hcall d d he hd rfl
  have haboard : ∀ call ∈ outer, Task.Aboard p.memory call.task.cargo? := by
    intro call hcall d hd
    obtain ⟨o, ho⟩ := aboard call hcall d hd
    obtain ⟨o', ho', -⟩ := h.kept d o ho (hother call hcall d hd)
    exact ⟨o', ho'⟩
  have hcarried : ∀ c o, p.memory.coremap.Carries c o →
      p.next.cargo? = some c ∨ ∃ call ∈ outer, call.task.cargo? = some c := by
    intro c o hc
    rcases h.only c o hc with hn | ⟨hne, o', hc', -⟩
    · exact Or.inl hn
    · exact Or.inr ((carried c o' hc').resolve_left hne)
  obtain ⟨-, ⟨task, hnext, hcalls, -⟩ | ⟨reply, hnext, hcalls, -⟩⟩ := follow_calls op outer p
  · have hnew : ∀ c, task.cargo? = some c → p.next.cargo? = some c := by
      intro c hc
      rw [hnext]
      exact hc
    rw [hcalls]
    refine ⟨List.forall_mem_cons.mpr ⟨?_, haboard⟩, .cons ?_ apart, ?_⟩
    · intro c hc
      rcases h.next c (hnew c hc) with ⟨he, hsame⟩ | ⟨-, hfresh, -⟩
      · obtain ⟨o, ho⟩ := hown c he
        exact ⟨o, hsame o ho⟩
      · exact ⟨false, hfresh⟩
    · intro call hcall c d hc hd hframe
      rcases h.next c (hnew c hc) with ⟨he, -⟩ | ⟨-, -, honly, -⟩
      · exact hapart call hcall c d he hd hframe
      · obtain ⟨o, ho⟩ := aboard call hcall d hd
        exact hother call hcall d hd (honly d o ho hframe.symm)
    · intro c o hc
      rcases hcarried c o hc with hn | ⟨call, hcall, hd⟩
      · rw [hnext] at hn
        exact ⟨_, List.mem_cons_self, hn⟩
      · exact ⟨call, List.mem_cons_of_mem _ hcall, hd⟩
  · rw [hcalls]
    refine ⟨haboard, apart, fun c o hc => ?_⟩
    rcases hcarried c o hc with hn | hall
    · rw [hnext] at hn
      exact nomatch hn
    · exact hall

/-- Whatever is busy behind a piece is in the hands of the call that it leaves, or of one around. -/
theorem held_follow {op : Operation} {outer : List Call} {p : Task.Piece}
    (h : ∀ x q s, p.memory.swap.slots.state? x = some (q, s) → s ≠ .idle →
      p.next.holds x q ∨ ∃ c ∈ outer, c.task.holds x q) :
    ∀ x q s, (follow op outer p).1.memory.swap.slots.state? x = some (q, s) → s ≠ .idle →
      ∃ c ∈ (follow op outer p).1.calls, c.task.holds x q := by
  intro x q s hs hne
  rw [follow_memory] at hs
  obtain ⟨-, ⟨task, hnext, hcalls, -⟩ | ⟨reply, hnext, hcalls, -⟩⟩ := follow_calls op outer p
  · rw [hcalls]
    rcases h x q s hs hne with hx | ⟨c, hc, hx⟩
    · rw [hnext] at hx
      exact ⟨_, List.mem_cons_self, hx⟩
    · exact ⟨c, List.mem_cons_of_mem _ hc, hx⟩
  · rw [hcalls]
    rcases h x q s hs hne with hx | hall
    · rw [hnext] at hx
      exact hx.elim
    · exact hall

/-- A teardown leaves the slots busy that were so. -/
theorem busy_of_swept {space x : Nat} {q : Page} {s : SlotMap.SlotState} {slots slots' : SlotMap}
    (hswept : slots'.state? x = SlotMap.swept space (slots.state? x))
    (hs : slots'.state? x = some (q, s)) (hne : s ≠ .idle) :
    ∃ s', slots.state? x = some (q, s') ∧ s' ≠ .idle := by
  rw [hswept] at hs
  rcases SlotMap.swept_eq_some hs with ⟨-, hx⟩ | ⟨-, -, t, ht, hx⟩
  · exact ⟨s, hx, hne⟩
  · exact ⟨t, hx, ht⟩

/-- **Soundness is kept** by every move. -/
theorem Sound.moved (hw : w.Sound) (h : Moved w move w' events) : w'.Sound := by
  cases h with
  | @started op p hop hno hp takes hauls serves =>
      have hcarried : ∀ c o, w.memory.coremap.Carries c o →
          none = some c ∨ ∃ call ∈ w.calls, call.task.cargo? = some c :=
        fun c o hc => Or.inr (hw.laden.carried c o hc)
      refine ⟨?_, ?_, ?_, ?_, forall_follow (fun t ht => (serves t ht).1) hw.serves, ?_,
        held_follow ?_⟩
      · rw [follow_memory]
        refine ⟨takes.slots, ?_, ?_⟩
        · rw [takes.device]
          exact hw.area.fits
        · rw [takes.capacity, takes.device]
          exact hw.area.capacity
      · rw [follow_memory]
        exact hauls.sound
      · rw [follow_memory, takes.ram, takes.table.size]
        exact hw.ram
      · rw [follow_memory]
        refine forall_follow ?_ ?_
        · intro t ht
          have hproper := takes.proper
          rw [ht] at hproper
          exact hproper
        · rw [takes.device]
          exact hw.proper
      · rw [follow_memory]
        exact .follow hauls nofun hw.laden.aboard (fun _ _ _ _ he => nomatch he) hw.laden.apart
          hcarried
      · intro x q s hs hne
        by_cases hx : ∃ q', p.next.holds x q'
        · obtain ⟨q', hx⟩ := hx
          rw [(takes.taken x q' hx).1] at hs
          cases hs
          exact Or.inl hx
        · rw [takes.kept x fun q' hq' => hx ⟨q', hq'⟩] at hs
          exact Or.inr (hw.held x q s hs hne)
  | @toreDown space frames cleared p tears hauls gaveUp =>
      obtain ⟨_, _, hnext⟩ := tears.next
      have hladen : Laden p.memory (follow (.tearDown space) w.calls p).1.calls :=
        .follow hauls nofun hw.laden.aboard (fun _ _ _ _ he => nomatch he) hw.laden.apart
          fun c o hc => Or.inr (hw.laden.carried c o hc)
      unfold follow at hladen
      rw [hnext] at hladen
      refine ⟨⟨tears.slots, ?_, ?_⟩, hauls.sound, ?_, ?_, hw.serves, hladen, ?_⟩
      · rw [tears.device]
        exact hw.area.fits
      · rw [tears.capacity, tears.device]
        exact hw.area.capacity
      · rw [tears.ram, tears.table.size]
        exact hw.ram
      · rw [tears.device]
        exact hw.proper
      · intro x q s hs hne
        obtain ⟨s', hs', hne'⟩ := busy_of_swept (tears.state x) hs hne
        exact hw.held x q s' hs' hne'
  | @resumed call outer p hcalls hp resumes hauls follows =>
      obtain ⟨-, hpropers⟩ := List.forall_mem_cons.mp (hcalls ▸ hw.proper)
      obtain ⟨hserve, hserves⟩ := List.forall_mem_cons.mp (hcalls ▸ hw.serves)
      have hladen := hw.laden
      rw [hcalls] at hladen
      obtain ⟨hown, haboard⟩ := List.forall_mem_cons.mp hladen.aboard
      obtain ⟨hapart, haparts⟩ := List.pairwise_cons.mp hladen.apart
      refine ⟨?_, ?_, ?_, ?_, ?_, ?_, held_follow ?_⟩
      · rw [follow_memory]
        exact resumes.area
      · rw [follow_memory]
        exact hauls.sound
      · rw [follow_memory, resumes.ram, resumes.table.size]
        exact hw.ram
      · rw [follow_memory]
        refine forall_follow ?_ ?_
        · intro t ht
          have hnext := resumes.proper
          rw [ht] at hnext
          exact hnext
        · intro c hc
          exact (hpropers c hc).of_layout resumes.layout
      · refine forall_follow ?_ hserves
        intro t ht
        rw [ht] at follows
        exact follows.serves hserve
      · rw [follow_memory]
        refine .follow hauls hown haboard hapart haparts ?_
        intro c o hc
        obtain ⟨call', hmem, hcargo⟩ := hladen.carried c o hc
        rcases List.mem_cons.mp hmem with rfl | hmem
        · exact Or.inl hcargo
        · exact Or.inr ⟨call', hmem, hcargo⟩
      · intro x q s hs hne
        obtain ⟨c, hc, hx⟩ := hw.held x q s (resumes.slots.busy hs hne) hne
        rw [hcalls] at hc
        rcases List.mem_cons.mp hc with rfl | hc
        · by_cases hno : p.next.holds x q
          · exact Or.inl hno
          · exact absurd (resumes.done x q s hx hno hs) hne
        · exact Or.inr ⟨c, hc, hx⟩
  | rested hcalls => exact hw
  | @probed probe o m hp leaves =>
      refine ⟨leaves.area hw.area, ?_, ?_, fun c hc => (hw.proper c hc).of_layout leaves.layout,
        hw.serves, ?_, ?_⟩
      · show m.coremap.Sound
        rw [leaves.coremap]
        exact hw.coremap
      · show m.ram.size = m.coremap.size
        rw [leaves.ram, leaves.coremap]
        exact hw.ram
      · refine ⟨?_, hw.laden.apart, ?_⟩
        · intro c hc d hd
          show ∃ o, m.coremap.Carries d o
          rw [leaves.coremap]
          exact hw.laden.aboard c hc d hd
        · intro c o hc
          have hc' : m.coremap.Carries c o := hc
          rw [leaves.coremap] at hc'
          exact hw.laden.carried c o hc'
      · intro x q s hs
        have hs' : m.swap.slots.state? x = some (q, s) := hs
        rw [leaves.slots] at hs'
        exact hw.held x q s hs'

/-- A property that holds of what has happened so far and that every move of a sound machine keeps
holds behind every run of the allocator. -/
theorem Sound.run_induction {rules : Machine → Move → Bool} {P : Machine → List Event → Prop}
    {l : List Event} {moves : List Move} (hle : ∀ w move, rules w move = true →
      managed w move = true)
    (step : ∀ w past move w' events, w.Sound → P w past → rules w move = true →
      Moved w move w' events → P w' (past ++ events))
    (hw : w.Sound) (start : P w l) (h : w.run rules moves = some (w', events)) :
    w'.Sound ∧ P w' (l ++ events) := by
  refine Machine.run_induction (P := fun w past => w.Sound ∧ P w past) ?_ ⟨hw, start⟩ h
  rintro w past move w' events ⟨hw, hP⟩ hrule hstep
  have hmoved := moved_of_step hw (hle w move hrule) hstep
  exact ⟨hw.moved hmoved, step w past move w' events hw hP hrule hmoved⟩

/-- Every run of the allocator from a fresh memory system is sound. -/
theorem Sound.of_run {m : Memory} {moves : List Move} (hm : m.IsFresh)
    (h : (Machine.idle m).run managed moves = some (w, events)) : w.Sound :=
  (Sound.run_induction (P := fun _ _ => True) (l := []) (fun _ _ hr => hr)
    (fun _ _ _ _ _ _ _ _ _ => trivial) (.idle hm) trivial h).1

end PhysMem.Machine
