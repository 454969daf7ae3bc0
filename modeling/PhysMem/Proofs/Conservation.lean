import PhysMem.Proofs.Atomicity
import PhysMem.Proofs.Figures

/-!
# Conservation — no swap slot is lost, and none is released twice

A slot is reserved for an eviction, and it is used from then on. An eviction that fails releases it,
and one that the pager is told of leaves it to its page, until a page-in, a restore or a teardown
releases it. So in a run where operations follow each other, as many slots are used as the pager was
told of, less the pages that were brought back and the slots that were cleared.

* **`told`**, **`restored`** and **`cleared`** read these numbers off the events.
* **`Tallies`** says that the figures agree with the events, up to the eviction under way.
  **`start_tallies`** and **`Goes.tallies`** are its preservation by a piece.
* **`Balanced.step`** is the same for a move.
* **`swap_slots_are_conserved`** is what it says of a memory system at rest.
-/

namespace PhysMem

open SlotMap

/-! ## What the events say -/

/-- Whether the answer is that of a restore or a page-in that has succeeded. -/
def Operation.bringsBack : Operation → Reply → Bool
  | .restore .., .transferred (.ok ()) => true
  | .pageIn .., .address (.ok _) => true
  | _, _ => false

namespace Event

/-- The pager is told of an eviction. -/
def isTold : Event → Bool
  | .told .. => true
  | .answered .. => false

/-- A restore or a page-in has succeeded. -/
def isRestored : Event → Bool
  | .told .. => false
  | .answered _ op reply => op.bringsBack reply

/-- How many slots a teardown has cleared. -/
def cleared : Event → Nat
  | .answered _ (.tearDown _) (.tornDown _ n) => n
  | _ => 0

end Event

/-- One if what comes next is the answer of a restore or a page-in that has succeeded. -/
def Task.Next.restored (op : Operation) : Task.Next → Nat
  | .reply r => (op.bringsBack r).toNat
  | .callOut _ => 0

theorem Task.Next.restored_eq_zero {op : Operation} {n : Task.Next}
    (hr : ∀ slot address, op = .restore slot address → n ≠ .reply (.transferred (.ok ())))
    (hp : ∀ page slot address, op = .pageIn page slot → n ≠ .reply (.address (.ok address))) :
    n.restored op = 0 := by
  cases n with
  | callOut task => rfl
  | reply r =>
      show (op.bringsBack r).toNat = 0
      unfold Operation.bringsBack
      split
      · exact absurd rfl (hr _ _ rfl)
      · exact absurd rfl (hp _ _ _ rfl)
      · rfl

namespace Task

variable {m : Memory} {p : Piece} {t : Task} {op : Operation} {f : Filling} {held : Bool}

/-- A restore that is stopped has a slot that is used. -/
def Backed (m : Memory) (t : Task) : Prop :=
  ∀ f, t.filling? = some f → f.page = none → ∃ page, m.swap.slots.owner f.slot = some page

/-- A restore begins with a slot that is used. -/
theorem start_backed (hm : m.swap.slots.Sound) (hop : op.isManaged = true)
    (hp : start held m op = .ok p) (hn : p.next = .callOut t) : t.Backed p.memory := by
  intro f hf hpage
  cases ((start_serves hop hp hn).1.filling hf).of_none hpage
  cases restore_cases hp with
  | noFrame | noSlot => exact nomatch hn
  | filling _ hused => exact owner_of_isUsed hm hused

end Task

/-- A probe that leaves the slot map alone leaves the counters alone too. -/
theorem Probe.act_counters {p : Probe} {m m' : Memory} {o : Outcome}
    (hp : p.leavesSlots = true) (h : p.act m = .ok (o, m')) :
    m'.evictions = m.evictions ∧ m'.restores = m.restores := by
  cases p with
  | stats | tlbSlot | isReserved | contents =>
      obtain ⟨_, -, h⟩ := Fault.bind_eq_ok.mp h
      cases h
      exact ⟨rfl, rfl⟩
  | frameCount | slotOwner | swapInfo | setFailing | setLimit | entry =>
      cases h
      exact ⟨rfl, rfl⟩
  | reserveSlot | holdSlot | settleSlot | releaseSlot | releaseSlotIfOwned | releaseSlots =>
      exact nomatch hp
  | store address bytes =>
      obtain ⟨old, -, h⟩ := Fault.bind_eq_ok.mp h
      cases h
      unfold Memory.putContentsAt
      split <;> exact ⟨rfl, rfl⟩
  | map page address =>
      unfold Probe.act at h
      dsimp only at h
      split at h <;> cases h <;> exact ⟨rfl, rfl⟩

theorem Probe.perform_counters {loans : List Task.Loan} {p : Probe} {m m' : Memory} {o : Outcome}
    (hp : p.leavesSlots = true) (h : p.perform loans m = .ok (o, m')) :
    m'.evictions = m.evictions ∧ m'.restores = m.restores := by
  rcases perform_cases h with ⟨-, -, rfl⟩ | ⟨-, h⟩
  · exact ⟨rfl, rfl⟩
  · exact act_counters hp h

namespace Machine

variable {w w' : Machine} {l now : List Event} {op : Operation} {outer : List Call} {p : Task.Piece}
  {m : Memory} {t : Task} {held : Bool}

/-- How often the pager was told of an eviction. -/
def told (l : List Event) : Nat := l.countP Event.isTold

/-- How many restores and page-ins have succeeded. -/
def restored (l : List Event) : Nat := l.countP Event.isRestored

/-- How many slots the teardowns have cleared. -/
def cleared : List Event → Nat
  | [] => 0
  | event :: l => event.cleared + cleared l

theorem told_append : told (l ++ now) = told l + told now := List.countP_append

theorem restored_append : restored (l ++ now) = restored l + restored now := List.countP_append

theorem cleared_append : cleared (l ++ now) = cleared l + cleared now := by
  induction l with
  | nil => exact (Nat.zero_add _).symm
  | cons event l ih =>
      show event.cleared + cleared (l ++ now) = event.cleared + cleared l + cleared now
      rw [ih, Nat.add_assoc]

/-- How many of the calls have a slot for an eviction that the pager has not been told of. -/
def promised (calls : List Call) : Nat := calls.foldr (fun c n => c.task.promised + n) 0

/-- How many of the calls have told the pager of an eviction that is not counted. -/
def telling (calls : List Call) : Nat := calls.foldr (fun c n => c.task.telling + n) 0

theorem promised_follow :
    promised (follow op outer p).1.calls = p.next.promised + promised outer := by
  unfold follow
  cases p.next with
  | callOut task => rfl
  | reply reply => exact (Nat.zero_add _).symm

theorem telling_follow : telling (follow op outer p).1.calls = p.next.telling + telling outer := by
  unfold follow
  cases p.next with
  | callOut task => rfl
  | reply reply => exact (Nat.zero_add _).symm

/-- The pager is told where a call stops that has told it. -/
theorem told_follow : told (follow op outer p).2 = p.next.telling := by
  unfold follow
  cases p.next with
  | callOut task => cases task <;> rfl
  | reply reply => rfl

theorem restored_follow : restored (follow op outer p).2 = p.next.restored op := by
  unfold follow
  cases p.next with
  | callOut task => cases task <;> rfl
  | reply reply =>
      show [Event.answered outer.length op reply].countP Event.isRestored =
        (op.bringsBack reply).toNat
      rw [List.countP_singleton]
      show (if op.bringsBack reply = true then 1 else 0) = (op.bringsBack reply).toNat
      cases op.bringsBack reply <;> rfl

/-- Only a teardown clears slots. -/
theorem cleared_follow (hno : ∀ space, op ≠ .tearDown space) :
    cleared (follow op outer p).2 = 0 := by
  unfold follow
  cases p.next with
  | callOut task => cases task <;> rfl
  | reply reply =>
      cases op with
      | tearDown space => exact absurd rfl (hno space)
      | _ => rfl

/-! ## The figures and the events -/

/-- The figures agree with what has happened, where so many evictions have a slot that the pager has
not been told of, and so many that it was told of are not counted. -/
def Tallies (m : Memory) (promised telling : Nat) (l : List Event) : Prop :=
  ∃ used counted, m.Shows used counted (restored l) ∧ counted + telling = told l ∧
    used + restored l + cleared l = told l + promised

/-- The books behind a piece are drawn up from what it did to the figures. -/
theorem Tallies.follow {used counted : Nat} (hno : ∀ space, op ≠ .tearDown space)
    (h : p.memory.Shows used counted (restored l + p.next.restored op))
    (hcounted : counted = told l)
    (hused : used + p.next.restored op + restored l + cleared l =
      told l + p.next.promised + p.next.telling) :
    Tallies p.memory p.next.promised p.next.telling (l ++ (Machine.follow op outer p).2) := by
  refine ⟨used, counted, ?_, ?_, ?_⟩
  · rw [restored_append, restored_follow]
    exact h
  · rw [told_append, told_follow, hcounted]
  · rw [restored_append, restored_follow, cleared_append, cleared_follow hno, told_append,
      told_follow]
    omega

/-- No operation has read a page back when it starts. -/
theorem restored_of_start (hp : Task.start held m op = .ok p) : p.next.restored op = 0 := by
  refine Task.Next.restored_eq_zero ?_ ?_
  · rintro slot address rfl hn
    obtain ⟨e, he⟩ := Task.restore_reply hp hn
    exact nomatch he
  · rintro page slot address rfl hn
    obtain ⟨e, he⟩ := Task.pageIn_reply hp hn
    exact nomatch he

/-- **An operation that starts** keeps the books. -/
theorem start_tallies (hop : op.isManaged = true) (hp : Task.start held m op = .ok p)
    (h : Tallies m 0 0 l) :
    Tallies p.memory p.next.promised p.next.telling (l ++ (Machine.follow op outer p).2) := by
  obtain ⟨used, counted, hshows, hcounted, hused⟩ := h
  by_cases htear : ∃ space, op = .tearDown space
  · -- a teardown alone clears slots, as many as it answers
    obtain ⟨space, rfl⟩ := htear
    obtain ⟨frames, n, left, hn, hleft, hshows'⟩ := Task.tearDown_shows hshows hp
    have hfollow : (Machine.follow (.tearDown space) outer p).2 =
        [.answered outer.length (.tearDown space) (.tornDown frames n)] := by
      unfold Machine.follow
      rw [hn]
    refine ⟨left, counted, ?_, ?_, ?_⟩
    · rw [restored_append, hfollow]
      exact hshows'
    · rw [told_append, hfollow, hn]
      exact hcounted
    · rw [restored_append, cleared_append, told_append, hfollow, hn]
      show left + restored l + (cleared l + n) = told l + 0
      omega
  · have hno : ∀ space, op ≠ .tearDown space := fun space he => htear ⟨space, he⟩
    -- it may have reserved a slot, but the pager is told later
    have htelling : p.next.telling = 0 := by
      cases hn : p.next with
      | reply r => rfl
      | callOut t =>
          have hmaps := (Task.start_serves hop hp hn).2
          cases t with
          | evictTelling e => exact nomatch hmaps
          | _ => rfl
    have hnone := restored_of_start hp
    have hshows' : p.memory.Shows (used + p.next.promised) counted
        (restored l + p.next.restored op) := by
      rw [hnone]
      exact Task.start_shows hshows hop hno hp
    exact .follow hno hshows' hcounted (by omega)

namespace Goes

open PhysMem.Task

variable {f : Filling} {e : Eviction} {used counted : Nat}

/-- An operation that goes on has read a page back when its filling is done, and only then. -/
theorem restored_eq_zero (h : Goes m op t p)
    (hno : ∀ f, t.filling? = some f → p.next ≠ .reply (doneReply f)) : p.next.restored op = 0 := by
  refine Task.Next.restored_eq_zero ?_ ?_
  · rintro slot address rfl hn
    obtain ⟨f, hf, hpage, -, -⟩ := (hn ▸ h.follows).restore_reply h.serves
    refine hno f hf ?_
    unfold doneReply
    rw [hpage]
    exact hn
  · rintro page slot address rfl hn
    obtain ⟨f, hf, -, -, hdone⟩ := h.done (Or.inl ⟨rfl, hn⟩)
    exact hno f hf hdone

theorem restored_eq_one (h : Goes m op t p) (hf : t.filling? = some f)
    (hn : p.next = .reply (doneReply f)) : p.next.restored op = 1 := by
  have hserves := h.serves.filling hf
  rw [hn]
  unfold doneReply
  cases hpage : f.page with
  | none =>
      rw [hserves.of_none hpage]
      rfl
  | some page =>
      rw [hserves.of_page hpage]
      rfl

/-- **An operation on its way to the device** has a slot that is used, until it is given up. -/
theorem writes_shows {restored : Nat} (h : Goes m op t p)
    (ht : t = .evictMapping e ∨ ∃ i, t = .evictWriting e i)
    (hshows : m.Shows (used + 1) counted restored) :
    p.memory.Shows (used + p.next.promised + p.next.telling) counted restored := by
  obtain ⟨held, hp⟩ := h.piece
  have hproper := h.proper
  have hhands := h.hands
  have hcargo := h.cargo
  rcases ht with rfl | ⟨i, rfl⟩
  · exact evicting_shows hshows (hhands e.slot e.page (Or.inl ⟨rfl, rfl⟩))
      (fun x q hx => hhands x q (Or.inr hx)) hproper (hcargo _ rfl) (.of_mapping hp)
  · exact evicting_shows hshows (hhands e.slot e.page (Or.inl ⟨rfl, rfl⟩))
      (fun x q hx => hhands x q (Or.inr hx)) hproper.1 (hcargo _ rfl) (.of_writing hp)

/-- What a filling relies on is so. -/
theorem ready (h : Goes m op t p) (hb : t.Backed m) (hf : t.filling? = some f) : Ready m f := by
  have hands : ∀ page, f.page = some page → m.swap.slots.state? f.slot = some (page, .busy) :=
    fun page hpage => h.hands f.slot page (holds_of_filling hf hpage)
  refine ⟨?_, hands, fun c hc => h.cargo c ((cargo?_of_filling hf).trans hc)⟩
  cases hpage : f.page with
  | none => exact hb f hf hpage
  | some page => exact ⟨page, owner_of_state? (hands page hpage)⟩

/-- **An eviction that goes on** keeps the books on its way to the device. -/
theorem writes_tallies (h : Goes m op t p) (ht : t = .evictMapping e ∨ ∃ i, t = .evictWriting e i)
    (htallies : Tallies m 1 0 l) :
    Tallies p.memory p.next.promised p.next.telling (l ++ (Machine.follow op outer p).2) := by
  obtain ⟨used, counted, hshows, hcounted, hused⟩ := htallies
  have hbusy : m.swap.slots.state? e.slot = some (e.page, .busy) := by
    refine h.hands e.slot e.page ?_
    rcases ht with rfl | ⟨i, rfl⟩ <;> exact Or.inl ⟨rfl, rfl⟩
  -- the slot that was promised is one of those used, and may be released again
  obtain ⟨less, rfl⟩ := hshows.of_owner (owner_of_state? hbusy)
  have hnone : p.next.restored op = 0 := by
    refine h.restored_eq_zero fun f hf => ?_
    rcases ht with rfl | ⟨i, rfl⟩ <;> exact nomatch hf
  have hshows' : p.memory.Shows (less + p.next.promised + p.next.telling) counted
      (restored l + p.next.restored op) := by
    rw [hnone]
    exact h.writes_shows ht hshows
  exact .follow h.serves.not_tearDown hshows' hcounted (by omega)

/-- So it does when the pager has been told. -/
theorem tells_tallies (hm : m.coremap.Sound) (h : Goes m op (.evictTelling e) p)
    (htallies : Tallies m 0 1 l) :
    Tallies p.memory p.next.promised p.next.telling (l ++ (Machine.follow op outer p).2) := by
  obtain ⟨used, counted, hshows, hcounted, hused⟩ := htallies
  obtain ⟨held, hp⟩ := h.piece
  have hshows' := toldPager_shows hshows hm h.hands (h.cargo _ rfl) hp
  obtain ⟨hpromised, htelling⟩ := (toldPager_ended hp).settled
  have hnone := h.restored_eq_zero fun f hf => nomatch hf
  rw [← Nat.add_zero (restored l), ← hnone] at hshows'
  exact .follow h.serves.not_tearDown hshows' hcounted (by omega)

/-- **A filling that goes on** keeps the books. -/
theorem fills_tallies (hm : m.coremap.Sound) (h : Goes m op t p) (hb : t.Backed m)
    (hf : t.filling? = some f) (htallies : Tallies m 0 0 l) :
    Tallies p.memory p.next.promised p.next.telling (l ++ (Machine.follow op outer p).2) := by
  obtain ⟨used, counted, hshows, hcounted, hused⟩ := htallies
  obtain ⟨held, hp⟩ := h.piece
  have hready := h.ready hb hf
  -- a filling that is done releases a slot that is used, so a slot is there to be taken off
  obtain ⟨page, ho⟩ := hready.used
  obtain ⟨less, rfl⟩ := hshows.of_owner ho
  -- what comes behind a filling is no eviction
  have hsettled : p.next.promised = 0 ∧ p.next.telling = 0 := by
    have hfollows := h.follows
    cases hn : p.next with
    | reply r => exact ⟨rfl, rfl⟩
    | callOut t' =>
        rw [hn] at hfollows
        exact settled_of_filling (hfollows.filling hf)
  cases resume_finishes hshows hm hf hready hp with
  | done hn hshows' =>
      have hone := h.restored_eq_one hf hn
      rw [← hone] at hshows'
      exact .follow h.serves.not_tearDown hshows' hcounted (by omega)
  | undone hn hshows' =>
      have hnone : p.next.restored op = 0 := by
        refine h.restored_eq_zero fun g hg => ?_
        cases hf.symm.trans hg
        exact hn
      rw [← Nat.add_zero (restored l), ← hnone] at hshows'
      exact .follow h.serves.not_tearDown hshows' hcounted (by omega)

/-- **An operation that goes on** keeps the books. -/
theorem tallies (hm : m.coremap.Sound) (h : Goes m op t p) (hb : t.Backed m)
    (htallies : Tallies m t.promised t.telling l) :
    Tallies p.memory p.next.promised p.next.telling (l ++ (Machine.follow op outer p).2) := by
  cases t with
  | evictMapping e => exact h.writes_tallies (Or.inl rfl) htallies
  | evictWriting e i => exact h.writes_tallies (Or.inr ⟨i, rfl⟩) htallies
  | evictTelling e => exact h.tells_tallies hm htallies
  | fillMapping f => exact h.fills_tallies hm hb rfl htallies
  | fillReading f i => exact h.fills_tallies hm hb rfl htallies
  | fillScrubbing f i => exact h.fills_tallies hm hb rfl htallies
  | slotReading slot buffer i => exact h.serves.elim
  | slotWriting slot data i => exact h.serves.elim

/-- A restore that goes on has its slot. -/
theorem backed (hm : m.swap.slots.Sound) (h : Goes m op t p) (hb : t.Backed m) {t' : Task}
    (hn : p.next = .callOut t') : t'.Backed p.memory := by
  intro f hf hpage
  have hfollows := h.follows
  rw [hn] at hfollows
  have hop := ((hfollows.serves h.serves).filling hf).of_none hpage
  obtain ⟨g, hg⟩ := (hop ▸ h.serves).fills
  cases hf.symm.trans (hfollows.filling hg)
  obtain ⟨held, hp⟩ := h.piece
  cases resume_restores hm hpage hg hp with
  | released hr sets => exact nomatch hn.symm.trans hr
  | left hr slots =>
      rw [slots]
      exact hb f hg hpage

end Goes

/-! ## Moves -/

/-- The books are kept, and a restore under way has its slot. -/
structure Balanced (w : Machine) (l : List Event) : Prop where
  tallies : Tallies w.memory (promised w.calls) (telling w.calls) l
  backed : ∀ c ∈ w.calls, c.task.Backed w.memory

/-- Nothing is used or counted in a fresh memory system. -/
theorem Balanced.idle (hm : m.IsFresh) (he : m.evictions = 0) (hr : m.restores = 0) :
    (Machine.idle m).Balanced [] := by
  obtain ⟨n, hslots, hn⟩ := hm.slots_empty
  refine ⟨⟨0, 0, ⟨?_, ?_, he, hr⟩, rfl, rfl⟩, List.forall_mem_nil _⟩
  · show m.swap.slots.Coherent
    rw [hslots]
    exact empty_coherent hn
  · show m.swap.slots.count = 0
    rw [hslots]
    rfl

/-- What a piece leaves is balanced. -/
theorem Balanced.follow (h : Tallies p.memory p.next.promised p.next.telling l)
    (hb : ∀ t, p.next = .callOut t → t.Backed p.memory) :
    (Machine.follow op [] p).1.Balanced l := by
  refine ⟨?_, ?_⟩
  · rw [follow_memory, promised_follow, telling_follow]
    exact h
  · rw [follow_memory]
    exact forall_follow hb (List.forall_mem_nil _)

/-- **The books are kept** by every move. -/
theorem Balanced.step (hs : w.Sound) (hi : w.Intact l) (h : w.Balanced l) {move : Move}
    (hrule : sequential w move = true) (hstep : w.step move = .ok (w', now)) :
    w'.Balanced (l ++ now) := by
  cases move with
  | start op =>
      obtain ⟨hempty, hop⟩ := Bool.and_eq_true_iff.mp hrule
      obtain ⟨p, hp, hfollow⟩ := start_cases hstep
      obtain ⟨rfl, rfl⟩ : (Machine.follow op w.calls p).1 = w' ∧
          (Machine.follow op w.calls p).2 = now := by
        rw [hfollow]
        exact ⟨rfl, rfl⟩
      have htallies := h.tallies
      rw [List.isEmpty_iff.mp hempty] at htallies hp ⊢
      exact .follow (start_tallies hop hp htallies) fun t hn =>
        Task.start_backed hs.area.slots hop hp hn
  | resume =>
      cases moved_of_step hs (managed_of_sequential hrule) hstep with
      | rested hcalls =>
          rw [List.append_nil]
          exact h
      | @resumed call outer p hcalls hp resumes hauls follows =>
          obtain rfl := hi.outer_eq_nil hcalls
          have hgoes := hi.goes hs hcalls hp resumes hauls follows
          have hb := h.backed call (hcalls ▸ List.mem_cons_self)
          have htallies := h.tallies
          rw [hcalls] at htallies
          exact .follow (hgoes.tallies hs.coremap hb htallies) fun t hn =>
            hgoes.backed hs.area.slots hb hn
  | probe probe =>
      obtain ⟨outcome, m, hp, rfl, rfl⟩ := probe_cases hstep
      have hleaves := (Bool.and_eq_true_iff.mp hrule).1
      have hslots := (Probe.perform_leaves hleaves hp).slots
      obtain ⟨hev, hres⟩ := Probe.perform_counters hleaves hp
      rw [List.append_nil]
      obtain ⟨used, counted, hshows, hcounted, hused⟩ := h.tallies
      refine ⟨⟨used, counted, hshows.of_same hslots hev hres, hcounted, hused⟩, ?_⟩
      intro c hc f hf hpage
      show ∃ page, m.swap.slots.owner f.slot = some page
      rw [hslots]
      exact h.backed c hc f hf hpage

/-- The books are kept along every sequential run. -/
theorem Balanced.of_run (hm : m.IsFresh) (he : m.evictions = 0) (hr : m.restores = 0)
    {moves : List Move} (hrun : (Machine.idle m).run sequential moves = some (w, l)) :
    w.Balanced l := by
  -- `Intact` says that the operation under way has its slots, which nobody tears down meanwhile
  refine (run_induction (P := fun w past => w.Sound ∧ w.Intact past ∧ w.Balanced past) (l := [])
    ?_ ⟨.idle hm, .idle m, .idle hm he hr⟩ hrun).2.2
  rintro w past move w' now ⟨hs, hi, h⟩ hrule hstep
  have hmoved := moved_of_step hs (managed_of_sequential hrule) hstep
  exact ⟨hs.moved hmoved, hi.moved hs hrule hmoved, h.step hs hi hrule hstep⟩

/-- **Conservation of swap slots**, whenever no operation is in flight in a run where operations
follow each other.

The figures show as many evictions as the pager was told of, as many restores as restores and
page-ins have succeeded, and as many used slots as there were evictions less the pages brought back
and the slots that teardowns cleared. As many slots are in fact used. The pager must have been told
no more often than a word can count. -/
theorem swap_slots_are_conserved (hm : m.IsFresh) (he : m.evictions = 0) (hr : m.restores = 0)
    {moves : List Move} {events : List Event}
    (hrun : (Machine.idle m).run sequential moves = some (w, events)) (hempty : w.calls = [])
    (hword : told events < Word.span Word.bits) :
    ∃ s, w.memory.stats = .ok s ∧ s.evictions = told events ∧ s.restores = restored events ∧
      s.swapUsed + s.restores + cleared events = s.evictions ∧
      s.swapUsed = w.memory.swap.slots.usedSlots := by
  obtain ⟨used, counted, hshows, hcounted, hused⟩ := (Balanced.of_run hm he hr hrun).tallies
  rw [hempty] at hcounted hused
  have hcounted : counted = told events := hcounted
  have hused : used + restored events + cleared events = told events := hused
  obtain ⟨frames, hframes⟩ := (exact_of_run hm (managed_run_of_sequential hrun)).stats_eq_ok
  have hevictions : w.memory.evictions = told events := by
    rw [hshows.evictions, hcounted, Nat.mod_eq_of_lt hword]
  have hrestores : w.memory.restores = restored events := by
    rw [hshows.restores, Nat.mod_eq_of_lt]
    omega
  refine ⟨⟨frames, w.memory.swap.capacity, w.memory.swap.slots.count, w.memory.evictions,
    w.memory.restores⟩, ?_, hevictions, hrestores, ?_, hshows.coherent.count_eq⟩
  · unfold Memory.stats
    rw [hframes]
    rfl
  · show w.memory.swap.slots.count + w.memory.restores + cleared events = w.memory.evictions
    rw [hshows.used, hrestores, hevictions]
    exact hused

/-- A page is evicted and comes back, an eviction fails, then this page and another are evicted, and
in the end the space of the first is torn down. -/
def comings : List Move := List.flatten
  [[.start (.allocate .user 1 (some ⟨1, 0⟩)), .start .evict], List.replicate 10 .resume,
    [.start (.pageIn ⟨1, 0⟩ 0)], List.replicate 17 .resume,
    [.start (.allocate .user 1 (some ⟨2, 0⟩)), .probe (.setFailing .writes true), .start .evict],
    List.replicate 2 .resume, [.probe (.setFailing .writes false), .start .evict],
    List.replicate 10 .resume, [.start .evict], List.replicate 10 .resume, [.start (.tearDown 1)]]

/-- Of three evictions one page was brought back and one slot was cleared, so one slot is used. -/
theorem swap_slots_are_conserved_in_comings :
    ∃ w events s, (Machine.idle .small).run sequential comings = some (w, events) ∧
      told events = 3 ∧ restored events = 1 ∧ cleared events = 1 ∧ w.memory.stats = .ok s ∧
      s.swapUsed = 1 := by
  have hbooks : ((Machine.idle .small).run sequential comings).map
      (fun r => (r.1.calls, told r.2, restored r.2, cleared r.2)) = some ([], 3, 1, 1) := by
    decide +kernel
  obtain ⟨⟨w, events⟩, hrun, hw⟩ := Option.map_eq_some_iff.mp hbooks
  obtain ⟨hempty, hw⟩ := Prod.mk.inj hw
  obtain ⟨htold, hw⟩ := Prod.mk.inj hw
  obtain ⟨hrestored, hcleared⟩ := Prod.mk.inj hw
  have hword : told events < Word.span Word.bits := by
    rw [show told events = 3 from htold]
    decide
  obtain ⟨s, hs, hev, hres, hused, -⟩ :=
    swap_slots_are_conserved Memory.small_isFresh rfl rfl hrun hempty hword
  refine ⟨w, events, s, hrun, htold, hrestored, hcleared, hs, ?_⟩
  dsimp only at htold hrestored hcleared
  omega

end Machine

end PhysMem
