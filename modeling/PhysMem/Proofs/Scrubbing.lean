import PhysMem.Proofs.Alone

/-!
# Scrubbing — what a page-in leaves in its slot

A page-in that has read its slot overwrites it with zeros, one sector after the other, if the swap
area is configured so. A sector that the device refuses or cannot write ends this, and the slot is
released as it is. So behind a page-in that succeeds the slot is zero, unless a write to it has
failed.

* **`failsToWrite`** says of a move that a write to the slot fails there.
* **`ZeroedBefore`** is how far a slot has been overwritten, **`ZeroedBefore.goesOn`** takes it one
  piece further, to the last sector.
* **`Scrubs`** is the invariant of a page-in alone, **`Scrubs.moved`** its preservation by one move.
* **`zero_of_run`** — a page-in alone that has succeeded leaves zeros.
-/

namespace PhysMem

namespace SwapDevice

variable {d d' : SwapDevice} {slot : Nat} {i : Place}

/-- Whether the device refuses to write a sector of the slot. -/
def refusesWrites (d : SwapDevice) (slot : Nat) : Bool :=
  places.any fun i => match d.writeRefusal? slot i with
    | .ok (some _) => true
    | _ => false

theorem refusesWrites_of_refusal {e : SwapError} (h : d.writeRefusal? slot i = .ok (some e)) :
    d.refusesWrites slot = true := by
  refine List.any_eq_true.mpr ⟨i, List.mem_finRange i, ?_⟩
  rw [h]

/-- What a device refuses is a matter of its block, and reading does not change that. -/
theorem writeRefusal?_of_fetch {answer : Except SwapError Sector} {x j : Nat}
    (h : d.fetch slot i = .ok (answer, d')) : d'.writeRefusal? x j = d.writeRefusal? x j := by
  obtain ⟨sector, -, h⟩ := Fault.bind_eq_ok.mp h
  obtain ⟨⟨read, block⟩, hblock, h⟩ := Fault.bind_eq_ok.mp h
  cases h
  unfold Block.fetch at hblock
  dsimp only at hblock
  split at hblock
  · obtain ⟨count, -, hblock⟩ := Fault.bind_eq_ok.mp hblock
    cases hblock
    rfl
  · cases hblock
    rfl

/-- Nor does writing. -/
theorem writeRefusal?_of_store {answer : Except SwapError Unit} {data : Sector} {x j : Nat}
    (h : d.store slot i data = .ok (answer, d')) : d'.writeRefusal? x j = d.writeRefusal? x j := by
  obtain ⟨sector, -, h⟩ := Fault.bind_eq_ok.mp h
  obtain ⟨⟨written, block⟩, hblock, h⟩ := Fault.bind_eq_ok.mp h
  cases h
  unfold Block.store at hblock
  dsimp only at hblock
  split at hblock
  · obtain ⟨count, -, hblock⟩ := Fault.bind_eq_ok.mp hblock
    cases hblock
    rfl
  · cases hblock
    rfl

end SwapDevice

namespace Task

/-- Whether the operation is about to overwrite a sector and the drive cannot. -/
def failsToScrub (m : Memory) : Task → Bool
  | .fillScrubbing f i => match m.swap.device.store f.slot i .zero with
    | .ok (.error _, _) => true
    | _ => false
  | _ => false

/-- If the operation is overwriting the slot, the sectors before the next one are zero. -/
def ZeroedBefore (m : Memory) (slot : Nat) (t : Task) : Prop :=
  ∀ f i, t = .fillScrubbing f i →
    ∀ j : Place, j.val < i.val → m.swap.device.stored slot j = some .zero

variable {held : Bool} {m : Memory} {t : Task} {p : Piece} {page : Page} {slot : Nat}
  {f : Filling} {i : Place}

/-- A page-in whose slot could not be read does not succeed. -/
theorem fillFailed_not_ok {n : Memory} {e : SwapError} (hpage : f.page = some page)
    (h : fillFailed n f e = .ok p) (a : Nat) : p.next ≠ .reply (.address (.ok a)) := by
  intro hn
  obtain ⟨r, hr, hunread⟩ := fillFailed_unread h
  cases hn.symm.trans hr
  obtain ⟨e, he⟩ := hunread.of_page hpage
  exact nomatch he

/-- A page-in does not succeed when it has read its slot, but has it overwritten first. -/
theorem readNow_not_ok (hscrub : m.swap.scrub = true)
    (hwrites : m.swap.device.refusesWrites f.slot = false) (hpage : f.page = some page)
    (h : readNow held m f i = .ok p) (a : Nat) : p.next ≠ .reply (.address (.ok a)) := by
  intro hn
  cases readNow_cases h with
  | failed _ _ h => exact fillFailed_not_ok hpage h a hn
  | next _ _ _ _ h =>
      cases readAt_cases h with
      | refused _ h => exact fillFailed_not_ok hpage h a hn
      | ready => exact nomatch hn
  | last device data hfetch _ h =>
      rcases slotRead_cases h with ⟨-, -, h⟩ | ⟨hoff, -⟩
      · cases scrubAt_cases h with
        | refused hrefusal _ =>
            have hnow := (SwapDevice.writeRefusal?_of_fetch hfetch).symm.trans hrefusal
            exact nomatch hwrites.symm.trans (SwapDevice.refusesWrites_of_refusal hnow)
        | ready => exact nomatch hn
      · exact nomatch hscrub.symm.trans hoff

/-- If no write fails, one sector more is zero, and the slot is released behind the last one only. -/
theorem scrubNow_zeroes (hm : m.swap.Sound) (proper : (Task.fillScrubbing f i).Proper m.swap.device)
    (hwrites : m.swap.device.refusesWrites f.slot = false)
    (hworks : (Task.fillScrubbing f i).failsToScrub m = false)
    (hzero : ZeroedBefore m f.slot (.fillScrubbing f i)) (h : scrubNow m f i = .ok p) :
    (∀ j : Place, j.val < i.val + 1 → p.memory.swap.device.stored f.slot j = some .zero) ∧
      ∀ r, p.next = .reply r → nextPlace i = none := by
  have zeroes : ∀ {device : SwapDevice}, m.swap.device.store f.slot i .zero = .ok (.ok (), device) →
      p.memory.swap.device = device →
        ∀ j : Place, j.val < i.val + 1 → p.memory.swap.device.stored f.slot j = some .zero := by
    rintro device hstore rfl
    obtain ⟨-, hother, hwritten, -⟩ := SwapDevice.store_ok hm.fits proper hstore
    refine forall_place_lt_succ (hwritten rfl) fun j hj => ?_
    rw [hother f.slot j fun hx => Nat.ne_of_lt hj (congrArg Fin.val hx.2)]
    exact hzero f i rfl j hj
  cases scrubNow_cases h with
  | failed device hstore _ =>
      have hfails : (Task.fillScrubbing f i).failsToScrub m = true := by
        simp only [failsToScrub, hstore]
      exact nomatch hworks.symm.trans hfails
  | next device _ hstore _ h =>
      have hrest := scrubAt_respects (m := m.putDevice device) hm.slots h
      refine ⟨zeroes hstore hrest.drops.device, fun r hr => ?_⟩
      cases scrubAt_cases h with
      | refused hrefusal _ =>
          have hnow := (SwapDevice.writeRefusal?_of_store hstore).symm.trans hrefusal
          exact nomatch hwrites.symm.trans (SwapDevice.refusesWrites_of_refusal hnow)
      | ready => exact nomatch hr
  | last device _ hstore hlast h =>
      have hrest := filled_respects (m := m.putDevice device) hm.slots h
      exact ⟨zeroes hstore hrest.drops.device, fun _ _ => hlast⟩

namespace ZeroedBefore

/-- **A page-in goes on**, and if no write fails, it comes to its next sector with zeros in those
before it, or it succeeds with zeros in all of them. -/
theorem goesOn (hm : m.swap.Sound) (proper : t.Proper m.swap.device)
    (serves : t.Serves (.pageIn page slot)) (hscrub : m.swap.scrub = true)
    (hwrites : m.swap.device.refusesWrites slot = false) (hworks : t.failsToScrub m = false)
    (hzero : ZeroedBefore m slot t) (hp : Task.resume held m t = .ok p) :
    (∀ t', p.next = .callOut t' → ZeroedBefore p.memory slot t') ∧
      ∀ a, p.next = .reply (.address (.ok a)) →
        ∀ j, p.memory.swap.device.stored slot j = some .zero := by
  have follows := resume_follows serves.isManaged hp
  have filling : ∀ {f : Filling}, t.filling? = some f → f.page = some page ∧ f.slot = slot := by
    intro f hf
    obtain ⟨q, hq⟩ := serves.filling_page rfl hf
    cases (serves.filling hf).of_page hq
    exact ⟨hq, rfl⟩
  constructor
  · rintro t' hn f i rfl
    rw [hn] at follows
    cases follows with
    | ended e ht hend => exact nomatch hend.maps
    | scrubbed f hi => exact fun j hj => absurd hj (Nat.not_lt_zero _)
    | @nextScrubbed f i j hij =>
        obtain ⟨-, rfl⟩ := filling rfl
        rw [nextPlace_eq_some hij]
        exact (scrubNow_zeroes hm proper hwrites hworks hzero hp).1
  · intro a hn
    rw [hn] at follows
    rcases follows.pageIn_reply serves with ⟨e, he⟩ | ⟨f, hf, hpage, rfl, -⟩
    · exact nomatch he
    cases t with
    | fillMapping g =>
        cases readAt_cases (resume_fillMapping hp).2 with
        | refused _ h =>
            cases hf
            exact absurd hn (fillFailed_not_ok hpage h a)
        | ready => exact nomatch hn
    | fillReading g i =>
        cases hf
        exact absurd hn (readNow_not_ok hscrub hwrites hpage hp a)
    | fillScrubbing g i =>
        cases hf
        obtain ⟨hall, hlast⟩ := scrubNow_zeroes hm proper hwrites hworks hzero hp
        exact fun j => hall j (lt_of_nextPlace_eq_none (hlast _ hn) j)
    | _ => exact nomatch hf

end ZeroedBefore

end Task

namespace Machine

/-! ## Runs of a page-in alone -/

/-- Whether a write to the slot fails at the move: the device refuses one, or a sector is overwritten
and the drive cannot. -/
def Made.failsToWrite (slot : Nat) (made : Made) : Bool :=
  made.before.memory.swap.device.refusesWrites slot ||
    (made.goesOn? 0).any (Task.failsToScrub made.before.memory)

/-- Whether the move shows that the page has been brought back from the slot. -/
def Made.BringsBack (page : Page) (slot : Nat) (made : Made) : Prop :=
  ∃ n a, .answered n (.pageIn page slot) (.address (.ok a)) ∈ made.shown

/-- A page-in is alone. If no write to the slot has failed, the slot is overwritten as far as the
page-in has come, and all of it when it has succeeded. -/
structure Scrubs (page : Page) (slot : Nat) (w : Machine) (past : List Made) : Prop where
  alone : w.calls = [] ∨ ∃ t, w.calls = [⟨.pageIn page slot, t⟩]
  scrub : w.memory.swap.scrub = true
  underway : w.calls ≠ [] → ∀ made ∈ past, ¬ made.BringsBack page slot
  zeroed : (∀ made ∈ past, made.failsToWrite slot = false) →
    ∀ call ∈ w.calls, Task.ZeroedBefore w.memory slot call.task
  zero : (∀ made ∈ past, made.failsToWrite slot = false) →
    (∃ made ∈ past, made.BringsBack page slot) →
      ∀ j, w.memory.swap.device.stored slot j = some .zero

namespace Scrubs

variable {page : Page} {slot : Nat} {w w' z : Machine} {past : List Made} {move : Move}
  {moves : List Move} {events : List Event}

/-- The page-in goes on. -/
theorem resumed (hs : w.Sound) (h : Scrubs page slot w past) {t : Task} {p : Task.Piece}
    (hcalls : w.calls = [⟨.pageIn page slot, t⟩])
    (hp : Task.resume (deviceHeld []) w.memory t = .ok p) (resumes : Task.Resumes t w.memory p) :
    Scrubs page slot (follow (.pageIn page slot) [] p).1
      (past ++ [⟨w, .resume, (follow (.pageIn page slot) [] p).2⟩]) := by
  have hmem : Call.mk (.pageIn page slot) t ∈ w.calls := hcalls ▸ List.mem_cons_self
  have hpast : ∀ made ∈ past, ¬ made.BringsBack page slot :=
    h.underway (hcalls ▸ List.cons_ne_nil _ _)
  -- what one piece does, if no write has failed up to there
  have goesOn : (∀ made ∈ past ++ [⟨w, .resume, (follow (.pageIn page slot) [] p).2⟩],
      made.failsToWrite slot = false) →
        (∀ t', p.next = .callOut t' → Task.ZeroedBefore p.memory slot t') ∧
          ∀ a, p.next = .reply (.address (.ok a)) →
            ∀ j, p.memory.swap.device.stored slot j = some .zero := by
    intro hworks
    obtain ⟨hpasts, hnow⟩ := List.forall_mem_append.mp hworks
    have hlast := hnow _ (List.mem_singleton_self _)
    obtain ⟨hwrites, hscrubs⟩ := Bool.or_eq_false_iff.mp hlast
    have ht : (Made.mk w .resume (follow (.pageIn page slot) [] p).2).goesOn? 0 = some t :=
      Made.goesOn?_of_calls hcalls
    rw [ht] at hscrubs
    exact (h.zeroed hpasts _ hmem).goesOn hs.area (hs.proper _ hmem) (hs.serves _ hmem) h.scrub
      hwrites hscrubs hp
  have alone : (follow (.pageIn page slot) [] p).1.calls = [] ∨
      ∃ t', (follow (.pageIn page slot) [] p).1.calls = [⟨.pageIn page slot, t'⟩] := by
    obtain ⟨-, ⟨t', -, hnext, -⟩ | ⟨r, -, hnext, -⟩⟩ := follow_calls (.pageIn page slot) [] p
    · exact Or.inr ⟨t', hnext⟩
    · exact Or.inl hnext
  refine ⟨alone, ?_, ?_, ?_, ?_⟩
  · rw [follow_memory, resumes.scrub]
    exact h.scrub
  · intro hcalled
    refine List.forall_mem_append.mpr ⟨hpast, List.forall_mem_singleton.mpr ?_⟩
    rintro ⟨n, a, hanswer⟩
    obtain ⟨hn, -, -⟩ := answered_of_follow hanswer
    unfold follow at hcalled
    rw [hn] at hcalled
    exact hcalled rfl
  · intro hworks
    rw [follow_memory]
    exact forall_follow (goesOn hworks).1 (List.forall_mem_nil _)
  · rintro hworks ⟨made, hmade, hback⟩
    rw [follow_memory]
    rcases List.mem_append.mp hmade with hmade | hnow
    · exact absurd hback (hpast made hmade)
    · obtain rfl := List.mem_singleton.mp hnow
      obtain ⟨n, a, hanswer⟩ := hback
      exact (goesOn hworks).2 a (answered_of_follow hanswer).1

/-- Something happens that shows nothing and leaves the slot and the call as they are. -/
theorem spared (h : Scrubs page slot w past) (hcalls : w'.calls = w.calls)
    (scrub : w'.memory.swap.scrub = w.memory.swap.scrub)
    (stored : w'.memory.swap.device.stored slot = w.memory.swap.device.stored slot) :
    Scrubs page slot w' (past ++ [⟨w, move, []⟩]) := by
  have silent : ¬ (Made.mk w move []).BringsBack page slot :=
    fun ⟨_, _, hanswer⟩ => (List.not_mem_nil hanswer).elim
  refine ⟨hcalls ▸ h.alone, scrub.trans h.scrub, fun hne => ?_, fun hworks => ?_, ?_⟩
  · exact List.forall_mem_append.mpr
      ⟨h.underway (hcalls ▸ hne), List.forall_mem_singleton.mpr silent⟩
  · rw [hcalls]
    intro call hcall f i ht j hj
    rw [stored]
    exact h.zeroed (List.forall_mem_append.mp hworks).1 call hcall f i ht j hj
  · rintro hworks ⟨made, hmade, hback⟩
    rw [stored]
    refine h.zero (List.forall_mem_append.mp hworks).1 ⟨made, ?_, hback⟩
    exact (List.mem_append.mp hmade).resolve_right
      fun hnow => silent (List.mem_singleton.mp hnow ▸ hback)

/-- **One move** of a page-in alone, or of the drive. -/
theorem moved (hs : w.Sound) (h : Scrubs page slot w past) (hquiet : move.isQuiet = true)
    (hmoved : Moved w move w' events) : Scrubs page slot w' (past ++ [⟨w, move, events⟩]) := by
  cases hmoved with
  | started | toreDown => exact nomatch hquiet
  | @resumed call outer p hcalls hp resumes hauls follows =>
      obtain ⟨t, ht⟩ := h.alone.resolve_left (hcalls ▸ List.cons_ne_nil _ _)
      obtain ⟨rfl, rfl⟩ := List.cons.inj (hcalls.symm.trans ht)
      exact h.resumed hs ht hp resumes
  | rested hcalls => exact h.spared rfl rfl rfl
  | probed hp leaves => exact h.spared rfl leaves.scrub (leaves.stored slot)

/-- A page-in starts where nothing is in flight. -/
theorem of_start (hs : w.Sound) (hidle : w.calls = []) (hscrub : w.memory.swap.scrub = true)
    (h : w.step (.start (.pageIn page slot)) = .ok (w', events)) :
    Scrubs page slot w' [⟨w, .start (.pageIn page slot), events⟩] := by
  have hmoved : Moved w (.start (.pageIn page slot)) w' events := moved_of_step hs rfl h
  cases hmoved with
  | @started op p hop hno hp takes hauls serves =>
      have silent : ¬ (Made.mk w (.start (.pageIn page slot))
          (follow (.pageIn page slot) w.calls p).2).BringsBack page slot := by
        rintro ⟨n, a, hanswer⟩
        obtain ⟨e, he⟩ := Task.pageIn_reply hp (answered_of_follow hanswer).1
        exact nomatch he
      refine ⟨?_, ?_, ?_, ?_, ?_⟩
      · rw [hidle]
        obtain ⟨-, ⟨t, -, hnext, -⟩ | ⟨r, -, hnext, -⟩⟩ := follow_calls (.pageIn page slot) [] p
        · exact Or.inr ⟨t, hnext⟩
        · exact Or.inl hnext
      · rw [follow_memory, takes.scrub]
        exact hscrub
      · exact fun _ => List.forall_mem_singleton.mpr silent
      · intro _
        refine forall_follow ?_ (hidle ▸ List.forall_mem_nil _)
        rintro t ht f i rfl
        exact nomatch (serves _ ht).2
      · rintro - ⟨made, hmade, hback⟩
        exact absurd (List.mem_singleton.mp hmade ▸ hback) silent

/-- **The rest of a page-in** that is left alone. -/
theorem of_run (hs : w.Sound) (h : Scrubs page slot w past)
    (hquiet : ∀ move ∈ moves, move.isQuiet = true)
    (hrun : w.run sequential moves = some (z, events)) :
    Scrubs page slot z (past ++ w.trace moves) := by
  induction moves generalizing w past events with
  | nil =>
      cases hrun
      rw [trace, List.append_nil]
      exact h
  | cons move rest ih =>
      obtain ⟨hnow, hlater⟩ := List.forall_mem_cons.mp hquiet
      obtain ⟨w', first, more, hrule, hstep, hrest, rfl⟩ := run_cons hrun
      have hmoved := moved_of_step hs (managed_of_sequential hrule) hstep
      have hgoes := ih (hs.moved hmoved) (h.moved hs hnow hmoved) hlater hrest
      rw [List.append_assoc] at hgoes
      simp only [trace, hstep]
      exact hgoes

end Scrubs

/-- **A page-in alone that succeeds leaves zeros**, if slots are overwritten and no write to the slot
has failed. -/
theorem zero_of_run {page : Page} {slot n a : Nat} {w z : Machine} {moves : List Move}
    {events : List Event} (hs : w.Sound) (hidle : w.calls = [])
    (hscrub : w.memory.swap.scrub = true) (hquiet : ∀ move ∈ moves, move.isQuiet = true)
    (hrun : w.run sequential (.start (.pageIn page slot) :: moves) = some (z, events))
    (hanswer : .answered n (.pageIn page slot) (.address (.ok a)) ∈ events)
    (hworks : ∀ made ∈ w.trace (.start (.pageIn page slot) :: moves),
      made.failsToWrite slot = false) :
    ∀ j, z.memory.swap.device.stored slot j = some .zero := by
  have hback : ∃ made ∈ w.trace (.start (.pageIn page slot) :: moves),
      made.BringsBack page slot := by
    rw [← trace_shown hrun] at hanswer
    obtain ⟨made, hmade, hshown⟩ := List.mem_flatMap.mp hanswer
    exact ⟨made, hmade, n, a, hshown⟩
  obtain ⟨w', first, more, -, hstep, hrest, -⟩ := run_cons hrun
  have hmoved : Moved w (.start (.pageIn page slot)) w' first := moved_of_step hs rfl hstep
  have hscrubs := (Scrubs.of_start hs hidle hscrub hstep).of_run (hs.moved hmoved) hquiet hrest
  simp only [trace, hstep] at hback hworks
  exact hscrubs.zero hworks hback

end Machine

end PhysMem
