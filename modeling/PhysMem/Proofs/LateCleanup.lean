import PhysMem.Proofs.Evictions
import PhysMem.Proofs.Restores

/-!
# Late clean-ups — what an eviction clears behind the telling

When the pager is told, the slot of the eviction is idle, so a teardown at that call-out clears it,
and another eviction may take it. Behind the call-out the eviction finds that its frame was given up
and clears its slot once more, guarded by the page. That spares a reservation for any other page. But
if the same page was allocated again meanwhile and went to the same slot, the guard does not see that
it is a new reservation.

* **`nested`** are the runs at a call-out, **`nested_calls`** says that the calls around stay stopped.
* **`Outlasts`** — the reservation that the pager was told of is there all the time.
* **`late_cleanup_spares_iff`** says exactly when the reservations made at the call-out are spared.
-/

namespace PhysMem.Machine

open SlotMap

/-- Runs of the allocator at a call-out inside `n` calls, none of which goes on. -/
def nested (n : Nat) : Machine → Move → Bool
  | w, .resume => decide (n < w.calls.length)
  | w, move => managed w move

/-- Such runs while a slot is a page's. -/
def nestedOwned (n slot : Nat) (page : Page) (w : Machine) (move : Move) : Bool :=
  nested n w move && decide (w.memory.swap.slots.owner slot = some page)

variable {w w' z : Machine} {move : Move} {moves : List Move} {events : List Event}

theorem managed_of_nested {n : Nat} (h : nested n w move = true) : managed w move = true := by
  cases move with
  | start op => exact h
  | resume => rfl
  | probe p => exact h

/-- A move at a call-out leaves the calls around alone. -/
theorem nested_step {inner outer : List Call} (hcalls : w.calls = inner ++ outer)
    (hrule : nested outer.length w move = true) (h : w.step move = .ok (w', events)) :
    ∃ inner', w'.calls = inner' ++ outer := by
  cases move with
  | start op =>
      obtain ⟨p, -, hfollow⟩ := start_cases h
      obtain rfl := congrArg Prod.fst hfollow
      rw [hcalls]
      exact ⟨_, follow_append op inner outer p⟩
  | resume =>
      rcases resume_cases h with ⟨-, rfl, -⟩ | ⟨call, rest, p, hsplit, -, hfollow⟩
      · exact ⟨inner, hcalls⟩
      · obtain rfl := congrArg Prod.fst hfollow
        have hinside : outer.length < w.calls.length := of_decide_eq_true hrule
        cases inner with
        | nil =>
            rw [hcalls] at hinside
            exact absurd hinside (Nat.lt_irrefl _)
        | cons first more =>
            obtain ⟨rfl, rfl⟩ := List.cons.inj (hcalls.symm.trans hsplit)
            exact ⟨_, follow_append first.op more outer p⟩
  | probe p =>
      obtain ⟨outcome, m, -, rfl, -⟩ := probe_cases h
      exact ⟨inner, hcalls⟩

/-- **The calls around stay stopped** where they are, in every run at a call-out. -/
theorem nested_calls {inner outer : List Call} (hcalls : w.calls = inner ++ outer)
    (h : w.run (nested outer.length) moves = some (z, events)) :
    ∃ inner', z.calls = inner' ++ outer :=
  run_invariant (P := fun w => ∃ inner, w.calls = inner ++ outer)
    (fun _ _ _ _ ⟨_, hcalls⟩ hrule hstep => nested_step hcalls hrule hstep) ⟨inner, hcalls⟩ h

/-- When all that ran at a call-out has returned, the calls are as they were. -/
theorem nested_back (h : w.run (nested w.calls.length) moves = some (z, events))
    (hback : z.calls.length = w.calls.length) : z.calls = w.calls := by
  obtain ⟨inner, hsplit⟩ := nested_calls (List.nil_append w.calls).symm h
  rw [hsplit, List.length_append] at hback
  have hnone : inner = [] := List.length_eq_zero_iff.mp (by omega)
  rw [hsplit, hnone]
  rfl

/-- The slot is the page's at every moment of a run at a call-out inside `n` calls, so the page has
the reservation that it had at first. -/
def Outlasts (n slot : Nat) (page : Page) (w : Machine) (moves : List Move) (z : Machine)
    (events : List Event) : Prop :=
  w.run (nestedOwned n slot page) moves = some (z, events) ∧
    z.memory.swap.slots.owner slot = some page

/-- The innermost call goes on from the moment when the pager is told. -/
theorem telling_cases {x : Machine} {e : Eviction} {op : Operation} {outer : List Call}
    {now : List Event} {c : Contents} (hx : x.Sound) (htell : x.step .resume = .ok (w, now))
    (htold : .told e.page e.slot c ∈ now) (hcalls : w.calls = ⟨op, .evictTelling e⟩ :: outer) :
    w.memory.swap.slots.state? e.slot = some (e.page, .idle) ∧
      w.memory.coremap.Carries (Task.evictCargo e) false := by
  rcases resume_cases htell with ⟨-, -, rfl⟩ | ⟨call, rest, p, hsplit, hp, hfollow⟩
  · exact (List.not_mem_nil htold).elim
  · obtain ⟨rfl, rfl⟩ : (follow call.op rest p).1 = w ∧ (follow call.op rest p).2 = now := by
      rw [hfollow]
      exact ⟨rfl, rfl⟩
    obtain ⟨e', hn, -⟩ := told_of_follow htold
    have hmem : call ∈ x.calls := hsplit ▸ List.mem_cons_self
    -- the stack shows which eviction the pager has heard of
    have hsame : e' = e := by
      unfold follow at hcalls
      rw [hn] at hcalls
      obtain ⟨hcall, -⟩ := List.cons.inj hcalls
      injection hcall with _ htask
      injection htask
    subst hsame
    have hfollows := Task.resume_follows (hx.serves call hmem).isManaged hp
    have haboard := hx.laden.aboard call hmem
    generalize ht : call.task = t at hp hfollows haboard
    rw [hn] at hfollows
    rw [follow_memory]
    cases hfollows with
    | @told _ i hi =>
        obtain ⟨o, hcarry⟩ := haboard _ rfl
        obtain ⟨hidle, -, rfl, hcoremap⟩ := Task.writeNow_tells hx.area.slots hcarry hp hn
        rw [hcoremap]
        exact ⟨hidle, hcarry⟩
    | ended e ht hend => exact nomatch hend.maps

/-- **When a late clean-up spares the reservations of others.**

The pager is told of an eviction in any run of the allocator, and any of its operations run at that
call-out. When the eviction goes on, it leaves its slot to whoever has it, unless its frame was given
up and the slot is the page's; then it clears the slot. So the reservations that were made at the
call-out are spared, except when the page lost its slot, got it again, and the frame was given up.
No stored sector changes, and no other slot but that of a page-in that waits for the room. -/
theorem late_cleanup_spares_iff {m : Memory} {before : List Move} {x z' : Machine}
    {past now later last : List Event} (hm : m.IsFresh)
    (hrun : (Machine.idle m).run managed before = some (x, past)) {op : Operation} {e : Eviction}
    {outer : List Call} {c : Contents} (htell : x.step .resume = .ok (w, now))
    (htold : .told e.page e.slot c ∈ now) (hcalls : w.calls = ⟨op, .evictTelling e⟩ :: outer)
    (hinside : w.run (nested w.calls.length) moves = some (z, later))
    (hback : z.calls.length = w.calls.length) (hstep : z.step .resume = .ok (z', last)) :
    (w.memory.swap.slots.state? e.slot = some (e.page, .idle) ∧
      w.memory.coremap.Carries (Task.evictCargo e) false ∧ z.calls = w.calls) ∧
    ((∀ q u, z.memory.swap.slots.state? e.slot = some (q, u) →
        ¬ Outlasts w.calls.length e.slot e.page w moves z later →
        z'.memory.swap.slots.state? e.slot = some (q, u)) ↔
      Outlasts w.calls.length e.slot e.page w moves z later ∨
        z.memory.swap.slots.owner e.slot ≠ some e.page ∨
        z.memory.coremap.Carries (Task.evictCargo e) false) ∧
    (z'.memory.swap.slots.state? e.slot = none ↔ z.memory.swap.slots.state? e.slot = none ∨
      z.memory.swap.slots.owner e.slot = some e.page ∧
        z.memory.coremap.Carries (Task.evictCargo e) true) ∧
    (∀ y q u, y ≠ e.slot → z.memory.swap.slots.state? y = some (q, u) →
      ¬ Need.holds e.need y q → z'.memory.swap.slots.state? y = some (q, u)) ∧
    ∀ y i, z'.memory.swap.device.stored y i = z.memory.swap.device.stored y i := by
  have hx := Sound.of_run hm hrun
  have hw := hx.moved (moved_of_step hx rfl htell)
  have hz : z.Sound := (Sound.run_induction (P := fun _ _ => True) (l := [])
    (fun _ _ => managed_of_nested) (fun _ _ _ _ _ _ _ _ _ => trivial) hw trivial hinside).1
  have hzcalls := nested_back hinside hback
  obtain ⟨p, hresume, rfl, -⟩ := resume_of_calls (hzcalls.trans hcalls) hstep
  have hp : Task.toldPager z.memory e = .ok p := hresume
  have hmem : (⟨op, .evictTelling e⟩ : Call) ∈ z.calls := by
    rw [hzcalls, hcalls]
    exact List.mem_cons_self
  have hproper : (Task.evictTelling e).Proper z.memory.swap.device := hz.proper _ hmem
  obtain ⟨o, hcarry⟩ := hz.laden.aboard _ hmem (Task.evictCargo e) rfl
  have hslot := Task.toldPager_slot hz.coremap hz.area.slots hproper hcarry hp
  have hresumes := Task.resume_resumes hz.area hproper hresume
  have hgivenUp : ∀ b, z.memory.coremap.Carries (Task.evictCargo e) b ↔ o = b := by
    intro b
    constructor
    · exact fun h => (h.unique hcarry rfl).2
    · rintro rfl
      exact hcarry
  -- from here on all is about the two facts that decide the clean-up
  rw [follow_memory, hslot, hgivenUp, hgivenUp]
  obtain ⟨hidle, hnotLost⟩ := telling_cases hx htell htold hcalls
  refine ⟨⟨hidle, hnotLost, hzcalls⟩, ⟨?_, ?_⟩, ?_, ?_, ?_⟩
  · intro hspares
    -- what is cleared must not be a reservation made at the call-out
    by_cases hcleared : o = true ∧ z.memory.swap.slots.owner e.slot = some e.page
    · obtain ⟨s, hs⟩ := state?_of_owner hcleared.2
      by_cases hlasts : Outlasts w.calls.length e.slot e.page w moves z later
      · exact Or.inl hlasts
      · have hkept := hspares _ s hs hlasts
        rw [if_pos hcleared] at hkept
        exact nomatch hkept
    · rcases Classical.not_and_iff_not_or_not.mp hcleared with ho | hother
      · exact Or.inr (Or.inr (Bool.eq_false_iff.mpr ho))
      · exact Or.inr (Or.inl hother)
  · rintro hspares q u hs hlost
    rw [if_neg]
    · exact hs
    · rintro ⟨rfl, howner⟩
      rcases hspares with hlasts | hother | ho
      · exact hlost hlasts
      · exact hother howner
      · exact nomatch ho
  · split
    · next hcleared => exact ⟨fun _ => Or.inr hcleared.symm, fun _ => rfl⟩
    · next hkept =>
        exact ⟨Or.inl, fun h => h.resolve_right fun hcleared => hkept hcleared.symm⟩
  · intro y q u hy hs hneed
    refine hresumes.slots.unowned hs ?_
    rintro ⟨hown | hown, -⟩
    · exact hy hown.1
    · exact hneed hown
  · exact fun y i => hresumes.stored y i nofun

/-- A page of space 1 is evicted up to its last sector. -/
def lastSector : List Move :=
  [.start (.allocate .user 1 (some ⟨1, 0⟩)), .start .evict] ++ List.replicate 8 .resume

/-- Space 1 is torn down when the pager is told, and a page is allocated and evicted. -/
def evictsAgain (page : Page) : List Move :=
  [.start (.tearDown 1), .start (.allocate .user 1 (some page)), .start .evict] ++
    List.replicate 10 .resume

/-- The slot goes to a page of space 2, and the late clean-up spares it. -/
theorem late_cleanup_spares_iff_of_evictsAgain :
    ∃ x past w now z later z' last,
      (Machine.idle .small).run managed lastSector = some (x, past) ∧
      x.step .resume = .ok (w, now) ∧
      w.calls = [⟨.evict, .evictTelling ⟨0, 4096, ⟨1, 0⟩, 0, none⟩⟩] ∧
      w.run (nested w.calls.length) (evictsAgain ⟨2, 0⟩) = some (z, later) ∧
      z.step .resume = .ok (z', last) ∧
      z.memory.swap.slots.state? 0 = some (⟨2, 0⟩, .idle) ∧
      z'.memory.swap.slots.state? 0 = some (⟨2, 0⟩, .idle) := by
  have hshown : (((Machine.idle .small).run managed lastSector).bind fun r =>
      (r.1.run managed [.resume]).bind fun s =>
        (s.1.run (nested s.1.calls.length) (evictsAgain ⟨2, 0⟩)).bind fun u =>
          (u.1.run managed [.resume]).map fun v =>
            (s.2.any (tells ⟨1, 0⟩ 0), s.1.calls, u.1.calls.length, u.1.memory.swap.slots.state? 0)) =
      some (true, [⟨.evict, .evictTelling ⟨0, 4096, ⟨1, 0⟩, 0, none⟩⟩], 1,
        some (⟨2, 0⟩, .idle)) := by decide +kernel
  obtain ⟨⟨x, past⟩, hrun, hshown⟩ := Option.bind_eq_some_iff.mp hshown
  obtain ⟨⟨w, now⟩, hw, hshown⟩ := Option.bind_eq_some_iff.mp hshown
  obtain ⟨⟨z, later⟩, hz, hshown⟩ := Option.bind_eq_some_iff.mp hshown
  obtain ⟨⟨z', last⟩, hz', hshown⟩ := Option.map_eq_some_iff.mp hshown
  obtain ⟨htold, hshown⟩ := Prod.mk.inj hshown
  obtain ⟨hcalls, hshown⟩ := Prod.mk.inj hshown
  obtain ⟨hback, hstate⟩ := Prod.mk.inj hshown
  dsimp only at htold hcalls hback hstate hz
  obtain ⟨c, hc⟩ := told_of_any htold
  have hstep := (run_one hz').2
  have hspares := (late_cleanup_spares_iff (e := ⟨0, 4096, ⟨1, 0⟩, 0, none⟩)
    Memory.small_isFresh hrun (run_one hw).2 hc hcalls hz (by rw [hback, hcalls]; rfl) hstep).2.1
  have howner : z.memory.swap.slots.owner 0 = some ⟨2, 0⟩ := owner_of_state? hstate
  refine ⟨x, past, w, now, z, later, z', last, hrun, (run_one hw).2, hcalls, hz, hstep, hstate,
    hspares.mpr (Or.inr (Or.inl ?_)) _ _ hstate ?_⟩
  · rw [howner]
    decide
  · rintro ⟨-, hsame⟩
    rw [howner] at hsame
    exact absurd hsame (by decide)

/-- The same page is allocated again and goes to the same slot, and the late clean-up takes the new
reservation away. -/
theorem late_cleanup_takes_new_reservation :
    ∃ x past w now z later z' last,
      (Machine.idle .small).run managed lastSector = some (x, past) ∧
      x.step .resume = .ok (w, now) ∧
      w.calls = [⟨.evict, .evictTelling ⟨0, 4096, ⟨1, 0⟩, 0, none⟩⟩] ∧
      w.run (nested w.calls.length) (evictsAgain ⟨1, 0⟩) = some (z, later) ∧
      z.calls = w.calls ∧ z.step .resume = .ok (z', last) ∧ z'.calls = [] ∧
      z.memory.swap.slots.state? 0 = some (⟨1, 0⟩, .idle) ∧
      ¬ Outlasts w.calls.length 0 ⟨1, 0⟩ w (evictsAgain ⟨1, 0⟩) z later ∧
      z'.memory.swap.slots.state? 0 = none := by
  have hshown : (((Machine.idle .small).run managed lastSector).bind fun r =>
      (r.1.run managed [.resume]).bind fun s =>
        (s.1.run (nested s.1.calls.length) (evictsAgain ⟨1, 0⟩)).bind fun u =>
          (u.1.run managed [.resume]).map fun v =>
            ([s.1.calls, u.1.calls, v.1.calls],
              [u.1.memory.swap.slots.state? 0, v.1.memory.swap.slots.state? 0])) =
      some ([[⟨.evict, .evictTelling ⟨0, 4096, ⟨1, 0⟩, 0, none⟩⟩],
        [⟨.evict, .evictTelling ⟨0, 4096, ⟨1, 0⟩, 0, none⟩⟩], []],
        [some (⟨1, 0⟩, .idle), none]) := by decide +kernel
  have hlost : (((Machine.idle .small).run managed lastSector).bind fun r =>
      (r.1.run managed [.resume]).map fun s =>
        (s.1.run (nestedOwned s.1.calls.length 0 ⟨1, 0⟩) (evictsAgain ⟨1, 0⟩)).isSome) =
      some false := by decide +kernel
  obtain ⟨⟨x, past⟩, hrun, hshown⟩ := Option.bind_eq_some_iff.mp hshown
  obtain ⟨⟨w, now⟩, hw, hshown⟩ := Option.bind_eq_some_iff.mp hshown
  obtain ⟨⟨z, later⟩, hz, hshown⟩ := Option.bind_eq_some_iff.mp hshown
  obtain ⟨⟨z', last⟩, hz', hshown⟩ := Option.map_eq_some_iff.mp hshown
  rw [hrun, Option.bind_some, hw, Option.map_some] at hlost
  simp only [Prod.mk.injEq, List.cons.injEq, and_true] at hshown
  obtain ⟨⟨hcalls, hback, hover⟩, hstate, hfree⟩ := hshown
  refine ⟨x, past, w, now, z, later, z', last, hrun, (run_one hw).2, hcalls, hz,
    hback.trans hcalls.symm, (run_one hz').2, hover, hstate, ?_, hfree⟩
  rintro ⟨hlasts, -⟩
  rw [hlasts] at hlost
  exact nomatch hlost

end PhysMem.Machine
