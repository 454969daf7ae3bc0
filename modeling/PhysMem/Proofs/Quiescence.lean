import PhysMem.Proofs.Evolution
import PhysMem.Proofs.Teardown

/-!
# Quiescence — nothing is left in transit

A frame is in transit for some operation in flight, and a slot is busy for one. So when all
operations have returned, however they were nested, whatever failed and whatever was given up
meanwhile, no frame and no slot is in transit.

* **`Memory.Quiet`** says that nothing is in transit and the coremap has no flaw.
* **`quiet_without_calls`** — a memory system is quiet whenever no operation is in flight.
-/

namespace PhysMem

/-- Nothing is on its way to or from swap, and verification finds no flaw. -/
structure Memory.Quiet (m : Memory) : Prop where
  frames : ∀ (i : Nat) d, m.coremap.frames[i]? = some d →
    d.evicting = false ∧ d.pinned = false ∧ d.orphaned = false
  slots : ∀ x, m.swap.slots.busy.bit x = false ∧ m.swap.slots.orphaned.bit x = false
  flawless : m.coremap.flaw? = none

namespace Machine

open SlotMap

variable {w : Machine} {events : List Event}

/-- With no call in flight no frame is in transit. -/
theorem Sound.frame_of_empty (hw : w.Sound) (hempty : w.calls = []) {i : Nat} {d : Descriptor}
    (hd : w.memory.coremap.frames[i]? = some d) :
    d.evicting = false ∧ d.pinned = false ∧ d.orphaned = false := by
  obtain ⟨r, hr, huse⟩ := hw.coremap.hasRole (Coremap.use?_of_getElem? hd)
  have hflags : d.evicting = r.use.evicting ∧ d.pinned = r.use.pinned ∧
      d.orphaned = r.use.orphaned := by
    rw [← huse]
    exact ⟨rfl, rfl, rfl⟩
  rw [hflags.1, hflags.2.1, hflags.2.2]
  cases r with
  | free => exact ⟨rfl, rfl, rfl⟩
  | kernel tail => exact ⟨rfl, rfl, rfl⟩
  | resident page => exact ⟨rfl, rfl, rfl⟩
  | transit pinned page orphaned =>
      obtain ⟨call, hcall, -⟩ := hw.laden.carried ⟨i, pinned, page⟩ orphaned hr
      rw [hempty] at hcall
      exact nomatch hcall

/-- With no call in flight no slot is busy, and so none is orphaned. -/
theorem Sound.slot_of_empty (hw : w.Sound) (hempty : w.calls = []) (x : Nat) :
    w.memory.swap.slots.busy.bit x = false ∧ w.memory.swap.slots.orphaned.bit x = false := by
  have hslots := hw.area.slots
  have hbusy : w.memory.swap.slots.busy.bit x = false := by
    refine Bool.eq_false_iff.mpr fun hbit => ?_
    -- a busy slot is used, and with no call in flight used slots are idle
    have hused : (w.memory.swap.slots.owner x).isSome = true := by
      rw [← hslots.used_eq]
      exact hslots.used_of_busy x hbit
    obtain ⟨page, howner⟩ := Option.isSome_iff_exists.mp hused
    obtain ⟨s, hs⟩ := state?_of_owner howner
    exact (busy_bit_iff hslots hs).mp hbit (hw.idle_of_empty hempty hs)
  refine ⟨hbusy, Bool.eq_false_iff.mpr fun hbit => ?_⟩
  rw [hslots.busy_of_orphaned x hbit] at hbusy
  exact nomatch hbusy

/-- **Whenever no operation is in flight, the memory system is quiet**: behind every run of the
allocator's operations, nested at any call-outs of each other and with any faults of the drive, no
frame is evicting, pinned or orphaned, no slot is busy or orphaned, and verification finds no
flaw. -/
theorem quiet_without_calls {m : Memory} {moves : List Move} (hm : m.IsFresh)
    (hrun : (Machine.idle m).run managed moves = some (w, events)) (hempty : w.calls = []) :
    w.memory.Quiet := by
  have hw := Sound.of_run hm hrun
  exact ⟨fun _ _ hd => hw.frame_of_empty hempty hd, hw.slot_of_empty hempty,
    (exact_of_run hm hrun).flaw?_eq_none⟩

/-- Two pages of a space are being evicted, one inside the other, when the space is torn down and
the drive begins to fail. -/
def givenUpTwice : List Move :=
  [.start (.allocate .user 1 (some ⟨1, 0⟩)), .start (.allocate .user 1 (some ⟨1, 1⟩)),
    .start .evict, .start .evict, .resume, .start (.tearDown 1),
    .probe (.setFailing .writes true)]

/-- Both evictions come to their ends, and the memory system is quiet. -/
theorem quiet_without_calls_of_givenUpTwice :
    ∃ w past z later, (Machine.idle .small).run managed givenUpTwice = some (w, past) ∧
      w.calls.length = 2 ∧ w.memory.coremap.evictingCount = 2 ∧
      (Machine.idle .small).run managed (givenUpTwice ++ List.replicate 3 .resume) = some (z, later) ∧
      z.calls = [] ∧ z.memory.Quiet := by
  have hheld : ((Machine.idle .small).run managed givenUpTwice).map
      (fun r => (r.1.calls.length, r.1.memory.coremap.evictingCount)) = some (2, 2) := by
    decide +kernel
  have hended : ((Machine.idle .small).run managed (givenUpTwice ++ List.replicate 3 .resume)).map
      (fun r => r.1.calls) = some [] := by decide +kernel
  obtain ⟨⟨w, past⟩, hrun, hw⟩ := Option.map_eq_some_iff.mp hheld
  obtain ⟨⟨z, later⟩, hz, hempty⟩ := Option.map_eq_some_iff.mp hended
  obtain ⟨hcalls, hcount⟩ := Prod.mk.inj hw
  exact ⟨w, past, z, later, hrun, hcalls, hcount, hz, hempty,
    quiet_without_calls Memory.small_isFresh hz hempty⟩

end Machine

end PhysMem
