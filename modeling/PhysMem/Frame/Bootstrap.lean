import PhysMem.Frame.Coremap
import PhysMem.Notice

/-!
# Bootstrap — the first frames, and the coremap they hold

Before there is a coremap, frames are stolen from the bottom of free memory and never given back.
The coremap is laid out so: as many descriptors as frames could fit beside them, rounded up to
whole frames, and behind them the frames the descriptors describe.

* **`BootAllocator.steal`** hands out whole frames in order.
* **`Coremap.bootstrap`** sizes the coremap and steals the frames for it.
-/

namespace PhysMem

/-- The part of memory that nothing has used yet. -/
structure BootAllocator where
  nextFree : Nat
  stop : Nat
  deriving DecidableEq, Repr

namespace BootAllocator

/-- The memory from `firstFree` on, rounded up to the start of a frame. -/
def create (firstFree stop : Nat) : Except Fault BootAllocator :=
  let past := firstFree % Address.frameSize
  if past = 0 then .ok ⟨firstFree, stop⟩
  else do
    let nextFree ← Word.add Word.bits firstFree (Address.frameSize - past)
    return ⟨nextFree, stop⟩

/-- Takes `count` whole frames and answers the address of the first. -/
def steal (b : BootAllocator) (count : Nat) : Except FrameError Nat × BootAllocator :=
  match Word.mul? Word.bits count Address.frameSize with
  | none => (.error .bootstrapExhausted, b)
  | some bytes =>
    match Word.add? Word.bits b.nextFree bytes with
    | none => (.error .bootstrapExhausted, b)
    | some next =>
      if next ≤ b.stop then (.ok b.nextFree, { b with nextFree := next })
      else (.error .bootstrapExhausted, b)

/-- The whole frames that are left. -/
def remaining (b : BootAllocator) : Nat := (b.stop - b.nextFree) / Address.frameSize

end BootAllocator

namespace Coremap

/-- The bytes of a descriptor in memory. -/
def descriptorSize : Nat := 64

/-- Lays a coremap over the memory that is left, and steals the frames its descriptors need. -/
def bootstrap (boot : BootAllocator) (policy : PlacementPolicy) :
    Except Fault (Except FrameError (Coremap × List Notice) × BootAllocator) :=
  let wanted := (boot.stop - boot.nextFree) / (descriptorSize + Address.frameSize)
  if wanted = 0 then .ok (.error .bootstrapExhausted, boot)
  else
    match boot.steal (Address.framesFor (wanted * descriptorSize)) with
    | (.error e, boot) => .ok (.error e, boot)
    | (.ok table, boot) =>
      let base := boot.nextFree
      let count := min wanted boot.remaining
      if count = 0 then .ok (.error .bootstrapExhausted, boot)
      else do
        let m ← create count base (.ofPolicy policy)
        let notice := Notice.tableReady count base (base + count * Address.frameSize)
          (count * descriptorSize) table
        return (.ok (m, [notice]), boot)

end Coremap

end PhysMem
