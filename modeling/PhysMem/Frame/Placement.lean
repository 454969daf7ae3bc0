import PhysMem.Config
import PhysMem.Frame.Descriptor

/-!
# Placement — where a new run of frames goes

A placement looks for a run of free frames of a given length. First fit takes the lowest. Next fit
starts behind the last run it found and goes around the table once. Both try one start after the
other and resume behind the allocated frame that cut a run short, since no start up to that frame
can succeed.

* **`IsFreeRun`** says what is looked for.
* **`scan`** tries the starts from one bound to another; **`place`** is the choice of a policy.
-/

namespace PhysMem

/-- The frames from `start` on, `count` of them, lie in the table and are free. -/
def IsFreeRun (frames : Array Descriptor) (start count : Nat) : Prop :=
  start + count ≤ frames.size ∧
    ∀ i, start ≤ i → i < start + count → (frames[i]?).map (·.allocated) = some false

namespace Placement

/-- The length of the free run at `start`, counted up to `limit`. -/
def freeRun (frames : Array Descriptor) (start : Nat) : Nat → Nat
  | 0 => 0
  | limit + 1 =>
    match frames[start]? with
    | some frame => if frame.allocated then 0 else freeRun frames (start + 1) limit + 1
    | none => 0

/-- The lowest start from `start` up to but not including `bound` where `count` free frames lie in
the table. -/
def scan (frames : Array Descriptor) (count start bound : Nat) : Except Fault (Option Nat) :=
  if start < bound then do
    let stop ← Word.add Word.bits start count
    if frames.size < stop then return none
    let run := freeRun frames start count
    if run = count then return some start
    scan frames count (start + run + 1) bound
  else .ok none
termination_by bound - start

end Placement

/-- Where the next run of frames goes. -/
inductive Placement where
  | firstFit
  /-- The search starts at `position`, taken modulo the number of frames. -/
  | nextFit (position : Nat)
  /-- The listed ranges, one after the other, whatever is asked for. -/
  | listed (ranges : List (Nat × Nat))
  deriving DecidableEq, Repr

namespace Placement

/-- The placement of a policy, before its first search. -/
def ofPolicy : PlacementPolicy → Placement
  | .firstFit => .firstFit
  | .nextFit => .nextFit 0

/-- Chooses a range of frames for a run of `count`, from its first frame up to but not including
its last bound, and remembers where to go on. -/
def place (frames : Array Descriptor) (count : Nat) :
    Placement → Except Fault (Option (Nat × Nat) × Placement)
  | .firstFit => do
    let found ← scan frames count 0 (frames.size + 1)
    return (found.map fun start => (start, start + count), .firstFit)
  | .nextFit position =>
    if frames.size = 0 then .ok (none, .nextFit position)
    else do
      let position := position % frames.size
      let ahead ← scan frames count position frames.size
      let found ← match ahead with
        | some start => pure (some start)
        | none => scan frames count 0 position
      match found with
      | some start =>
        return (some (start, start + count), .nextFit ((start + count) % frames.size))
      | none => return (none, .nextFit position)
  | .listed [] => .ok (none, .listed [])
  | .listed (range :: rest) => .ok (some range, .listed rest)

end Placement

end PhysMem
