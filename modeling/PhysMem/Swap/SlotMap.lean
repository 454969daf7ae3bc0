import PhysMem.Bits.Packed
import PhysMem.Page
import PhysMem.Swap.Error

/-!
# The slot map — which swap slots hold a page, and whose

A slot is *used* from its reservation until it is cleared, and a used slot remembers its page. It
is *busy* while its page is on the way to or from the device. When an address space is torn down
its idle slots are cleared at once; its busy ones are *orphaned*, and cleared by whoever ends the
transfer.

* **`reserve`** takes the lowest free slot, **`hold`** marks an idle one busy, **`settle`** ends a
  transfer.
* **`release`**, **`releaseIfOwned`** and **`releaseSpace`** clear slots.
* **`state?`** is the view of one slot: its page and where it stands.
-/

namespace PhysMem

/-- The slots of a swap area. -/
structure SlotMap where
  used : Bits
  busy : Bits
  orphaned : Bits
  owners : Array (Option Page)
  /-- How many slots are used. -/
  count : Nat
  deriving DecidableEq, Repr

namespace SlotMap

/-- A map of `slots` free slots. -/
def empty (slots : Nat) : SlotMap where
  used := Bits.clear slots
  busy := Bits.clear slots
  orphaned := Bits.clear slots
  owners := Array.replicate slots none
  count := 0

/-- The number of slots. -/
def capacity (m : SlotMap) : Nat := m.owners.size

/-- The page of a slot, if there is such a slot and it has one. -/
def owner (m : SlotMap) (slot : Nat) : Option Page := (m.owners[slot]?).join

/-- Whether the slot is used. -/
def isUsed (m : SlotMap) (slot : Nat) : Except Fault Bool :=
  if slot < m.capacity then m.used.get slot else .ok false

/-- Whether the slot is busy. -/
def isBusy (m : SlotMap) (slot : Nat) : Except Fault Bool :=
  if slot < m.capacity then m.busy.get slot else .ok false

/-- The map with the page of a slot replaced. -/
def putOwner (m : SlotMap) (slot : Nat) (owner : Option Page) : Except Fault SlotMap :=
  if slot < m.owners.size then .ok { m with owners := m.owners.setIfInBounds slot owner }
  else .error (.indexOutOfRange m.owners.size slot)

/-- Forgets everything about a slot. -/
def clear (m : SlotMap) (slot : Nat) : Except Fault SlotMap := do
  let wasUsed ← m.used.get slot
  let used ← if wasUsed then m.used.set slot false else pure m.used
  let count ← if wasUsed then Word.sub m.count 1 else pure m.count
  let busy ← m.busy.set slot false
  let orphaned ← m.orphaned.set slot false
  { m with used, busy, orphaned, count }.putOwner slot none

/-- Takes the lowest free slot for `page`, busy from the start for the write that fills it. -/
def reserve (m : SlotMap) (page : Page) : Except Fault (Except SwapError Nat × SlotMap) :=
  match m.used.firstClear with
  | none => .ok (.error .swapFull, m)
  | some slot =>
    if m.capacity ≤ slot then .ok (.error .swapFull, m)
    else do
      let used ← m.used.set slot true
      let busy ← m.busy.set slot true
      let m ← { m with used, busy }.putOwner slot (some page)
      let count ← Word.add Word.bits m.count 1
      return (.ok slot, { m with count })

/-- Marks the slot busy for a read on behalf of `page`. Answers whether it is held for `page` and
was idle. -/
def hold (m : SlotMap) (slot : Nat) (page : Page) : Except Fault (Bool × SlotMap) :=
  if m.owner slot ≠ some page then .ok (false, m)
  else do
    if ← m.busy.get slot then return (false, m)
    let busy ← m.busy.set slot true
    return (true, { m with busy })

/-- Ends the transfer on a slot held for `page`. Answers whether the slot is still live; one that
was orphaned meanwhile is cleared. -/
def settle (m : SlotMap) (slot : Nat) (page : Page) : Except Fault (Bool × SlotMap) :=
  if m.owner slot ≠ some page then .ok (false, m)
  else do
    if ← m.orphaned.get slot then
      let m ← m.clear slot
      return (false, m)
    let busy ← m.busy.set slot false
    return (true, { m with busy })

/-- Clears a slot, also one that is free already. -/
def release (m : SlotMap) (slot : Nat) : Except Fault (Except SwapError Unit × SlotMap) :=
  if m.capacity ≤ slot then .ok (.error (.invalidSlot slot), m)
  else do
    let m ← m.clear slot
    return (.ok (), m)

/-- Clears a slot if it is still held for `page`. -/
def releaseIfOwned (m : SlotMap) (slot : Nat) (page : Page) : Except Fault (Bool × SlotMap) :=
  if m.owner slot ≠ some page then .ok (false, m)
  else do
    let m ← m.clear slot
    return (true, m)

/-- Clears one slot if it is idle and belongs to `space`, and orphans it if it is busy. Answers
whether it was cleared. -/
def releaseOne (m : SlotMap) (space slot : Nat) : Except Fault (Bool × SlotMap) :=
  match m.owner slot with
  | none => .ok (false, m)
  | some page =>
    if page.space ≠ space then .ok (false, m)
    else do
      if ← m.busy.get slot then
        let orphaned ← m.orphaned.set slot true
        return (false, { m with orphaned })
      let m ← m.clear slot
      return (true, m)

/-- Clears the idle slots of `space` and orphans its busy ones. Answers how many were cleared. -/
def releaseSpace (m : SlotMap) (space : Nat) : Except Fault (Nat × SlotMap) :=
  (List.range m.capacity).foldlM (fun (released, m) slot => do
    let (cleared, m) ← m.releaseOne space slot
    return (if cleared then released + 1 else released, m)) (0, m)

/-! ## The view -/

/-- Where a used slot stands. -/
inductive SlotState where
  /-- The page is at rest in the slot. -/
  | idle
  /-- The page is on its way to or from the slot. -/
  | busy
  /-- The page is on its way, and its address space is gone. -/
  | orphaned
  deriving DecidableEq, Repr

/-- The page of a used slot and where it stands; nothing for a free slot. -/
def state? (m : SlotMap) (slot : Nat) : Option (Page × SlotState) :=
  (m.owner slot).map fun page =>
    (page, if m.orphaned.bit slot then .orphaned else if m.busy.bit slot then .busy else .idle)

end SlotMap

end PhysMem
