import PhysMem.Numeral

/-!
# Faults — checks that stop the machine

A fault is a check that a kernel makes of itself: an arithmetic step that must stay inside its
machine word, an index that must lie inside its table, an assertion about the frames and the
resident chain. A fault is not an error that a caller handles. It ends the run, so every function
that can meet one answers in `Except Fault`.

* **`Fault`** names the causes, **`Fault.message`** their texts.
* **`Word.add`**, **`Word.sub`**, **`Word.mul`** are arithmetic on natural numbers that fit a word
  of the given width.
-/

namespace PhysMem

/-- An arithmetic step that can leave its machine word. -/
inductive WordOp where
  | add
  | subtract
  | multiply
  | shiftLeft
  | shiftRight
  deriving DecidableEq, Repr

/-- The verb a message uses for the step. -/
def WordOp.verb : WordOp → String
  | .add => "add"
  | .subtract => "subtract"
  | .multiply => "multiply"
  | .shiftLeft => "shift left"
  | .shiftRight => "shift right"

/-- Why a run was stopped. -/
inductive Fault where
  /-- A word overflowed, or a shift reached the width of its word. -/
  | overflow (op : WordOp)
  /-- A table of `length` entries was read at `index`. -/
  | indexOutOfRange (length index : Nat)
  /-- A frame table was laid over a region that starts inside a frame. -/
  | misalignedBase (address : Nat)
  /-- The address of a frame outside the table was asked for. -/
  | frameOutsideTable
  /-- A run of no frames was claimed. -/
  | emptyRun
  /-- A placement chose a frame that is in use. -/
  | placedOnAllocated (frame : Nat)
  /-- A frame was about to join the chain while linked. -/
  | alreadyLinked
  /-- A frame without a neighbour is not the end of the chain on that side. -/
  | notChainEnd
  /-- A frame was cleared as a user frame without being one. -/
  | notUserFrame
  /-- A frame on the chain names no page. -/
  | ownerlessVictim (frame : Nat)
  /-- An eviction was ended for a frame that is not being evicted. -/
  | notEvicting (frame : Nat)
  /-- A pin was dropped on a frame that is not pinned. -/
  | notPinned (frame : Nat)
  /-- Physical memory was reached for at an address where none of its frames starts. -/
  | outsideMemory (address : Nat)
  /-- The memory system was used before it was installed. -/
  | notInitialized
  /-- A second memory system was installed. -/
  | installedTwice
  /-- The swap device was asked for inside one of its own transfers, which would wait for ever. -/
  | deviceHeld
  deriving DecidableEq, Repr

/-- The text shown when the machine stops. -/
def Fault.message : Fault → String
  | .overflow op => s!"attempt to {op.verb} with overflow"
  | .indexOutOfRange length index =>
    s!"index out of bounds: the len is {length} but the index is {index}"
  | .misalignedBase address =>
    "frame table base " ++ Numeral.hex address ++ " is not aligned"
  | .frameOutsideTable => "assertion failed: idx.get() < self.frames"
  | .emptyRun => "assertion failed: count > 0"
  | .placedOnAllocated frame => s!"placement returned allocated frame {frame}"
  | .alreadyLinked =>
    "assertion failed: entry.chain_prev.is_none() && entry.chain_next.is_none()"
  | .notChainEnd => "assertion " ++ leftRight ++ " failed"
  | .notUserFrame => "assertion " ++ leftRight ++ " failed"
  | .ownerlessVictim frame =>
    s!"user frame #{frame} on the chain has no owning page-table entry"
  | .notEvicting frame => s!"frame #{frame} is not being evicted"
  | .notPinned frame => s!"frame #{frame} is not pinned"
  | .outsideMemory address => Numeral.hex address ++ " is not a frame of the arena"
  | .notInitialized => "Memory system not initialized."
  | .installedTwice => "install called while the memory system was already initialized"
  | .deviceHeld => "the swap device is held by an interrupted transfer"
where
  leftRight : String := "\x60left == right\x60"

/-- Two outcomes are equal when both failed or both succeeded, with equal causes or values. -/
instance (priority := high) outcomeDecidableEq {ε α : Type} [DecidableEq ε] [DecidableEq α] :
    DecidableEq (Except ε α)
  | .ok a, .ok b =>
    if h : a = b then isTrue (congrArg _ h) else isFalse fun e => h (by cases e; rfl)
  | .error a, .error b =>
    if h : a = b then isTrue (congrArg _ h) else isFalse fun e => h (by cases e; rfl)
  | .ok _, .error _ => isFalse nofun
  | .error _, .ok _ => isFalse nofun

/-- A run of two steps ends well exactly when both do. -/
theorem Fault.bind_eq_ok {α β : Type} {x : Except Fault α} {f : α → Except Fault β} {b : β} :
    (x >>= f) = .ok b ↔ ∃ a, x = .ok a ∧ f a = .ok b := by
  cases x with
  | error e => exact ⟨nofun, fun ⟨_, h, _⟩ => nomatch h⟩
  | ok a =>
    refine ⟨fun h => ⟨a, rfl, h⟩, fun ⟨a', h, hb⟩ => ?_⟩
    cases h
    exact hb

/-- A check that may stop a run, and what follows it. -/
theorem Fault.guard_eq_ok {β : Type} {c : Prop} [Decidable c] {e : Fault}
    {f : Unit → Except Fault β} {b : β} :
    (if c then (do let r ← throw e; f r) else f ()) = .ok b ↔ ¬ c ∧ f () = .ok b := by
  split
  · next hc => exact ⟨nofun, fun h => absurd hc h.1⟩
  · next hc => exact ⟨fun h => ⟨hc, h⟩, fun h => h.2⟩

namespace Word

/-- The width of an address, a count or a slot number. -/
def bits : Nat := 64

/-- How many values a word of `width` bits can have. -/
def span (width : Nat) : Nat := Nat.pow 2 width

/-- The largest address, count or slot number. -/
def last : Nat := span bits - 1

/-- The sum `a + b` in a word of `width` bits. -/
def add (width a b : Nat) : Except Fault Nat :=
  if a + b < span width then .ok (a + b) else .error (.overflow .add)

/-- The difference `a - b`, which must not fall below zero. -/
def sub (a b : Nat) : Except Fault Nat :=
  if b ≤ a then .ok (a - b) else .error (.overflow .subtract)

/-- The product `a * b` in a word of `width` bits. -/
def mul (width a b : Nat) : Except Fault Nat :=
  if a * b < span width then .ok (a * b) else .error (.overflow .multiply)

/-- The sum `a + b` in a word of `width` bits, or nothing. -/
def add? (width a b : Nat) : Option Nat := if a + b < span width then some (a + b) else none

/-- The product `a * b` in a word of `width` bits, or nothing. -/
def mul? (width a b : Nat) : Option Nat := if a * b < span width then some (a * b) else none

variable {width a b : Nat}

theorem add_eq_ok (h : a + b < span width) : add width a b = .ok (a + b) := if_pos h

theorem sub_eq_ok (h : b ≤ a) : sub a b = .ok (a - b) := if_pos h

theorem mul_eq_ok (h : a * b < span width) : mul width a b = .ok (a * b) := if_pos h

/-- A sum that is given is the sum. -/
theorem eq_of_add {c : Nat} (h : add width a b = .ok c) : c = a + b := by
  simp only [add] at h
  split at h
  · exact (Except.ok.inj h).symm
  · exact nomatch h

/-- A product that is given is the product. -/
theorem eq_of_mul {c : Nat} (h : mul width a b = .ok c) : c = a * b := by
  simp only [mul] at h
  split at h
  · exact (Except.ok.inj h).symm
  · exact nomatch h

end Word

end PhysMem
