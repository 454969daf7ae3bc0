import PhysMem.Fault
import PhysMem.Lock.Interrupts

/-!
# Locks — four ways to keep a word to oneself

A lock guards one word. Taking it answers a guard, and giving the guard back frees it. The kinds
differ in how they know that they are taken:

* **`SpinLock`** has a flag;
* **`TicketLock`** deals tickets and serves them in order;
* **`Mutex`** is a ticket lock behind another name;
* **`IrqMutex`** is a mutex that holds interrupts off while it is taken.

`Lock` is what they have in common and `LockUser` a user of one lock, who holds at most one guard.
-/

namespace PhysMem

/-- What every kind of lock offers. Interrupts are passed along, for the kind that holds them. -/
class Lock (L : Type) where
  /-- The proof of having taken the lock. -/
  Guard : Type
  /-- A free lock around a word. -/
  create : Nat → L
  /-- Takes the lock, or nothing if that would wait for ever. -/
  lock? : L → Interrupts → Except Fault (Option Guard × L × Interrupts)
  /-- Takes the lock if it is free. -/
  tryLock? : L → Interrupts → Except Fault (Option Guard × L × Interrupts)
  /-- Gives a guard back. -/
  unlock : Guard → L → Interrupts → Except Fault (L × Interrupts)
  isLocked : L → Bool
  value : L → Nat
  setValue : L → Nat → L
  /-- What is shown of the lock to a user who does or does not hold the guard. Looking inside may
  take the lock for a moment. -/
  describe : L → Bool → Except Fault (Option String × L)

/-! ## A flag -/

/-- A lock that is taken while its flag is set. -/
structure SpinLock where
  taken : Bool := false
  value : Nat
  deriving DecidableEq, Repr

namespace SpinLock

/-- Sets the flag if it is clear. -/
def tryLock? (l : SpinLock) : Option SpinLock :=
  if l.taken then none else some { l with taken := true }

/-- Clears the flag. -/
def unlock (l : SpinLock) : SpinLock := { l with taken := false }

end SpinLock

instance : Lock SpinLock where
  Guard := Unit
  create value := { value }
  lock? l i := .ok (match l.tryLock? with | some l => (some (), l, i) | none => (none, l, i))
  tryLock? l i := .ok (match l.tryLock? with | some l => (some (), l, i) | none => (none, l, i))
  unlock _ l i := .ok (l.unlock, i)
  isLocked := SpinLock.taken
  value := SpinLock.value
  setValue l value := { l with value }
  describe l _ := .ok (none, l)

/-! ## Tickets -/

/-- A lock that deals tickets and serves them in order. It is free when the next ticket to be dealt
is the one being served. -/
structure TicketLock where
  nextTicket : Nat := 0
  serving : Nat := 0
  value : Nat
  deriving DecidableEq, Repr

namespace TicketLock

/-- Somebody holds a ticket. -/
def isLocked (l : TicketLock) : Bool := l.serving != l.nextTicket

/-- Draws a ticket and waits for it: nothing if it is not served at once, since nobody else is
there to finish. -/
def lock? (l : TicketLock) : Option (Nat × TicketLock) :=
  if l.serving = l.nextTicket then
    some (l.nextTicket, { l with nextTicket := (l.nextTicket + 1) % Word.span Word.bits })
  else none

/-- Draws a ticket only if it is served at once. The number behind it is computed either way. -/
def tryLock? (l : TicketLock) : Except Fault (Option (Nat × TicketLock)) := do
  let nextTicket ← Word.add Word.bits l.nextTicket 1
  if l.serving = l.nextTicket then return some (l.nextTicket, { l with nextTicket })
  else return none

/-- Serves the ticket behind the one given back. -/
def unlock (l : TicketLock) (ticket : Nat) : Except Fault TicketLock := do
  let serving ← Word.add Word.bits ticket 1
  return { l with serving }

end TicketLock

instance : Lock TicketLock where
  Guard := Nat
  create value := { value }
  lock? l i := .ok (match l.lock? with
    | some (ticket, l) => (some ticket, l, i)
    | none => (none, l, i))
  tryLock? l i := do
    match ← l.tryLock? with
    | some (ticket, l) => return (some ticket, l, i)
    | none => return (none, l, i)
  unlock ticket l i := do
    let l ← l.unlock ticket
    return (l, i)
  isLocked := TicketLock.isLocked
  value := TicketLock.value
  setValue l value := { l with value }
  describe l holdsGuard := .ok (if holdsGuard then some (toString l.value) else none, l)

/-! ## Mutexes -/

/-- A lock that never lets its user sleep. -/
structure Mutex where
  inner : TicketLock
  deriving DecidableEq, Repr

namespace Mutex

/-- What a mutex called `name` shows: its word, if it can be taken for a moment. -/
def describe (name : String) (m : Mutex) : Except Fault (String × Mutex) := do
  match ← m.inner.tryLock? with
  | some (ticket, inner) =>
    let freed ← inner.unlock ticket
    return (name ++ " \x7b data: " ++ toString inner.value ++ " \x7d", ⟨freed⟩)
  | none => return (name ++ " \x7b <locked> \x7d", m)

end Mutex

instance : Lock Mutex where
  Guard := Nat
  create value := ⟨{ value }⟩
  lock? m i := .ok (match m.inner.lock? with
    | some (ticket, inner) => (some ticket, ⟨inner⟩, i)
    | none => (none, m, i))
  tryLock? m i := do
    match ← m.inner.tryLock? with
    | some (ticket, inner) => return (some ticket, ⟨inner⟩, i)
    | none => return (none, m, i)
  unlock ticket m i := do
    let inner ← m.inner.unlock ticket
    return (⟨inner⟩, i)
  isLocked m := m.inner.isLocked
  value m := m.inner.value
  setValue m value := ⟨{ m.inner with value }⟩
  describe m _ := do
    let (text, m) ← m.describe "Mutex"
    return (some text, m)

/-- A mutex that holds interrupts off while it is taken, so that an interrupt cannot wait for a
lock that its own processor holds. -/
structure IrqMutex where
  mutex : Mutex
  deriving DecidableEq, Repr

namespace IrqMutex

/-- Takes the mutex if it is free. Interrupts are held off only once it is seen to be free, and let
go again should it be lost after that. -/
def tryLock? (m : IrqMutex) (i : Interrupts) :
    Except Fault (Option Nat × IrqMutex × Interrupts) :=
  if m.mutex.inner.isLocked then .ok (none, m, i)
  else do
    let held := i.hold
    match ← m.mutex.inner.tryLock? with
    | some (ticket, inner) => return (some ticket, ⟨⟨inner⟩⟩, held)
    | none => return (none, m, held.letGo)

end IrqMutex

instance : Lock IrqMutex where
  Guard := Nat
  create value := ⟨⟨{ value }⟩⟩
  lock? := IrqMutex.tryLock?
  tryLock? := IrqMutex.tryLock?
  unlock ticket m i := do
    let inner ← m.mutex.inner.unlock ticket
    return (⟨⟨inner⟩⟩, i.letGo)
  isLocked m := m.mutex.inner.isLocked
  value m := m.mutex.inner.value
  setValue m value := ⟨⟨{ m.mutex.inner with value }⟩⟩
  describe m _ := do
    let (text, mutex) ← m.mutex.describe "MutexIrq"
    return (some text, ⟨mutex⟩)

/-! ## A user -/

/-- A lock and its only user, who holds at most one guard. -/
structure LockUser (L : Type) [Lock L] where
  lock : L
  guard : Option (Lock.Guard L) := none
  interrupts : Interrupts := {}

namespace LockUser

variable {L : Type} [Lock L]

/-- A user of a free lock around `value`. -/
def create (L : Type) [Lock L] (value : Nat) : LockUser L := { lock := Lock.create value }

/-- Takes the lock and answers its word; nothing if that would wait for ever. -/
def take (u : LockUser L) : Except Fault (Option Nat × LockUser L) := do
  let (guard, lock, interrupts) ← Lock.lock? u.lock u.interrupts
  match guard with
  | some guard => return (some (Lock.value lock), { lock, guard := some guard, interrupts })
  | none => return (none, { u with lock, interrupts })

/-- Takes the lock if it is free and answers its word. -/
def tryTake (u : LockUser L) : Except Fault (Option Nat × LockUser L) := do
  let (guard, lock, interrupts) ← Lock.tryLock? u.lock u.interrupts
  match guard with
  | some guard => return (some (Lock.value lock), { lock, guard := some guard, interrupts })
  | none => return (none, { u with lock, interrupts })

/-- Gives the guard back, if there is one. -/
def drop (u : LockUser L) : Except Fault (LockUser L) :=
  match u.guard with
  | none => .ok u
  | some guard => do
    let (lock, interrupts) ← Lock.unlock guard u.lock u.interrupts
    return { lock, guard := none, interrupts }

/-- The guarded word. -/
def value (u : LockUser L) : Nat := Lock.value u.lock

/-- Stores a word. -/
def store (u : LockUser L) (value : Nat) : LockUser L :=
  { u with lock := Lock.setValue u.lock value }

/-- Adds to the guarded word. -/
def add (u : LockUser L) (amount : Nat) : Except Fault (LockUser L) := do
  let value ← Word.add Word.bits u.value amount
  return u.store value

/-- What is shown of the lock. -/
def describe (u : LockUser L) : Except Fault (Option String × LockUser L) := do
  let (text, lock) ← Lock.describe u.lock u.guard.isSome
  return (text, { u with lock })

end LockUser

end PhysMem
