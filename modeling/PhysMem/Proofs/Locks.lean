import PhysMem.Lock

/-!
# Lock laws — every kind of lock is a word with a flag

The kinds of lock know in different ways that they are taken, and only one of them touches the
interrupts. To its user none of this shows. What is asked of a kind is one law for each thing that
can be done with it, about the lock after so many acquisitions; the rest is proved once, for every
kind that obeys the laws.

* **`LockUser.Step`** is what a user does, **`LockUser.run`** does it and looks at the lock.
* **`Plain`** is a word with a flag, the specification.
* **`Lock.Lawful`** are the laws, with an instance for each of the four kinds.
* **`LockUser.Stands`** is a user who stands for a word with a flag.
  **`LockUser.Stands.perform`** is the step and **`LockUser.Stands.run`** the induction.

A ticket lock counts its acquisitions in a word. An attempt computes the ticket behind the next one
before it looks whether the lock is free, so after the last acquisition that the word can count even
an attempt that must fail overflows. **`Lock.Lawful.Room`** is where that does not happen, and
**`LockUser.Stands.room`** says that no attempt is answered elsewhere.
-/

namespace PhysMem

/-! ## What a user does -/

namespace LockUser

/-- What a user does with a lock: take it, give it back, reach for the word through the guard, or
reach for it without one, as whoever has the lock to himself may. -/
inductive Step where
  | lock
  | tryLock
  | unlock
  | get
  | set (value : Nat)
  | getMut (value : Nat)
  deriving DecidableEq, Repr

variable {L : Type} [Lock L]

/-- Does one thing. What needs the guard, or that there is none, is left undone otherwise. -/
def perform (u : LockUser L) : Step → Except Fault (Option Nat × LockUser L)
  | .lock => u.take
  | .tryLock => u.tryTake
  | .unlock => do
    let u ← u.drop
    return (none, u)
  | .get => .ok (if u.guard.isSome then some u.value else none, u)
  | .set value => .ok (none, if u.guard.isSome then u.store value else u)
  | .getMut value => .ok (if u.guard.isSome then (none, u) else (some u.value, u.store value))

/-- Does one thing after the other. Each answer comes with whether the lock is taken then. -/
def run (u : LockUser L) : List Step → Except Fault (List (Option Nat × Bool) × LockUser L)
  | [] => .ok ([], u)
  | step :: steps => do
    let (answer, u) ← u.perform step
    let locked := Lock.isLocked u.lock
    let (answers, u) ← u.run steps
    return ((answer, locked) :: answers, u)

end LockUser

/-! ## A word with a flag -/

/-- A word, whether it is taken, and how often it was. -/
structure Plain where
  value : Nat
  taken : Bool := false
  acquired : Nat := 0
  deriving DecidableEq, Repr

namespace Plain

/-- A word that was never taken. -/
def free (value : Nat) : Plain := { value }

/-- Does one thing with the word. -/
def perform (p : Plain) : LockUser.Step → Option Nat × Plain
  | .lock | .tryLock =>
    if p.taken then (none, p)
    else (some p.value, { p with taken := true, acquired := p.acquired + 1 })
  | .unlock => (none, { p with taken := false })
  | .get => (if p.taken then some p.value else none, p)
  | .set value => (none, if p.taken then { p with value } else p)
  | .getMut value => if p.taken then (none, p) else (some p.value, { p with value })

/-- Does one thing after the other. -/
def run (p : Plain) : List LockUser.Step → List (Option Nat × Bool) × Plain
  | [] => ([], p)
  | step :: steps =>
    let (answer, p) := p.perform step
    let (answers, last) := p.run steps
    ((answer, p.taken) :: answers, last)

theorem acquired_le_perform (p : Plain) (step : LockUser.Step) :
    p.acquired ≤ (p.perform step).2.acquired := by
  cases step <;> simp only [perform] <;> grind

/-- What was acquired stays acquired. -/
theorem acquired_le_run (p : Plain) (steps : List LockUser.Step) :
    p.acquired ≤ (p.run steps).2.acquired := by
  induction steps generalizing p with
  | nil => exact Nat.le_refl _
  | cons step steps ih => exact Nat.le_trans (p.acquired_le_perform step) (ih _)

theorem run_append (p : Plain) (earlier later : List LockUser.Step) :
    (p.run (earlier ++ later)).2 = ((p.run earlier).2.run later).2 := by
  induction earlier generalizing p with
  | nil => rfl
  | cons step earlier ih => exact ih _

end Plain

/-! ## The laws -/

/-- A kind of lock that does what is expected of one. -/
class Lock.Lawful (L : Type) [Lock L] where
  /-- How many holds on the interrupts a guard is. -/
  weight : Nat
  /-- The lock after so many acquisitions, with the guard of the last one or all given back. -/
  At : Nat → Option (Lock.Guard L) → L → Prop
  /-- After how many acquisitions an attempt is answered. -/
  Room : Nat → Prop
  create (value : Nat) : At 0 none (Lock.create value)
  value_create (value : Nat) : Lock.value (Lock.create value : L) = value
  lock {n : Nat} {l : L} (i : Interrupts) (h : At n none l) (hn : n + 1 < Word.span Word.bits) :
    ∃ guard l', Lock.lock? l i = .ok (some guard, l', ⟨i.holds + weight⟩) ∧
      At (n + 1) (some guard) l' ∧ Lock.value l' = Lock.value l
  tryLock {n : Nat} {l : L} (i : Interrupts) (h : At n none l) (hn : n + 1 < Word.span Word.bits) :
    ∃ guard l', Lock.tryLock? l i = .ok (some guard, l', ⟨i.holds + weight⟩) ∧
      At (n + 1) (some guard) l' ∧ Lock.value l' = Lock.value l
  lock_taken {n : Nat} {guard : Lock.Guard L} {l : L} (i : Interrupts) (h : At n (some guard) l) :
    Lock.lock? l i = .ok (none, l, i)
  tryLock_taken {n : Nat} {guard : Lock.Guard L} {l : L} (i : Interrupts)
    (h : At n (some guard) l) (hn : Room n) : Lock.tryLock? l i = .ok (none, l, i)
  room {n : Nat} {guard : Option (Lock.Guard L)} {l : L} {i : Interrupts}
    {r : Option (Lock.Guard L) × L × Interrupts} (h : At n guard l)
    (hn : n < Word.span Word.bits) (hr : Lock.tryLock? l i = .ok r) : Room n
  unlock {n : Nat} {guard : Lock.Guard L} {l : L} (i : Interrupts) (h : At n (some guard) l)
    (hn : n < Word.span Word.bits) :
    ∃ l', Lock.unlock guard l i = .ok (l', ⟨i.holds - weight⟩) ∧ At n none l' ∧
      Lock.value l' = Lock.value l
  isLocked_eq {n : Nat} {guard : Option (Lock.Guard L)} {l : L} (h : At n guard l) :
    Lock.isLocked l = guard.isSome
  store {n : Nat} {guard : Option (Lock.Guard L)} {l : L} (value : Nat) (h : At n guard l) :
    At n guard (Lock.setValue l value)
  value_store (l : L) (value : Nat) : Lock.value (Lock.setValue l value) = value

/-! ### The flag -/

namespace SpinLock

variable {l : SpinLock}

theorem tryLock?_free (h : l.taken = false) : l.tryLock? = some { l with taken := true } :=
  if_neg (Bool.eq_false_iff.mp h)

theorem tryLock?_taken (h : l.taken = true) : l.tryLock? = none := if_pos h

end SpinLock

instance : Lock.Lawful SpinLock where
  weight := 0
  At := fun _ guard l => l.taken = guard.isSome
  Room := fun _ => True
  create := fun _ => rfl
  value_create := fun _ => rfl
  lock := fun {_ l} _ h _ =>
    ⟨(), { l with taken := true }, by simp only [Lock.lock?, l.tryLock?_free h]; rfl, rfl, rfl⟩
  tryLock := fun {_ l} _ h _ =>
    ⟨(), { l with taken := true }, by simp only [Lock.tryLock?, l.tryLock?_free h]; rfl, rfl, rfl⟩
  lock_taken := fun _ h => by simp only [Lock.lock?, SpinLock.tryLock?_taken h]
  tryLock_taken := fun _ h _ => by simp only [Lock.tryLock?, SpinLock.tryLock?_taken h]
  room := fun _ _ _ => trivial
  unlock := fun _ _ _ => ⟨_, rfl, rfl, rfl⟩
  isLocked_eq := id
  store := fun _ => id
  value_store := fun _ _ => rfl

/-! ### The tickets -/

namespace TicketLock

/-- As many tickets were dealt as there were acquisitions. All of them were served, or the last one
is being served. -/
def At (n : Nat) : Option Nat → TicketLock → Prop
  | none, l => l.nextTicket = n ∧ l.serving = n
  | some ticket, l => l.nextTicket = n ∧ l.serving = ticket ∧ ticket + 1 = n

variable {n ticket : Nat} {guard : Option Nat} {l : TicketLock}

theorem lock?_free (h : l.At n none) (hn : n + 1 < Word.span Word.bits) :
    l.lock? = some (n, { l with nextTicket := n + 1 }) := by
  obtain ⟨hdealt, hserving⟩ := h
  rw [lock?, if_pos (hserving.trans hdealt.symm), hdealt, Nat.mod_eq_of_lt hn]

theorem tryLock?_free (h : l.At n none) (hn : n + 1 < Word.span Word.bits) :
    l.tryLock? = .ok (some (n, { l with nextTicket := n + 1 })) := by
  obtain ⟨hdealt, hserving⟩ := h
  refine Fault.bind_eq_ok.mpr ⟨n + 1, by rw [hdealt, Word.add_eq_ok hn], ?_⟩
  rw [if_pos (hserving.trans hdealt.symm), hdealt]
  rfl

theorem At.serving_ne (h : l.At n (some ticket)) : l.serving ≠ l.nextTicket := by
  obtain ⟨hdealt, hserving, hticket⟩ := h
  omega

theorem lock?_taken (h : l.At n (some ticket)) : l.lock? = none := if_neg h.serving_ne

theorem tryLock?_taken (h : l.At n (some ticket)) (hn : n + 1 < Word.span Word.bits) :
    l.tryLock? = .ok none := by
  refine Fault.bind_eq_ok.mpr ⟨n + 1, by rw [h.1, Word.add_eq_ok hn], ?_⟩
  rw [if_neg h.serving_ne]
  rfl

/-- **The last ticket.** While it is out, an attempt overflows. -/
theorem tryLock?_last (h : l.At n guard) (hn : n = Word.last) :
    l.tryLock? = .error (.overflow .add) := by
  have hdealt : l.nextTicket = Word.last := by
    cases guard with
    | none => exact h.1.trans hn
    | some ticket => exact h.1.trans hn
  rw [tryLock?, hdealt]
  rfl

/-- So an attempt that is answered comes before. -/
theorem At.room {r : Option (Nat × TicketLock)} (h : l.At n guard)
    (hn : n < Word.span Word.bits) (hr : l.tryLock? = .ok r) : n + 1 < Word.span Word.bits := by
  refine Nat.lt_of_le_of_ne hn fun hfull => ?_
  have hlast : n = Word.last := Nat.eq_sub_of_add_eq hfull
  exact nomatch (tryLock?_last h hlast).symm.trans hr

/-- Serving the ticket behind the one given back, a lock has served all that it dealt. -/
theorem unlock_eq (h : l.At n (some ticket)) (hn : n < Word.span Word.bits) :
    l.unlock ticket = .ok { l with serving := n } := by
  obtain ⟨-, -, hticket⟩ := h
  exact Fault.bind_eq_ok.mpr ⟨n, hticket ▸ Word.add_eq_ok (hticket ▸ hn), rfl⟩

theorem At.dealt (h : l.At n none) :
    TicketLock.At (n + 1) (some n) { l with nextTicket := n + 1 } :=
  ⟨rfl, h.2, rfl⟩

theorem At.served (h : l.At n (some ticket)) : TicketLock.At n none { l with serving := n } :=
  ⟨h.1, rfl⟩

theorem At.isLocked_eq (h : l.At n guard) : l.isLocked = guard.isSome := by
  cases guard with
  | none => exact bne_eq_false_iff_eq.mpr (h.2.trans h.1.symm)
  | some ticket => exact bne_iff_ne.mpr h.serving_ne

theorem At.store (value : Nat) (h : l.At n guard) : TicketLock.At n guard { l with value } := by
  cases guard with
  | none => exact h
  | some ticket => exact h

end TicketLock

instance : Lock.Lawful TicketLock where
  weight := 0
  At := TicketLock.At
  Room := fun n => n + 1 < Word.span Word.bits
  create := fun _ => ⟨rfl, rfl⟩
  value_create := fun _ => rfl
  lock := fun _ h hn =>
    ⟨_, _, by simp only [Lock.lock?, TicketLock.lock?_free h hn]; rfl, h.dealt, rfl⟩
  tryLock := fun _ h hn =>
    ⟨_, _, Fault.bind_eq_ok.mpr ⟨_, TicketLock.tryLock?_free h hn, rfl⟩, h.dealt, rfl⟩
  lock_taken := fun _ h => by simp only [Lock.lock?, TicketLock.lock?_taken h]
  tryLock_taken := fun _ h hn => Fault.bind_eq_ok.mpr ⟨_, TicketLock.tryLock?_taken h hn, rfl⟩
  room := fun h hn hr =>
    have ⟨_, htry, _⟩ := Fault.bind_eq_ok.mp hr
    h.room hn htry
  unlock := fun _ h hn =>
    ⟨_, Fault.bind_eq_ok.mpr ⟨_, TicketLock.unlock_eq h hn, rfl⟩, h.served, rfl⟩
  isLocked_eq := fun h => h.isLocked_eq
  store := fun value h => h.store value
  value_store := fun _ _ => rfl

/-! ### The mutexes -/

instance : Lock.Lawful Mutex where
  weight := 0
  At := fun n guard m => m.inner.At n guard
  Room := fun n => n + 1 < Word.span Word.bits
  create := fun _ => ⟨rfl, rfl⟩
  value_create := fun _ => rfl
  lock := fun _ h hn =>
    ⟨_, _, by simp only [Lock.lock?, TicketLock.lock?_free h hn]; rfl, h.dealt, rfl⟩
  tryLock := fun _ h hn =>
    ⟨_, _, Fault.bind_eq_ok.mpr ⟨_, TicketLock.tryLock?_free h hn, rfl⟩, h.dealt, rfl⟩
  lock_taken := fun _ h => by simp only [Lock.lock?, TicketLock.lock?_taken h]
  tryLock_taken := fun _ h hn => Fault.bind_eq_ok.mpr ⟨_, TicketLock.tryLock?_taken h hn, rfl⟩
  room := fun h hn hr =>
    have ⟨_, htry, _⟩ := Fault.bind_eq_ok.mp hr
    h.room hn htry
  unlock := fun _ h hn =>
    ⟨_, Fault.bind_eq_ok.mpr ⟨_, TicketLock.unlock_eq h hn, rfl⟩, h.served, rfl⟩
  isLocked_eq := fun h => h.isLocked_eq
  store := fun value h => h.store value
  value_store := fun _ _ => rfl

namespace IrqMutex

variable {n ticket : Nat} {m : IrqMutex}

/-- A free mutex is taken with interrupts held off. -/
theorem tryLock?_free (i : Interrupts) (h : m.mutex.inner.At n none)
    (hn : n + 1 < Word.span Word.bits) :
    m.tryLock? i = .ok (some n, ⟨⟨{ m.mutex.inner with nextTicket := n + 1 }⟩⟩, i.hold) := by
  rw [tryLock?, h.isLocked_eq]
  exact Fault.bind_eq_ok.mpr ⟨_, TicketLock.tryLock?_free h hn, rfl⟩

/-- A taken mutex is not tried, so there is always room for an attempt that must fail. -/
theorem tryLock?_taken (i : Interrupts) (h : m.mutex.inner.At n (some ticket)) :
    m.tryLock? i = .ok (none, m, i) := by
  rw [tryLock?, h.isLocked_eq]
  rfl

end IrqMutex

instance : Lock.Lawful IrqMutex where
  weight := 1
  At := fun n guard m => m.mutex.inner.At n guard
  Room := fun _ => True
  create := fun _ => ⟨rfl, rfl⟩
  value_create := fun _ => rfl
  lock := fun i h hn => ⟨_, _, IrqMutex.tryLock?_free i h hn, h.dealt, rfl⟩
  tryLock := fun i h hn => ⟨_, _, IrqMutex.tryLock?_free i h hn, h.dealt, rfl⟩
  lock_taken := fun i h => IrqMutex.tryLock?_taken i h
  tryLock_taken := fun i h _ => IrqMutex.tryLock?_taken i h
  room := fun _ _ _ => trivial
  unlock := fun _ h hn =>
    ⟨_, Fault.bind_eq_ok.mpr ⟨_, TicketLock.unlock_eq h hn, rfl⟩, h.served, rfl⟩
  isLocked_eq := fun h => h.isLocked_eq
  store := fun value h => h.store value
  value_store := fun _ _ => rfl

/-! ## A user and the word -/

namespace LockUser

open Lock (Lawful)

variable {L : Type} [Lock L] [Lawful L] {p : Plain} {u : LockUser L} {step : Step}
  {steps : List Step}

/-- The user of a lock that looks like the word with a flag. -/
structure Stands (p : Plain) (u : LockUser L) : Prop where
  lock : Lawful.At p.acquired u.guard u.lock
  value : u.value = p.value
  taken : u.guard.isSome = p.taken

/-- Others hold the interrupts off so many times, and besides them only the guard does. -/
def Weighs (others : Nat) (u : LockUser L) : Prop :=
  u.interrupts.holds = others + if u.guard.isSome then Lawful.weight L else 0

/-- Who else holds interrupts off is no matter to the lock. -/
theorem Stands.beside (h : Stands p u) (i : Interrupts) : Stands p { u with interrupts := i } :=
  ⟨h.lock, h.value, h.taken⟩

/-- A lock is locked while its guard is alive. -/
theorem Stands.isLocked_eq (h : Stands p u) : Lock.isLocked u.lock = p.taken :=
  (Lawful.isLocked_eq h.lock).trans h.taken

theorem Stands.guard_eq_none (h : Stands p u) (htaken : p.taken = false) : u.guard = none :=
  Option.not_isSome_iff_eq_none.mp (Bool.eq_false_iff.mp (h.taken.trans htaken))

theorem Stands.guard_eq_some (h : Stands p u) (htaken : p.taken = true) :
    ∃ guard, u.guard = some guard :=
  Option.isSome_iff_exists.mp (h.taken.trans htaken)

/-- The user once he has this guard, and the lock has become this one. -/
def having (u : LockUser L) (guard : Lock.Guard L) (l : L) : LockUser L where
  lock := l
  guard := some guard
  interrupts := ⟨u.interrupts.holds + Lawful.weight L⟩

theorem Stands.having {guard : Lock.Guard L} {l : L} (h : Stands p u) (htaken : p.taken = false)
    (hat : Lawful.At (p.acquired + 1) (some guard) l) (hvalue : Lock.value l = Lock.value u.lock) :
    Stands { p with taken := true, acquired := p.acquired + 1 } (u.having guard l) ∧
      ∀ others, Weighs others u → Weighs others (u.having guard l) := by
  refine ⟨⟨hat, hvalue.trans h.value, rfl⟩, fun others hothers => ?_⟩
  rw [Weighs, h.guard_eq_none htaken] at hothers
  exact congrArg (· + Lawful.weight L) hothers

theorem Stands.store (h : Stands p u) (value : Nat) :
    Stands { p with value } (u.store value) where
  lock := Lawful.store value h.lock
  value := Lawful.value_store u.lock value
  taken := h.taken

/-- A free lock can be taken, and its word is answered. -/
theorem Stands.take (h : Stands p u) (htaken : p.taken = false)
    (hn : p.acquired + 1 < Word.span Word.bits) :
    ∃ u', u.take = .ok (some p.value, u') ∧
      Stands { p with taken := true, acquired := p.acquired + 1 } u' ∧
      ∀ others, Weighs others u → Weighs others u' := by
  obtain ⟨guard, l, hlock, hat, hvalue⟩ :=
    Lawful.lock u.interrupts (h.guard_eq_none htaken ▸ h.lock) hn
  refine ⟨u.having guard l, Fault.bind_eq_ok.mpr ⟨_, hlock, ?_⟩, h.having htaken hat hvalue⟩
  rw [← hvalue.trans h.value]
  rfl

/-- A free lock can be tried, and its word is answered. -/
theorem Stands.tryTake (h : Stands p u) (htaken : p.taken = false)
    (hn : p.acquired + 1 < Word.span Word.bits) :
    ∃ u', u.tryTake = .ok (some p.value, u') ∧
      Stands { p with taken := true, acquired := p.acquired + 1 } u' ∧
      ∀ others, Weighs others u → Weighs others u' := by
  obtain ⟨guard, l, hlock, hat, hvalue⟩ :=
    Lawful.tryLock u.interrupts (h.guard_eq_none htaken ▸ h.lock) hn
  refine ⟨u.having guard l, Fault.bind_eq_ok.mpr ⟨_, hlock, ?_⟩, h.having htaken hat hvalue⟩
  rw [← hvalue.trans h.value]
  rfl

theorem Stands.take_taken (h : Stands p u) (htaken : p.taken = true) :
    u.take = .ok (none, u) := by
  obtain ⟨guard, hguard⟩ := h.guard_eq_some htaken
  exact Fault.bind_eq_ok.mpr ⟨_, Lawful.lock_taken u.interrupts (hguard ▸ h.lock), rfl⟩

/-- **A failed attempt changes nothing.** -/
theorem Stands.tryTake_taken (h : Stands p u) (htaken : p.taken = true)
    (hroom : Lawful.Room L p.acquired) : u.tryTake = .ok (none, u) := by
  obtain ⟨guard, hguard⟩ := h.guard_eq_some htaken
  exact Fault.bind_eq_ok.mpr ⟨_, Lawful.tryLock_taken u.interrupts (hguard ▸ h.lock) hroom, rfl⟩

/-- **An attempt that is answered** had room for it. -/
theorem Stands.room {r : Option Nat × LockUser L} (h : Stands p u)
    (hn : p.acquired < Word.span Word.bits) (hr : u.tryTake = .ok r) :
    Lawful.Room L p.acquired := by
  obtain ⟨answer, htry, -⟩ := Fault.bind_eq_ok.mp hr
  exact Lawful.room h.lock hn htry

/-- A guard can be given back. -/
theorem Stands.drop (h : Stands p u) (hn : p.acquired < Word.span Word.bits) :
    ∃ u', u.drop = .ok u' ∧ Stands { p with taken := false } u' ∧
      ∀ others, Weighs others u → Weighs others u' := by
  cases htaken : p.taken with
  | false =>
      refine ⟨u, by rw [LockUser.drop, h.guard_eq_none htaken], ?_, fun _ => id⟩
      exact htaken ▸ h
  | true =>
      obtain ⟨guard, hguard⟩ := h.guard_eq_some htaken
      obtain ⟨l, hunlock, hat, hvalue⟩ := Lawful.unlock u.interrupts (hguard ▸ h.lock) hn
      refine ⟨{ lock := l, interrupts := ⟨u.interrupts.holds - Lawful.weight L⟩ }, ?_,
        ⟨hat, hvalue.trans h.value, rfl⟩, fun others hothers => ?_⟩
      · rw [LockUser.drop, hguard]
        exact Fault.bind_eq_ok.mpr ⟨_, hunlock, rfl⟩
      · rw [Weighs, hguard] at hothers
        exact Nat.sub_eq_of_eq_add hothers

/-- **The step.** A user is answered as the word with a flag answers, and stands for it afterwards.
The others who hold interrupts off are as many as before. -/
theorem Stands.perform (h : Stands p u) (step : Step)
    (hn : (p.perform step).2.acquired < Word.span Word.bits)
    (hroom : step = .tryLock → p.taken = true → Lawful.Room L p.acquired) :
    ∃ u', u.perform step = .ok ((p.perform step).1, u') ∧ Stands (p.perform step).2 u' ∧
      ∀ others, Weighs others u → Weighs others u' := by
  -- With the flag known, both sides compute: the guard is there exactly if the flag is set.
  obtain ⟨word, taken, acquired⟩ := p
  have htaken : u.guard.isSome = taken := h.taken
  cases step with
  | lock =>
      cases taken with
      | true => exact ⟨u, h.take_taken rfl, h, fun _ => id⟩
      | false => exact h.take rfl hn
  | tryLock =>
      cases taken with
      | true => exact ⟨u, h.tryTake_taken rfl (hroom rfl rfl), h, fun _ => id⟩
      | false => exact h.tryTake rfl hn
  | unlock =>
      obtain ⟨u', hdrop, h', hweighs⟩ := h.drop hn
      exact ⟨u', Fault.bind_eq_ok.mpr ⟨_, hdrop, rfl⟩, h', hweighs⟩
  | get => exact ⟨u, by rw [LockUser.perform, htaken, h.value]; rfl, h, fun _ => id⟩
  | set value =>
      cases taken with
      | true =>
          refine ⟨u.store value, ?_, h.store value, fun _ => id⟩
          rw [LockUser.perform, htaken]
          rfl
      | false =>
          refine ⟨u, ?_, h, fun _ => id⟩
          rw [LockUser.perform, htaken]
          rfl
  | getMut value =>
      cases taken with
      | true =>
          refine ⟨u, ?_, h, fun _ => id⟩
          rw [LockUser.perform, htaken]
          rfl
      | false =>
          refine ⟨u.store value, ?_, h.store value, fun _ => id⟩
          rw [LockUser.perform, htaken, h.value]
          rfl

/-- **The run.** A user is answered as the word with a flag answers, all along. -/
theorem Stands.run (h : Stands p u) (hn : (p.run steps).2.acquired < Word.span Word.bits)
    (hroom : ∀ earlier later, steps = earlier ++ .tryLock :: later →
      (p.run earlier).2.taken = true → Lawful.Room L (p.run earlier).2.acquired) :
    ∃ u', u.run steps = .ok ((p.run steps).1, u') ∧ Stands (p.run steps).2 u' := by
  induction steps generalizing p u with
  | nil => exact ⟨u, rfl, h⟩
  | cons step steps ih =>
      obtain ⟨u₁, hperform, h₁, -⟩ := h.perform step
        (Nat.lt_of_le_of_lt (Plain.acquired_le_run _ steps) hn)
        (fun hstep => hroom [] steps (hstep ▸ rfl))
      -- An attempt later on is one of the whole run, one step further.
      obtain ⟨u₂, hrun, h₂⟩ := ih h₁ hn fun earlier later hsteps =>
        hroom (step :: earlier) later (hsteps ▸ rfl)
      refine ⟨u₂, Fault.bind_eq_ok.mpr ⟨_, hperform, Fault.bind_eq_ok.mpr ⟨_, hrun, ?_⟩⟩, h₂⟩
      rw [h₁.isLocked_eq]
      rfl

end LockUser

end PhysMem
