import PhysMem.Script.Play

/-!
# The machine — operations in flight, one inside the other

What happens at a call-out of an operation happens while the operation waits: another operation may
be started there, which may be stopped at a call-out of its own, and so on. So the operations in
flight form a stack, and only the innermost one goes on. A `Machine` is the memory with that stack,
and a run is any list of moves that some rules allow.

* **`step`** makes one move, **`run`** makes several and collects what happened.
* **`run_induction`** is how a property is carried along a run.
* **`run_append`** cuts a run in two, **`run_strict`** makes its rules stricter.
* **`trace`** is what a run did, move by move, **`trace_induction`** carries a property of it along.
* **`Play.run_matches`** — every script runs as some run of the machine.
-/

namespace PhysMem

/-- Whether the operation is one of the allocator's own that releases a slot only while it belongs
to the right page. A restore releases its slot whoever has it. -/
def Operation.guardsSlots : Operation → Bool
  | .restore .. => false
  | op => op.isManaged

/-- Whether the probe leaves the slot map alone: a look at the memory system, a store of a program,
a mapping of the pager, or a change of what the drive was told. -/
def Probe.leavesSlots : Probe → Bool
  | .reserveSlot _ | .holdSlot .. | .settleSlot .. | .releaseSlot _ | .releaseSlotIfOwned ..
  | .releaseSlots _ => false
  | _ => true

/-- An operation in flight. -/
structure Call where
  op : Operation
  /-- Where it is stopped, and what it knows. -/
  task : Task
  deriving DecidableEq, Repr

/-- The memory system with the operations in flight. -/
structure Machine where
  memory : Memory
  /-- The innermost call first: each was started at the call-out where the next one is stopped. -/
  calls : List Call
  deriving DecidableEq, Repr

/-- What happens next. -/
inductive Move where
  | start (op : Operation)
  /-- The innermost call goes on. -/
  | resume
  | probe (probe : Probe)
  deriving DecidableEq, Repr

/-- What a move shows to the outside. -/
inductive Event where
  /-- The pager was told that a page went to a slot; its frame held these contents. -/
  | told (page : Page) (slot : Nat) (contents : Contents)
  /-- An operation came to its end inside so many others. -/
  | answered (outer : Nat) (op : Operation) (reply : Reply)
  deriving DecidableEq, Repr

namespace Machine

/-- A memory system at rest. -/
def idle (m : Memory) : Machine := ⟨m, []⟩

/-- Whether one of these calls holds the swap device. -/
def deviceHeld (calls : List Call) : Bool := calls.any fun c => c.task.holdsDevice

/-- The frames that these calls have lent to the swap device. -/
def loans (calls : List Call) : List Task.Loan := (calls.map Call.task).filterMap Task.loan?

/-- What is shown when a call stops. -/
def shown (m : Memory) : Task → List Event
  | .evictTelling e => [.told e.page e.slot (m.contents e.frame)]
  | _ => []

/-- Takes over a piece of an operation that runs inside some others. -/
def follow (op : Operation) (outer : List Call) (piece : Task.Piece) : Machine × List Event :=
  match piece.next with
  | .callOut task => (⟨piece.memory, ⟨op, task⟩ :: outer⟩, shown piece.memory task)
  | .reply reply => (⟨piece.memory, outer⟩, [.answered outer.length op reply])

/-- Makes one move. Without a call in flight there is none to go on. -/
def step (w : Machine) : Move → Except Fault (Machine × List Event)
  | .start op => do
    let piece ← Task.start (deviceHeld w.calls) w.memory op
    return follow op w.calls piece
  | .resume =>
    match w.calls with
    | [] => .ok (w, [])
    | call :: outer => do
      let piece ← Task.resume (deviceHeld outer) w.memory call.task
      return follow call.op outer piece
  | .probe p => do
    let (_, memory) ← p.perform (loans w.calls) w.memory
    return ({ w with memory }, [])

/-- Makes some moves, if the rules allow each where it comes and none stops the machine. -/
def run (rules : Machine → Move → Bool) (w : Machine) : List Move → Option (Machine × List Event)
  | [] => some (w, [])
  | move :: rest =>
    if rules w move then
      match w.step move with
      | .ok (w', events) => (w'.run rules rest).map fun (z, more) => (z, events ++ more)
      | .error _ => none
    else none

variable {rules : Machine → Move → Bool} {w w' z : Machine} {move : Move} {moves : List Move}
  {events : List Event}

/-! ## Runs -/

/-- A run that is not empty makes an allowed move first. -/
theorem run_cons (h : w.run rules (move :: moves) = some (z, events)) :
    ∃ w' first more, rules w move = true ∧ w.step move = .ok (w', first) ∧
      w'.run rules moves = some (z, more) ∧ events = first ++ more := by
  unfold run at h
  split at h
  · next hrule =>
      split at h
      · next w' first hstep =>
          obtain ⟨⟨z', more⟩, hrun, he⟩ := Option.map_eq_some_iff.mp h
          cases he
          exact ⟨w', first, more, hrule, hstep, hrun, rfl⟩
      · exact nomatch h
  · exact nomatch h

/-- **Induction along a run**: a property of the machine and of what has happened so far that every
allowed move preserves holds behind the run. -/
theorem run_induction {P : Machine → List Event → Prop} {l : List Event}
    (step : ∀ w past move w' events, P w past → rules w move = true →
      w.step move = .ok (w', events) → P w' (past ++ events))
    (start : P w l) (h : w.run rules moves = some (z, events)) : P z (l ++ events) := by
  induction moves generalizing w l events with
  | nil =>
      cases h
      rw [List.append_nil]
      exact start
  | cons move rest ih =>
      obtain ⟨w', first, more, hrule, hstep, hrun, rfl⟩ := run_cons h
      rw [← List.append_assoc]
      exact ih (step w l move w' first start hrule hstep) hrun

/-- A run of one move. -/
theorem run_one (h : w.run rules [move] = some (z, events)) :
    rules w move = true ∧ w.step move = .ok (z, events) := by
  obtain ⟨w', first, more, hrule, hstep, hrun, rfl⟩ := run_cons h
  cases hrun
  rw [List.append_nil]
  exact ⟨hrule, hstep⟩

/-- A property of the machine alone that every allowed move preserves holds behind the run. -/
theorem run_invariant {P : Machine → Prop}
    (step : ∀ w move w' events, P w → rules w move = true →
      w.step move = .ok (w', events) → P w')
    (start : P w) (h : w.run rules moves = some (z, events)) : P z := by
  refine run_induction (P := fun w _ => P w) (l := []) ?_ start h
  intro w _ move w' events
  exact step w move w' events

/-- A run is cut in two between any two of its moves. -/
theorem run_append {first rest : List Move} :
    w.run rules (first ++ rest) = some (z, events) ↔
      ∃ y before after, w.run rules first = some (y, before) ∧
        y.run rules rest = some (z, after) ∧ events = before ++ after := by
  induction first generalizing w events with
  | nil =>
      constructor
      · intro h
        exact ⟨w, [], events, rfl, h, rfl⟩
      · rintro ⟨y, before, after, hy, hz, rfl⟩
        cases hy
        exact hz
  | cons move more ih =>
      constructor
      · intro h
        obtain ⟨w', now, later, hrule, hstep, hrun, rfl⟩ := run_cons h
        obtain ⟨y, before, after, hy, hz, rfl⟩ := ih.mp hrun
        refine ⟨y, now ++ before, after, ?_, hz, (List.append_assoc _ _ _).symm⟩
        simp only [run, hrule, if_true, hstep, hy, Option.map_some]
      · rintro ⟨y, before, after, hy, hz, rfl⟩
        obtain ⟨w', now, later, hrule, hstep, hrun, rfl⟩ := run_cons hy
        have hall := ih.mpr ⟨y, later, after, hrun, hz, rfl⟩
        show run rules w (move :: (more ++ rest)) = _
        simp only [run, hrule, if_true, hstep, hall, Option.map_some, List.append_assoc]

/-- A run obeys stricter rules too if an invariant sees to it. -/
theorem run_strict {strict : Machine → Move → Bool} {P : Machine → Prop}
    (step : ∀ w move w' events, P w → rules w move = true →
      w.step move = .ok (w', events) → P w')
    (hstrict : ∀ w move, P w → rules w move = true → strict w move = true)
    (start : P w) (h : w.run rules moves = some (z, events)) :
    w.run strict moves = some (z, events) := by
  induction moves generalizing w events with
  | nil => exact h
  | cons move rest ih =>
      obtain ⟨w', first, more, hrule, hstep, hrun, rfl⟩ := run_cons h
      have hrest := ih (step w move w' first start hrule hstep) hrun
      simp only [run, hstrict w move start hrule, if_true, hstep, hrest, Option.map_some]

/-! ## The three moves -/

theorem start_cases {op : Operation} (h : w.step (.start op) = .ok (w', events)) :
    ∃ piece, Task.start (deviceHeld w.calls) w.memory op = .ok piece ∧
      follow op w.calls piece = (w', events) := by
  obtain ⟨piece, hpiece, h⟩ := Fault.bind_eq_ok.mp h
  exact ⟨piece, hpiece, Except.ok.inj h⟩

theorem resume_cases (h : w.step .resume = .ok (w', events)) :
    (w.calls = [] ∧ w' = w ∧ events = []) ∨
      ∃ call outer piece, w.calls = call :: outer ∧
        Task.resume (deviceHeld outer) w.memory call.task = .ok piece ∧
        follow call.op outer piece = (w', events) := by
  cases hc : w.calls with
  | nil =>
      simp only [step, hc] at h
      cases h
      exact Or.inl ⟨rfl, rfl, rfl⟩
  | cons call outer =>
      simp only [step, hc] at h
      obtain ⟨piece, hpiece, h⟩ := Fault.bind_eq_ok.mp h
      exact Or.inr ⟨call, outer, piece, rfl, hpiece, Except.ok.inj h⟩

/-- The innermost call goes on. -/
theorem resume_of_calls {call : Call} {outer : List Call} (hcalls : w.calls = call :: outer)
    (h : w.step .resume = .ok (w', events)) :
    ∃ piece, Task.resume (deviceHeld outer) w.memory call.task = .ok piece ∧
      w' = (follow call.op outer piece).1 ∧ events = (follow call.op outer piece).2 := by
  rcases resume_cases h with ⟨hempty, -⟩ | ⟨last, rest, piece, hsplit, hpiece, hfollow⟩
  · exact nomatch hcalls.symm.trans hempty
  · obtain ⟨rfl, rfl⟩ := List.cons.inj (hcalls.symm.trans hsplit)
    exact ⟨piece, hpiece, congrArg Prod.fst hfollow.symm, congrArg Prod.snd hfollow.symm⟩

theorem probe_cases {p : Probe} (h : w.step (.probe p) = .ok (w', events)) :
    ∃ outcome memory, p.perform (loans w.calls) w.memory = .ok (outcome, memory) ∧
      w' = { w with memory } ∧ events = [] := by
  obtain ⟨⟨outcome, memory⟩, hp, h⟩ := Fault.bind_eq_ok.mp h
  cases h
  exact ⟨outcome, memory, hp, rfl, rfl⟩

/-- A piece that ends at a call-out leaves its call on the stack, and one that ends with an answer
leaves only the calls around it. -/
theorem follow_calls (op : Operation) (outer : List Call) (piece : Task.Piece) :
    (follow op outer piece).1.memory = piece.memory ∧
      ((∃ task, piece.next = .callOut task ∧ (follow op outer piece).1.calls = ⟨op, task⟩ :: outer ∧
          (follow op outer piece).2 = shown piece.memory task) ∨
        (∃ reply, piece.next = .reply reply ∧ (follow op outer piece).1.calls = outer ∧
          (follow op outer piece).2 = [.answered outer.length op reply])) := by
  unfold follow
  cases piece.next with
  | callOut task => exact ⟨rfl, Or.inl ⟨task, rfl, rfl, rfl⟩⟩
  | reply reply => exact ⟨rfl, Or.inr ⟨reply, rfl, rfl, rfl⟩⟩

/-! ## What a run did -/

/-- A move that was made, the machine before it, and what it showed. -/
structure Made where
  before : Machine
  move : Move
  shown : List Event

/-- The moves that a run makes. -/
def trace (w : Machine) : List Move → List Made
  | [] => []
  | move :: rest =>
    match w.step move with
    | .ok (w', events) => ⟨w, move, events⟩ :: w'.trace rest
    | .error _ => []

/-- A run traces all its moves. -/
theorem trace_moves (h : w.run rules moves = some (z, events)) :
    (w.trace moves).map Made.move = moves := by
  induction moves generalizing w events with
  | nil => rfl
  | cons move rest ih =>
      obtain ⟨w', first, more, -, hstep, hrun, -⟩ := run_cons h
      simp only [trace, hstep, List.map_cons, ih hrun]

/-- A run shows what its moves showed. -/
theorem trace_shown (h : w.run rules moves = some (z, events)) :
    (w.trace moves).flatMap Made.shown = events := by
  induction moves generalizing w events with
  | nil =>
      cases h
      rfl
  | cons move rest ih =>
      obtain ⟨w', first, more, -, hstep, hrun, rfl⟩ := run_cons h
      simp only [trace, hstep, List.flatMap_cons, ih hrun]

/-- **Induction along a trace**: a property of the machine and of the moves made so far that every
allowed move preserves holds behind the run. -/
theorem trace_induction {P : Machine → List Made → Prop} {l : List Made}
    (step : ∀ w past move w' events, P w past → rules w move = true →
      w.step move = .ok (w', events) → P w' (past ++ [⟨w, move, events⟩]))
    (start : P w l) (h : w.run rules moves = some (z, events)) : P z (l ++ w.trace moves) := by
  induction moves generalizing w l events with
  | nil =>
      cases h
      rw [trace, List.append_nil]
      exact start
  | cons move rest ih =>
      obtain ⟨w', first, more, hrule, hstep, hrun, -⟩ := run_cons h
      have hrest := ih (step w l move w' first start hrule hstep) hrun
      rw [List.append_assoc] at hrest
      simp only [trace, hstep]
      exact hrest

namespace Made

/-- Where the call inside `n` others was stopped, if the move is that it goes on. -/
def goesOn? (n : Nat) (made : Made) : Option Task :=
  match made.move, made.before.calls with
  | .resume, call :: outer => if outer.length = n then some call.task else none
  | _, _ => none

theorem goesOn?_of_calls {call : Call} {outer : List Call} (hcalls : w.calls = call :: outer) :
    (Made.mk w .resume events).goesOn? outer.length = some call.task := by
  unfold goesOn?
  rw [hcalls]
  exact if_pos rfl

theorem goesOn?_of_ne {call : Call} {outer : List Call} {n : Nat}
    (hcalls : w.calls = call :: outer) (hne : outer.length ≠ n) :
    (Made.mk w .resume events).goesOn? n = none := by
  unfold goesOn?
  rw [hcalls]
  exact if_neg hne

end Made

end Machine

/-! ## Scripts -/

namespace Play

open Machine

/-- The machine has the memory of the play, and its calls are stopped where the play's levels
are. -/
structure Matches (p : Play) (w : Machine) : Prop where
  memory : w.memory = p.memory
  tasks : w.calls.map Call.task = p.levels.filterMap Level.task

theorem deviceHeld_eq {calls : List Call} {levels : List Level}
    (h : calls.map Call.task = levels.filterMap Level.task) :
    deviceHeld calls = levels.any Level.holdsDevice := by
  have hcalls : deviceHeld calls = (calls.map Call.task).any Task.holdsDevice := by
    rw [List.any_map]
    rfl
  rw [hcalls, h, List.any_filterMap]
  congr 1
  funext level
  unfold Level.holdsDevice
  cases level.task <;> rfl

theorem record_matches {p q : Play} {level : Level} {outer : List Level} {outcome : Outcome}
    (h : p.record level outer outcome = .ok q) {w : Machine} (hm : w.memory = p.memory)
    (ht : w.calls.map Call.task = outer.filterMap Level.task) : q.Matches w := by
  obtain ⟨after, -, h⟩ := Fault.bind_eq_ok.mp h
  cases h
  exact ⟨hm, ht⟩

/-- A play that takes over a piece does what the machine does with it. -/
theorem follow_matches {p q : Play} {level : Level} {outer : List Level} {piece : Task.Piece}
    (h : p.follow level outer piece = .ok q) (op : Operation) {calls : List Call}
    (ht : calls.map Call.task = outer.filterMap Level.task) :
    q.Matches (Machine.follow op calls piece).1 := by
  obtain ⟨hmem, hcase⟩ := follow_calls op calls piece
  unfold Play.follow at h
  dsimp only at h
  rcases hcase with ⟨task, hnext, hcalls, -⟩ | ⟨reply, hnext, hcalls, -⟩
  · rw [hnext] at h
    dsimp only at h
    have htasks : (Machine.follow op calls piece).1.calls.map Call.task =
        task :: outer.filterMap Level.task := by
      rw [hcalls, List.map_cons, ht]
    split at h
    · cases h
      exact ⟨hmem, htasks⟩
    · cases h
      exact ⟨hmem, htasks⟩
  · rw [hnext] at h
    refine record_matches h hmem ?_
    rw [hcalls]
    exact ht

/-- Whatever a play does next, the machine does in at most one move. -/
theorem advance_matches {p q : Play} {w : Machine} (h : p.advance = .ok (some q))
    (hw : p.Matches w) :
    ∃ moves z events, w.run (fun _ _ => true) moves = some (z, events) ∧ q.Matches z := by
  have one : ∀ {move z events}, w.step move = .ok (z, events) →
      w.run (fun _ _ => true) [move] = some (z, events ++ []) := by
    intro move z events hstep
    simp only [Machine.run, if_true, hstep, Option.map_some]
  unfold advance at h
  split at h
  · cases h
  · next level outer hlevels =>
      have htasks := hw.tasks
      rw [hlevels, List.filterMap_cons] at htasks
      split at h
      · next task hlevel =>
          rw [hlevel] at htasks
          obtain ⟨p', hp', rfl⟩ := map_some_eq_ok h
          obtain ⟨piece, hpiece, hfollow⟩ := Fault.bind_eq_ok.mp hp'
          obtain ⟨call, calls, hcalls, rfl, hrest⟩ := List.map_eq_cons_iff.mp htasks
          have hstep : w.step .resume = .ok (Machine.follow call.op calls piece) := by
            simp only [step, hcalls]
            rw [deviceHeld_eq hrest, hw.memory, hpiece]
            rfl
          exact ⟨_, _, _, one hstep, follow_matches hfollow call.op hrest⟩
      · cases h
        refine ⟨[], w, [], rfl, ?_⟩
        rw [‹level.task = none›] at htasks
        unfold close
        split
        · exact ⟨hw.memory, htasks⟩
        · exact ⟨hw.memory, htasks⟩
      · next step todo hlevel _ =>
          rw [hlevel] at htasks
          obtain ⟨p', hp', rfl⟩ := map_some_eq_ok h
          cases step with
          | operate op =>
              obtain ⟨piece, hpiece, hfollow⟩ := Fault.bind_eq_ok.mp hp'
              have hstep : w.step (.start op) = .ok (Machine.follow op w.calls piece) := by
                simp only [Machine.step]
                rw [deviceHeld_eq htasks, hw.memory, hpiece]
                rfl
              exact ⟨_, _, _, one hstep, follow_matches hfollow op htasks⟩
          | probe probe =>
              obtain ⟨⟨outcome, memory⟩, hperform, hrecord⟩ := Fault.bind_eq_ok.mp hp'
              have hstep : w.step (.probe probe) = .ok ({ w with memory }, []) := by
                simp only [Machine.step]
                rw [show loans w.calls = Level.loans outer from congrArg _ htasks, hw.memory,
                  hperform]
                rfl
              exact ⟨_, _, _, one hstep, record_matches hrecord rfl htasks⟩
          | arm site skip steps =>
              exact ⟨[], w, [], rfl, record_matches hp' hw.memory htasks⟩

/-- **Every script is a run**: what a play comes to, the machine comes to by some run. -/
theorem run_matches {p q : Play} {w : Machine} (h : p.run = .ok q) (hw : p.Matches w) :
    ∃ moves z events, w.run (fun _ _ => true) moves = some (z, events) ∧ q.Matches z := by
  induction p using Play.run.induct generalizing w with
  | case1 p fault hadv =>
      rw [Play.run] at h
      split at h
      · exact nomatch h
      · next he => exact nomatch hadv.symm.trans he
      · next he => exact nomatch hadv.symm.trans he
  | case2 p hadv =>
      rw [Play.run] at h
      split at h
      · exact nomatch h
      · cases h
        exact ⟨[], w, [], rfl, hw⟩
      · next he => cases hadv.symm.trans he
  | case3 p next hadv ih =>
      rw [Play.run] at h
      split at h
      · exact nomatch h
      · next he => cases hadv.symm.trans he
      · next he =>
          cases hadv.symm.trans he
          obtain ⟨first, y, before, hfirst, hy⟩ := advance_matches hadv hw
          obtain ⟨rest, z, after, hrest, hz⟩ := ih h hy
          exact ⟨first ++ rest, z, before ++ after,
            run_append.mpr ⟨y, before, after, hfirst, hrest, rfl⟩, hz⟩

end Play

end PhysMem
