import PhysMem.Memory.Rank
import PhysMem.Script

/-!
# Play — running a script to its end

Operations that are stopped at a call-out form a stack: each waits for the steps that its call-out
runs. A play holds that stack, one level for each run of steps.

* **`Play.advance`** does one thing: it goes on with the innermost operation, takes its level's next
  step, or closes the level.
* **`Play.run`** repeats that until nothing is left. It ends because `Play.weight` falls
  (**`advance_weight`**).
* **`Session.play`** runs steps from the outside and reports what they did.
-/

namespace PhysMem

/-- A run of steps: the script's own, or those of a hook. -/
structure Level where
  /-- The call-out that runs the steps. -/
  site : Option Site
  todo : List Step
  /-- The operation that the current step is stopped in. -/
  task : Option Task := none
  done : List StepResult := []

/-- Whether the level's operation holds the swap device. -/
def Level.holdsDevice (l : Level) : Bool :=
  match l.task with
  | some task => task.holdsDevice
  | none => false

/-- The frames that the operations of some levels have lent to the swap device. -/
def Level.loans (levels : List Level) : List Task.Loan :=
  (levels.filterMap Level.task).filterMap Task.loan?

/-- The rank of the level's operation. -/
def Level.rank (l : Level) : Nat :=
  match l.task with
  | some task => task.rank
  | none => 0

/-- How much some levels can still do: a step counts for more than the rank of its operation. -/
def Level.weight : List Level → Nat
  | [] => 0
  | level :: outer => (Task.maxRank + 1) * (Step.sizes level.todo + 1) + level.rank + weight outer

/-- Steps being run, level inside level. -/
structure Play where
  memory : Memory
  hooks : List Hook
  /-- The levels that are open, the innermost first. -/
  levels : List Level
  notices : List Notice := []
  /-- What hooks did, in the order they came to an end. -/
  reports : List HookReport := []
  /-- What the script's own steps answered, once they are over. -/
  results : List StepResult := []

namespace Play

/-- Records what the step of a level answered. -/
def record (p : Play) (level : Level) (outer : List Level) (outcome : Outcome) :
    Except Fault Play := do
  let after ← p.memory.snapshot
  let level := { level with task := none, done := level.done ++ [⟨outcome, after⟩] }
  return { p with levels := level :: outer }

/-- Takes over a piece of a level's operation. At a call-out the hook there may open a new level. -/
def follow (p : Play) (level : Level) (outer : List Level) (piece : Task.Piece) :
    Except Fault Play :=
  let p := { p with memory := piece.memory, notices := p.notices ++ piece.notices }
  match piece.next with
  | .reply reply => p.record level outer (.reply reply)
  | .callOut task =>
    let level := { level with task := some task }
    let (steps, hooks) := Hook.trigger task.site p.hooks
    match steps with
    | none => .ok { p with hooks, levels := level :: outer }
    | some todo =>
      let inner : Level := { site := some task.site, todo }
      .ok { p with hooks, levels := inner :: level :: outer }

/-- Closes a level that has no steps left. -/
def close (p : Play) (level : Level) (outer : List Level) : Play :=
  match level.site with
  | some site =>
    { p with levels := outer, reports := p.reports ++ [⟨site, level.done⟩] }
  | none => { p with levels := outer, results := p.results ++ level.done }

/-- Takes the next step of a level. -/
def begin (p : Play) (level : Level) (outer : List Level) : Step → Except Fault Play
  | .operate op => do
    let piece ← Task.start (outer.any Level.holdsDevice) p.memory op
    p.follow level outer piece
  | .probe probe => do
    let (outcome, memory) ← probe.perform (Level.loans outer) p.memory
    record { p with memory } level outer outcome
  | .arm site skip steps =>
    record { p with hooks := Hook.arm p.hooks ⟨site, skip, steps⟩ } level outer .done

/-- Goes on with the operation that a level is stopped in. -/
def resume (p : Play) (level : Level) (outer : List Level) (task : Task) : Except Fault Play := do
  let piece ← Task.resume (outer.any Level.holdsDevice) p.memory task
  p.follow level outer piece

/-- Does one thing, or nothing if no level is open. -/
def advance (p : Play) : Except Fault (Option Play) :=
  match p.levels with
  | [] => .ok none
  | level :: outer =>
    match level.task, level.todo with
    | some task, _ => (p.resume level outer task).map some
    | none, [] => .ok (some (p.close level outer))
    | none, step :: todo => (p.begin { level with todo } outer step).map some

/-! ## Every play ends -/

/-- How much a play can still do. -/
def weight (p : Play) : Nat := (Task.maxRank + 1) * Hook.weight p.hooks + Level.weight p.levels

theorem weight_arm (hooks : List Hook) (hook : Hook) :
    Hook.weight (Hook.arm hooks hook) ≤ Hook.weight hooks + Step.sizes hook.steps + 2 := by
  suffices Hook.weight (hooks.filter fun other => other.site != hook.site) ≤ Hook.weight hooks by
    simp only [Hook.arm, Hook.weight] at this ⊢
    omega
  induction hooks with
  | nil => exact Nat.le_refl _
  | cons other rest ih =>
    simp only [List.filter_cons]
    split
    · simpa only [Hook.weight, Nat.add_le_add_iff_left] using ih
    · simp only [Hook.weight] at ih ⊢
      omega

theorem weight_trigger (site : Site) (hooks : List Hook) :
    Hook.weight (Hook.trigger site hooks).2 +
        (Hook.trigger site hooks).1.elim 0 (Step.sizes · + 2) = Hook.weight hooks := by
  induction hooks with
  | nil => rfl
  | cons hook rest ih =>
    simp only [Hook.trigger]
    split
    · split
      · simp only [Hook.weight, Option.elim_some]
        omega
      · simp [Hook.weight]
    · simp only [Hook.weight] at ih ⊢
      omega

theorem weight_cons {p : Play} {level : Level} {outer : List Level}
    (h : p.levels = level :: outer) :
    p.weight = 29 * Hook.weight p.hooks +
      (29 * (Step.sizes level.todo + 1) + level.rank + Level.weight outer) := by
  simp only [weight, h, Level.weight, Task.maxRank]

theorem record_weight {p q : Play} {level : Level} {outer : List Level} {outcome : Outcome}
    (h : p.record level outer outcome = .ok q) :
    q.weight = 29 * Hook.weight p.hooks +
      (29 * (Step.sizes level.todo + 1) + Level.weight outer) := by
  obtain ⟨after, _, h⟩ := Fault.bind_eq_ok.mp h
  cases h
  rw [weight_cons rfl, Level.rank, Nat.add_zero]

theorem follow_weight {p q : Play} {level : Level} {outer : List Level} {piece : Task.Piece}
    (h : p.follow level outer piece = .ok q) :
    q.weight ≤ 29 * Hook.weight p.hooks +
      (29 * (Step.sizes level.todo + 1) + piece.next.rank + Level.weight outer) := by
  unfold follow at h
  dsimp only at h
  split at h
  · rw [record_weight h]
    dsimp only
    omega
  · next task hnext =>
    have hw := weight_trigger task.site p.hooks
    split at h
    · next hsteps =>
      cases h
      rw [hsteps, Option.elim_none] at hw
      rw [weight_cons rfl, hnext]
      simp only [Level.rank, Task.Next.rank]
      omega
    · next todo hsteps =>
      cases h
      rw [hsteps, Option.elim_some] at hw
      rw [weight_cons rfl, hnext]
      simp only [Level.rank, Level.weight, Task.Next.rank, Task.maxRank]
      omega

theorem begin_weight {p q : Play} {level : Level} {outer : List Level} {step : Step}
    (h : p.begin level outer step = .ok q) :
    q.weight < 29 * Hook.weight p.hooks +
      (29 * (Step.sizes level.todo + step.size + 1) + Level.weight outer) := by
  cases step with
  | operate op =>
    obtain ⟨piece, hpiece, h⟩ := Fault.bind_eq_ok.mp h
    have hr : piece.next.rank ≤ 28 := Task.start_rank _ _ op piece hpiece
    have hf := follow_weight h
    rw [Step.size]
    omega
  | probe probe =>
    obtain ⟨⟨outcome, memory⟩, _, h⟩ := Fault.bind_eq_ok.mp h
    rw [record_weight h, Step.size]
    dsimp only
    omega
  | arm site skip steps =>
    have ha := weight_arm p.hooks ⟨site, skip, steps⟩
    rw [record_weight h, Step.size]
    dsimp only at ha ⊢
    omega

theorem map_some_eq_ok {x : Except Fault Play} {q : Play} (h : x.map some = .ok (some q)) :
    ∃ p, x = .ok p ∧ p = q := by
  cases x with
  | error fault => cases h
  | ok p => cases h; exact ⟨q, rfl, rfl⟩

theorem advance_weight {p q : Play} (h : p.advance = .ok (some q)) : q.weight < p.weight := by
  unfold advance at h
  split at h
  · cases h
  · next level outer hlevels =>
    rw [weight_cons hlevels]
    split at h
    · next task htask =>
      obtain ⟨p', hp', rfl⟩ := map_some_eq_ok h
      obtain ⟨piece, hpiece, hp'⟩ := Fault.bind_eq_ok.mp hp'
      have hr := Task.resume_rank _ _ task hpiece
      have hf := follow_weight hp'
      simp only [Level.rank, htask]
      omega
    · cases h
      unfold close
      split <;> simp only [weight, Task.maxRank] <;> omega
    · next step todo htask htodo =>
      obtain ⟨p', hp', rfl⟩ := map_some_eq_ok h
      have hb := begin_weight hp'
      simp only [Level.rank, htask, htodo, Step.sizes]
      dsimp only at hb
      omega

/-- Runs until no level is open. -/
def run (p : Play) : Except Fault Play :=
  match _ : p.advance with
  | .error fault => .error fault
  | .ok none => .ok p
  | .ok (some q) => q.run
termination_by p.weight
decreasing_by exact advance_weight ‹_›

end Play

/-! ## From outside -/

/-- A memory system and the hooks that are armed in it. -/
structure Session where
  memory : Memory
  hooks : List Hook := []

/-- Runs some steps. -/
def Session.play (s : Session) (steps : List Step) : Except Fault (Report × Session) := do
  let script : Level := { site := none, todo := steps }
  let p ← Play.run { memory := s.memory, hooks := s.hooks, levels := [script] }
  let told := p.memory.pager.told.drop s.memory.pager.told.length
  return (⟨p.results, p.notices, told, p.reports⟩, ⟨p.memory, p.hooks⟩)

end PhysMem
