import PhysMem.Memory.Probe
import PhysMem.Memory.Task

/-!
# Scripts — steps, and steps inside the call-outs of steps

A script drives the memory system step by step. A step can arm a hook: the next call-out at a site,
or a later one, then runs the hook's own steps before the interrupted operation goes on. A hook
runs once, and its steps are ordinary, so operations nest to any depth.

* **`Step`** and **`Hook`** are what is to be done, **`Report`** is what came of it.
* **`Hook.trigger`** says which hook a call-out runs.
-/

namespace PhysMem

/-- A step of a script. -/
inductive Step where
  | operate (op : Operation)
  | probe (probe : Probe)
  /-- Arms a hook: once `skip` call-outs have passed at `site`, the next one runs `steps`. It takes
  the place of a hook that is armed there already. -/
  | arm (site : Site) (skip : Nat) (steps : List Step)

mutual

/-- How much a step can set going. -/
def Step.size : Step → Nat
  | .operate _ => 1
  | .probe _ => 1
  | .arm _ _ steps => Step.sizes steps + 3

/-- How much some steps can set going. -/
def Step.sizes : List Step → Nat
  | [] => 0
  | step :: rest => step.size + Step.sizes rest

end

/-- Steps that wait for a call-out. -/
structure Hook where
  site : Site
  /-- How many call-outs pass before the one that runs the steps. -/
  skip : Nat
  steps : List Step

namespace Hook

/-- Arms a hook in place of the one at its site. -/
def arm (hooks : List Hook) (hook : Hook) : List Hook :=
  hook :: hooks.filter fun other => other.site != hook.site

/-- What a call-out at `site` runs, and the hooks that are left. -/
def trigger (site : Site) : List Hook → Option (List Step) × List Hook
  | [] => (none, [])
  | hook :: rest =>
    if hook.site = site then
      match hook.skip with
      | 0 => (some hook.steps, rest)
      | skip + 1 => (none, { hook with skip } :: rest)
    else
      let (steps, rest) := trigger site rest
      (steps, hook :: rest)

/-- How much the hooks can set going. -/
def weight : List Hook → Nat
  | [] => 0
  | hook :: rest => Step.sizes hook.steps + 2 + weight rest

end Hook

/-- The figures and the soundness of a memory system at one moment. -/
structure Snapshot where
  stats : Memory.Stats
  flaw : Option Coremap.Flaw
  deriving DecidableEq, Repr

/-- The memory system as it is now. -/
def Memory.snapshot (m : Memory) : Except Fault Snapshot := do
  let stats ← m.stats
  return ⟨stats, m.coremap.flaw?⟩

/-- What a step answered, and the memory system right after it. -/
structure StepResult where
  outcome : Outcome
  after : Snapshot
  deriving DecidableEq, Repr

/-- The steps that a call-out ran. -/
structure HookReport where
  site : Site
  results : List StepResult
  deriving DecidableEq, Repr

/-- What some steps did. -/
structure Report where
  results : List StepResult
  notices : List Notice
  /-- The evictions the pager was told of. -/
  told : List (Page × Nat)
  hooks : List HookReport
  deriving DecidableEq, Repr

end PhysMem
