import PhysMem.Memory

/-!
# Kernel — one logger and one memory system

The kernel has at most one logger and at most one memory system. The first logger keeps the output
for good, also if the boot that brought it fails; before there is one, nothing is written. A second
memory system is a fault.

* **`Kernel.boot`** installs a logger and a memory system, **`Kernel.bringUp`** only the latter.
* **`Kernel.memory`** is the memory system, a fault before there is one.
-/

namespace PhysMem

/-- What the kernel has installed. -/
structure Kernel where
  logger : Option Logger := none
  memory? : Option Memory := none
  deriving DecidableEq, Repr

namespace Kernel

/-- The memory system, which must have been installed. -/
def memory (k : Kernel) : Except Fault Memory :=
  match k.memory? with
  | some m => .ok m
  | none => .error .notInitialized

/-- The kernel with its memory system changed. -/
def putMemory (k : Kernel) (m : Memory) : Kernel := { k with memory? := some m }

/-- Installs a memory system, of which there is to be one only. -/
def install (k : Kernel) (m : Memory) : Except Fault Kernel :=
  match k.memory? with
  | some _ => .error .installedTwice
  | none => .ok (k.putMemory m)

/-- Sends the log to a logger, unless one has it already. -/
def listen (k : Kernel) (logger : Logger) : Kernel :=
  { k with logger := some (k.logger.getD logger) }

/-- The lines that are written for these notices. -/
def lines (k : Kernel) (notices : List Notice) : List String :=
  match k.logger with
  | some logger => logger.lines notices
  | none => []

/-- Builds a memory system over a block and installs it. Answers how many frames it has and what is
written meanwhile. -/
def bringUp (k : Kernel) (config : MemoryConfig) (block : Block) :
    Except Fault (Except FrameError Nat × List String × Kernel) := do
  match ← Memory.bootstrap config block with
  | .error e => return (.error e, [], k)
  | .ok (m, notices) =>
    let k ← k.install m
    return (.ok m.coremap.size, k.lines notices, k)

/-- Brings up a memory system whose log goes to `logger`. -/
def boot (k : Kernel) (logger : Logger) (config : MemoryConfig) (block : Block) :
    Except Fault (Except FrameError Nat × List String × Kernel) :=
  (k.listen logger).bringUp config block

end Kernel

end PhysMem
