import PhysMem.Block.Kind
import PhysMem.Config
import PhysMem.Frame.Error
import PhysMem.Frame.Owner

/-!
# Notices — what the memory system says about its work

A notice is an event worth a line in the kernel's log. The functions that do the work answer with
the notices they give rise to, in order; which of them are written is up to the logger.

* **`Notice.entry`** is the line of a notice: its level, the part of the system that speaks, a text.
* **`Logger.line?`** writes a line if its level is enabled.
-/

namespace PhysMem

/-- How grave a log line is. -/
inductive LogLevel where
  | error
  | warn
  | info
  | debug
  | trace
  deriving DecidableEq, Repr

namespace LogLevel

/-- Grave levels come first. -/
def rank : LogLevel → Nat
  | .error => 1
  | .warn => 2
  | .info => 3
  | .debug => 4
  | .trace => 5

/-- The name of the level in a log line. -/
def name : LogLevel → String
  | .error => "ERROR"
  | .warn => "WARN"
  | .info => "INFO"
  | .debug => "DEBUG"
  | .trace => "TRACE"

end LogLevel

/-- A line for the log, before it is known whether it is written. -/
structure LogEntry where
  level : LogLevel
  target : String
  text : String
  deriving DecidableEq, Repr

/-- A logger that writes lines up to a level, or none at all. -/
structure Logger where
  upTo : Option LogLevel
  deriving DecidableEq, Repr

namespace Logger

/-- Whether lines of this level are written. -/
def enabled (l : Logger) (level : LogLevel) : Bool :=
  match l.upTo with
  | some most => level.rank ≤ most.rank
  | none => false

/-- The line as it is written, or nothing if its level is not enabled. -/
def line? (l : Logger) (e : LogEntry) : Option String :=
  if l.enabled e.level then
    some ("[" ++ e.level.name ++ "] " ++ e.target ++ ": " ++ e.text ++ "\n")
  else none

end Logger

/-- An event worth a log line. -/
inductive Notice where
  | blockRegistered (name : String) (kind : BlockKind) (sectors : Nat)
  | invalidSector (name : String) (sector size : Nat)
  | noRoomForSlot (name : String)
  | swapReady (slots : Nat) (name : String) (firstSector : Nat)
  | tableReady (frames base stop descriptorBytes descriptorBase : Nat)
  | memoryReady (frames slots : Nat) (policy : PlacementPolicy)
  | allocated (count : Nat) (kind : FrameKind) (address : Nat)
  | freed (count address : Nat)
  | freeDeferred (address : Nat)
  | cannotEvict (address : Nat) (cause : SwapError)
  | cannotWrite (address slot : Nat) (cause : SwapError)
  | victimFreed (frame : Nat)
  | evicted (frame address : Nat) (page : Page) (slot : Nat)
  | evictedReleased (frame address : Nat) (page : Page)
  | cannotRead (slot address : Nat) (cause : SwapError)
  | cannotScrub (slot : Nat) (cause : SwapError)
  | restored (slot address : Nat)
  | broughtBack (slot address : Nat) (page : Page)
  | tornDown (frames slots space : Nat)
  deriving DecidableEq, Repr

namespace Notice

/-- How grave the notice is. -/
def level : Notice → LogLevel
  | .blockRegistered .. | .swapReady .. | .tableReady .. | .memoryReady .. => .info
  | .invalidSector .. | .noRoomForSlot .. | .cannotEvict .. | .cannotWrite .. | .cannotRead ..
  | .cannotScrub .. => .warn
  | .allocated .. | .freed .. => .trace
  | .freeDeferred .. | .victimFreed .. | .evicted .. | .evictedReleased .. | .restored ..
  | .broughtBack .. | .tornDown .. => .debug

/-- The part of the system that speaks. -/
def target : Notice → String
  | .blockRegistered .. | .invalidSector .. => "swapcore::block::block_core"
  | .noRoomForSlot .. => "swapcore::swapping::swap_device"
  | .swapReady .. => "swapcore::swapping"
  | .tableReady .. => "swapcore::mem::frame_table"
  | _ => "swapcore::mem::frame_allocator"

/-- What the notice says. -/
def text : Notice → String
  | .blockRegistered name kind sectors =>
    s!"Registered block device \"{name}\" ({kind.name} type) with {sectors} sectors"
  | .invalidSector name sector size => s!"{name}: Invalid sector {sector} (block size: {size})"
  | .noRoomForSlot name => s!"swap device {name} has no room for a single slot"
  | .swapReady slots name firstSector =>
    s!"swap: {slots} slots on {name}, starting at sector {firstSector}"
  | .tableReady frames base stop descriptorBytes descriptorBase =>
    s!"coremap: {frames} frames at {Numeral.hex base}..{Numeral.hex stop}, " ++
      s!"{descriptorBytes} descriptor bytes at {Numeral.hex descriptorBase}"
  | .memoryReady frames slots policy =>
    s!"memory: {frames} frames, {slots} swap slots, {policy.name} placement"
  | .allocated count kind address =>
    s!"allocated {count} {kind.name} frame(s) at {Numeral.hex address}"
  | .freed count address => s!"freed {count} frame(s) at {Numeral.hex address}"
  | .freeDeferred address =>
    s!"frame {Numeral.hex address} freed while in transit, release deferred"
  | .cannotEvict address cause => s!"cannot evict frame {Numeral.hex address}: {cause.message}"
  | .cannotWrite address slot cause =>
    s!"cannot write frame {Numeral.hex address} to swap slot {slot}: {cause.message}"
  | .victimFreed frame => s!"frame #{frame} was freed by its owner during a failed eviction"
  | .evicted frame address page slot =>
    s!"evicted frame #{frame} ({Numeral.hex address}) of {page.describe} to swap slot {slot}"
  | .evictedReleased frame address page =>
    s!"evicted frame #{frame} ({Numeral.hex address}) of released {page.describe}"
  | .cannotRead slot address cause =>
    s!"cannot read swap slot {slot} into {Numeral.hex address}: {cause.message}"
  | .cannotScrub slot cause => s!"cannot scrub swap slot {slot}: {cause.message}"
  | .restored slot address => s!"restored swap slot {slot} into {Numeral.hex address}"
  | .broughtBack slot address page =>
    s!"restored swap slot {slot} into {Numeral.hex address} for {page.describe}"
  | .tornDown frames slots space =>
    s!"released {frames} frame(s) and {slots} swap slot(s) of {Page.describeSpace space}"

/-- The line of the notice. -/
def entry (n : Notice) : LogEntry := ⟨n.level, n.target, n.text⟩

end Notice

/-- The lines a logger writes for these notices. -/
def Logger.lines (l : Logger) (notices : List Notice) : List String :=
  notices.filterMap fun n => l.line? n.entry

end PhysMem
