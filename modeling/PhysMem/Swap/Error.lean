import PhysMem.Block.Error
import PhysMem.Numeral

/-!
# Swap errors — why a page did not move to or from its slot

* **`SwapError`** is the answer of the swap area, **`EvictError`** that of an eviction.
* **`causes`** lists the texts of the errors behind an error, the nearest first.
-/

namespace PhysMem

/-- Why the swap area refused or failed. -/
inductive SwapError where
  | swapFull
  | invalidSlot (slot : Nat)
  | invalidFrame (frame : Nat)
  | io (cause : BlockError)
  deriving DecidableEq, Repr

namespace SwapError

/-- The text shown to people. -/
def message : SwapError → String
  | .swapFull => "no free swap slot"
  | .invalidSlot slot => s!"swap slot {slot} is out of range or not in use"
  | .invalidFrame frame => Numeral.hex frame ++ " is not a frame the swap area can transfer"
  | .io cause => "swap device I/O failed: " ++ cause.message

/-- The text shown to developers. -/
def describe : SwapError → String
  | .swapFull => "SwapFull"
  | .invalidSlot slot => s!"InvalidSlot({slot})"
  | .invalidFrame frame => s!"InvalidFrame({frame})"
  | .io cause => "Io(" ++ cause.describe ++ ")"

/-- The texts of the errors behind this one. -/
def causes : SwapError → List String
  | .io cause => [cause.message]
  | _ => []

end SwapError

/-- Why no frame was evicted. -/
inductive EvictError where
  | noVictim
  | swap (cause : SwapError)
  deriving DecidableEq, Repr

namespace EvictError

/-- The text shown to people: a swap error speaks for itself. -/
def message : EvictError → String
  | .noVictim => "no user frame to evict"
  | .swap cause => cause.message

/-- The text shown to developers. -/
def describe : EvictError → String
  | .noVictim => "NoVictim"
  | .swap cause => "Swap(" ++ cause.describe ++ ")"

/-- The texts of the errors behind this one; a swap error passes on its own. -/
def causes : EvictError → List String
  | .noVictim => []
  | .swap cause => cause.causes

end EvictError

end PhysMem
