/-!
# Interrupts — a count of those who want them off

Whoever must not be interrupted holds interrupts off for a while. The machine this runs on has no
interrupts to switch, so the level is always off and holding only counts.
-/

namespace PhysMem

/-- Whether the processor takes interrupts. -/
inductive InterruptLevel where
  | on
  | off
  deriving DecidableEq, Repr

/-- The name of the level. -/
def InterruptLevel.name : InterruptLevel → String
  | .on => "IntrOn"
  | .off => "IntrOff"

/-- How many are holding interrupts off. -/
structure Interrupts where
  holds : Nat := 0
  deriving DecidableEq, Repr

namespace Interrupts

/-- Without a processor to ask, interrupts are off. -/
def level (_ : Interrupts) : InterruptLevel := .off

/-- One more holds interrupts off. -/
def hold (i : Interrupts) : Interrupts := ⟨i.holds + 1⟩

/-- One of those who held interrupts off lets go. -/
def letGo (i : Interrupts) : Interrupts := ⟨i.holds - 1⟩

end Interrupts

end PhysMem
