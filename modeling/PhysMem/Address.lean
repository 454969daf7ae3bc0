import PhysMem.Fault

/-!
# Addresses — frames, bytes and the kernel's window

Physical memory is cut into frames of 4096 bytes. The kernel sees all of it through a window that
starts at `kernelBase`: physical address `a` is visible at `kernelBase + a`.
-/

namespace PhysMem.Address

/-- The bytes of a frame. -/
def frameSize : Nat := 4096

/-- Where the kernel's window on physical memory starts. -/
def kernelBase : Nat := 0x80000000

/-- The first address that is not left to the firmware. -/
def upperStart : Nat := 0x100000

/-- An address is aligned when a frame starts there. -/
def isAligned (address : Nat) : Bool := address % frameSize == 0

/-- The number of frames that hold `bytes` bytes. -/
def framesFor (bytes : Nat) : Nat := (bytes + (frameSize - 1)) / frameSize

/-- Where the kernel sees physical address `address`. -/
def toKernel (address : Nat) : Except Fault Nat := Word.add Word.bits address kernelBase

/-- The physical address the kernel sees at `address`, if that lies in the window. -/
def ofKernel? (address : Nat) : Option Nat :=
  if kernelBase ≤ address then some (address - kernelBase) else none

/-- There are enough frames. -/
theorem le_framesFor_mul (bytes : Nat) : bytes ≤ framesFor bytes * frameSize := by
  unfold framesFor frameSize
  omega

/-- There are no frames to spare. -/
theorem framesFor_mul_lt (bytes : Nat) : framesFor bytes * frameSize < bytes + frameSize := by
  unfold framesFor frameSize
  omega

/-- More bytes need no fewer frames. -/
theorem framesFor_mono {a b : Nat} (h : a ≤ b) : framesFor a ≤ framesFor b :=
  Nat.div_le_div_right (Nat.add_le_add_right h _)

theorem ofKernel?_toKernel {address seen : Nat} (h : toKernel address = .ok seen) :
    ofKernel? seen = some address := by
  rw [Word.eq_of_add h]
  simp [ofKernel?]

end PhysMem.Address
