import PhysMem.Address

/-!
# Sectors and frame contents — bytes in the units that transfers move

A block device moves sectors of 512 bytes. A frame holds eight of them, and its contents are kept
as those eight, so that a transfer between a frame and a device is one assignment per sector.

* **`Sector.ofBytes?`** and **`Contents.ofBytes?`** read bytes of exactly the right number,
  **`toBytes`** gives them back.
-/

namespace PhysMem

/-- The bytes of a sector. -/
def sectorSize : Nat := 512

/-- The sectors of a frame. -/
def sectorsPerFrame : Nat := 8

/-- What one sector holds. -/
abbrev Sector := Vector UInt8 sectorSize

namespace Sector

/-- A sector of zeros. -/
def zero : Sector := Vector.replicate sectorSize 0

/-- The bytes as a sector, if there are exactly enough. -/
def ofBytes? (bytes : Array UInt8) : Option Sector :=
  if h : bytes.size = sectorSize then some ⟨bytes, h⟩ else none

end Sector

/-- What one frame holds. -/
abbrev Contents := Vector Sector sectorsPerFrame

namespace Contents

/-- A frame of zeros. -/
def zero : Contents := Vector.replicate sectorsPerFrame Sector.zero

/-- The contents whose byte `i` is `f i`. -/
def build (f : Nat → UInt8) : Contents :=
  Vector.ofFn fun i => Vector.ofFn fun j => f (i.val * sectorSize + j.val)

/-- Byte `i` of the contents, zero beyond them. -/
def byte (frame : Contents) (i : Nat) : UInt8 :=
  match frame[i / sectorSize]? with
  | some sector => sector[i % sectorSize]?.getD 0
  | none => 0

/-- The bytes of the frame, in order. -/
def toBytes (frame : Contents) : Array UInt8 := frame.toArray.flatMap Vector.toArray

/-- The bytes as the contents of a frame, if there are exactly enough. -/
def ofBytes? (bytes : Array UInt8) : Option Contents :=
  if bytes.size = Address.frameSize then some (build fun i => bytes[i]?.getD 0) else none

/-- The contents with `bytes` written over their start. -/
def overwrite (frame : Contents) (bytes : Array UInt8) : Contents :=
  build fun i => bytes[i]?.getD (frame.byte i)

end Contents

end PhysMem
