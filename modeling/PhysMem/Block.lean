import PhysMem.Block.Drive
import PhysMem.Notice

/-!
# Blocks — a drive with a name, a declared size and counters

A block checks a request before its drive sees it: the sector must lie below the declared size, the
buffer must be one sector long, and a foreign block is not written. What passes is handed to the
drive, and a transfer that succeeds is counted.

* **`readRefusal?`** and **`writeRefusal?`** are the checks, **`fetch`** and **`store`** the
  transfers, **`read`** and **`write`** the two together.
-/

namespace PhysMem

/-- A block device. -/
structure Block where
  kind : BlockKind
  name : String
  /-- The declared number of sectors, which need not be that of the drive. -/
  size : Nat
  drive : Drive
  readCount : Nat := 0
  writeCount : Nat := 0
  deriving DecidableEq, Repr

namespace Block

/-- The width of a sector number and of a transfer counter. -/
def counterBits : Nat := 32

/-- What is said when the device is registered. -/
def registered (b : Block) : Notice := .blockRegistered b.name b.kind b.size

/-- What is said about a request for `sector`: a warning if there is no such sector. -/
def notices (b : Block) (sector : Nat) : List Notice :=
  if b.size ≤ sector then [.invalidSector b.name sector b.size] else []

/-- Why a read into a buffer of `length` bytes does not reach the drive. -/
def readRefusal? (b : Block) (sector length : Nat) : Option BlockError :=
  if b.size ≤ sector then some (.sectorOutOfBounds sector)
  else if length ≠ sectorSize then some (.bufferInvalid length)
  else none

/-- Why a write from a buffer of `length` bytes does not reach the drive. -/
def writeRefusal? (b : Block) (sector length : Nat) : Option BlockError :=
  match b.readRefusal? sector length with
  | some refusal => some refusal
  | none => if b.kind = .foreign then some .readOnly else none

/-- Has the drive read a sector, and counts it. -/
def fetch (b : Block) (sector : Nat) : Except Fault (Except BlockError Sector × Block) :=
  let (answer, drive) := b.drive.read sector
  match answer with
  | .ok data => do
    let readCount ← Word.add counterBits b.readCount 1
    return (.ok data, { b with drive, readCount })
  | .error e => .ok (.error e, { b with drive })

/-- Has the drive write a sector, and counts it. -/
def store (b : Block) (sector : Nat) (data : Sector) :
    Except Fault (Except BlockError Unit × Block) :=
  let (answer, drive) := b.drive.write sector data
  match answer with
  | .ok () => do
    let writeCount ← Word.add counterBits b.writeCount 1
    return (.ok (), { b with drive, writeCount })
  | .error e => .ok (.error e, { b with drive })

/-- Reads a sector into `buffer`, which is answered as it is afterwards. -/
def read (b : Block) (sector : Nat) (buffer : Array UInt8) :
    Except Fault (Except BlockError Unit × Array UInt8 × Block) :=
  match b.readRefusal? sector buffer.size with
  | some refusal => .ok (.error refusal, buffer, b)
  | none => do
    let (answer, b) ← b.fetch sector
    match answer with
    | .ok data => return (.ok (), data.toArray, b)
    | .error e => return (.error e, buffer, b)

/-- Writes a sector from `buffer`. -/
def write (b : Block) (sector : Nat) (buffer : Array UInt8) :
    Except Fault (Except BlockError Unit × Block) :=
  match b.writeRefusal? sector buffer.size, Sector.ofBytes? buffer with
  | some refusal, _ => .ok (.error refusal, b)
  | none, some data => b.store sector data
  | none, none => .ok (.error (.bufferInvalid buffer.size), b)

/-- One line about the device and its counters. -/
def describe (b : Block) : String :=
  "\"" ++ b.name ++ "\" (" ++ b.kind.name ++ "): " ++ Numeral.padded 4 b.size ++ " sectors, " ++
    Numeral.padded 4 b.readCount ++ " read, " ++ Numeral.padded 4 b.writeCount ++ " write"

end Block

end PhysMem
