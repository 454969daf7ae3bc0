import PhysMem.Block.Error
import PhysMem.Sector

/-!
# Drives — an array of sectors that can be told to fail

A drive keeps its sectors in memory. Each direction of transfer has a switch that makes it fail,
and a limit: how many further transfers get as far as the sectors. The limit counts every transfer
the drive is asked for, and is looked at before the switch.
-/

namespace PhysMem

/-- What one direction of transfer has been told. -/
structure DriveFaults where
  /-- Every transfer fails. -/
  failing : Bool := false
  /-- How many further transfers are let through; no limit when absent. -/
  limit : Option Nat := none
  deriving DecidableEq, Repr

namespace DriveFaults

/-- Whether the next transfer fails before it reaches a sector. -/
def fails (f : DriveFaults) : Bool := f.limit == some 0 || f.failing

/-- What is left to say after a transfer was asked for. -/
def next (f : DriveFaults) : DriveFaults := { f with limit := f.limit.map (· - 1) }

end DriveFaults

/-- The two directions of transfer. -/
inductive Direction where
  | reads
  | writes
  deriving DecidableEq, Repr

/-- An array of sectors in memory. -/
structure Drive where
  sectors : Array Sector
  reads : DriveFaults := {}
  writes : DriveFaults := {}
  deriving DecidableEq, Repr

namespace Drive

/-- A drive of `n` sectors of zeros. -/
def blank (n : Nat) : Drive := { sectors := Array.replicate n Sector.zero }

/-- Tells one direction something else. -/
def tell (d : Drive) (direction : Direction) (change : DriveFaults → DriveFaults) : Drive :=
  match direction with
  | .reads => { d with reads := change d.reads }
  | .writes => { d with writes := change d.writes }

/-- Reads one sector. -/
def read (d : Drive) (sector : Nat) : Except BlockError Sector × Drive :=
  let answer :=
    if d.reads.fails then .error .readError
    else match d.sectors[sector]? with
      | some data => .ok data
      | none => .error (.sectorOutOfBounds sector)
  (answer, { d with reads := d.reads.next })

/-- Writes one sector. -/
def write (d : Drive) (sector : Nat) (data : Sector) : Except BlockError Unit × Drive :=
  let asked := { d with writes := d.writes.next }
  if d.writes.fails then (.error .writeError, asked)
  else if sector < d.sectors.size then
    (.ok (), { asked with sectors := d.sectors.setIfInBounds sector data })
  else (.error (.sectorOutOfBounds sector), asked)

end Drive

end PhysMem
