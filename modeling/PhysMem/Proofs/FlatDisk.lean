import PhysMem.Proofs.SlotTransfers

/-!
# Flat disks — the sectors of a drive as bytes behind each other

A driver in front of memory has no sectors. It has bytes, and finds a sector by its place among them:
sector `n` begins at byte `n * 512`, and it is on the disk if the byte behind its last one is still
within them. Both bounds are words, and a sector number of 32 bits keeps them exact.

* **`FlatDisk.transfer`** is such a driver, **`Drive.flat`** the bytes of a drive.
* **`flat_extract`** and **`flat_set`** — the bytes between the bounds are those of the sector, to be
  read and to be written. Both are inductions over the sectors in front.
* **`flat_read`** and **`flat_write`** — driver and drive do the same.
-/

namespace PhysMem

/-- What a drive answers when it was told to fail. -/
def Direction.error : Direction → BlockError
  | .reads => .readError
  | .writes => .writeError

/-- A disk as bytes in memory, with a switch for each direction that makes it fail. -/
structure FlatDisk where
  data : Array UInt8
  readsFail : Bool := false
  writesFail : Bool := false
  deriving DecidableEq, Repr

namespace FlatDisk

/-- Whether transfers in the direction fail. -/
def fails (disk : FlatDisk) : Direction → Bool
  | .reads => disk.readsFail
  | .writes => disk.writesFail

/-- The bounds of a sector among the bytes. -/
def sectorRange (disk : FlatDisk) (sector : Nat) :
    Except Fault (Except BlockError (Nat × Nat)) := do
  let start ← Word.mul Word.bits sector sectorSize
  let stop ← Word.add Word.bits start sectorSize
  if disk.data.size < stop then return .error (.sectorOutOfBounds sector)
  return .ok (start, stop)

/-- The disk with `bytes` from `start` on, in place of those up to `stop`. -/
def overwrite (disk : FlatDisk) (start stop : Nat) (bytes : Array UInt8) : FlatDisk :=
  { disk with data := disk.data.extract 0 start ++ bytes ++ disk.data.extract stop disk.data.size }

/-- Copies the bytes between the bounds to the buffer, or the buffer to between the bounds. -/
def copy (disk : FlatDisk) (direction : Direction) (start stop : Nat) (buffer : Array UInt8) :
    Array UInt8 × FlatDisk :=
  match direction with
  | .reads => (disk.data.extract start stop, disk)
  | .writes => (buffer, disk.overwrite start stop buffer)

/-- Moves a sector to the buffer or from it. The buffer is answered as it is afterwards. -/
def transfer (disk : FlatDisk) (direction : Direction) (sector : Nat) (buffer : Array UInt8) :
    Except Fault (Except BlockError Unit × Array UInt8 × FlatDisk) := do
  if disk.fails direction then return (.error direction.error, buffer, disk)
  match ← disk.sectorRange sector with
  | .error e => return (.error e, buffer, disk)
  | .ok (start, stop) => return (.ok (), disk.copy direction start stop buffer)

variable {disk : FlatDisk} {direction : Direction} {sector : Nat} {buffer : Array UInt8}

/-- Only the bytes between the bounds are others. -/
theorem getElem?_overwrite {start stop : Nat} {bytes : Array UInt8}
    (hbytes : start + bytes.size = stop) (hstop : stop ≤ disk.data.size) (i : Nat) :
    (disk.overwrite start stop bytes).data[i]? =
      if start ≤ i ∧ i < stop then bytes[i - start]? else disk.data[i]? := by
  have hfront : (disk.data.extract 0 start).size = start := by
    rw [Array.size_extract]
    omega
  show (disk.data.extract 0 start ++ bytes ++ disk.data.extract stop disk.data.size)[i]? = _
  rw [Array.append_assoc, Array.getElem?_append, hfront, Array.getElem?_append,
    Array.getElem?_extract, Array.getElem?_extract]
  split
  · next hi => rw [if_pos (by omega), if_neg (by omega), Nat.zero_add]
  · next hi =>
      split
      · next hin => rw [if_pos (by omega)]
      · next hbehind =>
          have hplace : stop + (i - start - bytes.size) = i := by omega
          rw [if_neg (by omega : ¬ (start ≤ i ∧ i < stop)), hplace]
          split
          · rfl
          · rw [Array.getElem?_eq_none (by omega)]

/-- The bounds of a sector whose number is a word of 32 bits are exact. -/
theorem sectorRange_eq (hsector : sector < Word.span Block.counterBits) :
    disk.sectorRange sector =
      if disk.data.size < sector * sectorSize + sectorSize then
        .ok (.error (.sectorOutOfBounds sector))
      else .ok (.ok (sector * sectorSize, sector * sectorSize + sectorSize)) := by
  have hword : Word.span Block.counterBits * sectorSize + sectorSize < Word.span Word.bits := by
    decide
  have hstart : sector * sectorSize ≤ Word.span Block.counterBits * sectorSize :=
    Nat.mul_le_mul_right _ (Nat.le_of_lt hsector)
  have hmul : Word.mul Word.bits sector sectorSize = .ok (sector * sectorSize) :=
    Word.mul_eq_ok (by omega)
  have hadd : Word.add Word.bits (sector * sectorSize) sectorSize =
      .ok (sector * sectorSize + sectorSize) := Word.add_eq_ok (by omega)
  split
  · next h => exact Fault.bind_eq_ok.mpr ⟨_, hmul, Fault.bind_eq_ok.mpr ⟨_, hadd, if_pos h⟩⟩
  · next h => exact Fault.bind_eq_ok.mpr ⟨_, hmul, Fault.bind_eq_ok.mpr ⟨_, hadd, if_neg h⟩⟩

theorem transfer_of_fails (h : disk.fails direction = true) :
    disk.transfer direction sector buffer = .ok (.error direction.error, buffer, disk) := by
  rw [transfer, if_pos h]
  rfl

theorem transfer_of_size_le (hfails : disk.fails direction = false)
    (hsector : sector < Word.span Block.counterBits)
    (h : disk.data.size < sector * sectorSize + sectorSize) :
    disk.transfer direction sector buffer =
      .ok (.error (.sectorOutOfBounds sector), buffer, disk) := by
  rw [transfer, if_neg (Bool.eq_false_iff.mp hfails), sectorRange_eq hsector, if_pos h]
  rfl

theorem transfer_eq (hfails : disk.fails direction = false)
    (hsector : sector < Word.span Block.counterBits)
    (h : sector * sectorSize + sectorSize ≤ disk.data.size) :
    disk.transfer direction sector buffer = .ok (.ok (),
      disk.copy direction (sector * sectorSize) (sector * sectorSize + sectorSize) buffer) := by
  rw [transfer, if_neg (Bool.eq_false_iff.mp hfails), sectorRange_eq hsector,
    if_neg (Nat.not_lt.mpr h)]
  rfl

end FlatDisk

/-! ## The bytes of sectors behind each other -/

namespace Sector

variable {sectors : List Sector} {n : Nat}

/-- The bytes of some sectors, one behind the other. -/
def bytes (sectors : List Sector) : List UInt8 := sectors.flatMap Vector.toList

@[simp] theorem bytes_cons (s : Sector) (sectors : List Sector) :
    bytes (s :: sectors) = s.toList ++ bytes sectors := List.flatMap_cons

theorem bytes_append (sectors sectors' : List Sector) :
    bytes (sectors ++ sectors') = bytes sectors ++ bytes sectors' := List.flatMap_append

@[simp] theorem length_bytes (sectors : List Sector) :
    (bytes sectors).length = sectors.length * sectorSize := by
  induction sectors with
  | nil => simp [bytes]
  | cons s sectors ih =>
      rw [bytes_cons, List.length_append, ih, Vector.length_toList, List.length_cons, Nat.succ_mul,
        Nat.add_comm]

/-- The bytes from a bound between two sectors on are those of the sectors from there on. -/
theorem drop_bytes (sectors : List Sector) (n : Nat) :
    (bytes sectors).drop (n * sectorSize) = bytes (sectors.drop n) := by
  induction n generalizing sectors with
  | zero => simp
  | succ n ih =>
      cases sectors with
      | nil => simp [bytes]
      | cons s sectors =>
          rw [bytes_cons, List.drop_succ_cons, ← ih, Nat.succ_mul, Nat.add_comm,
            ← List.drop_drop, List.drop_left' s.length_toList]

/-- The bytes up to a bound between two sectors are those of the sectors up to there. -/
theorem take_bytes (sectors : List Sector) (n : Nat) :
    (bytes sectors).take (n * sectorSize) = bytes (sectors.take n) := by
  induction n generalizing sectors with
  | zero => simp [bytes]
  | succ n ih =>
      cases sectors with
      | nil => simp [bytes]
      | cons s sectors =>
          rw [bytes_cons, List.take_succ_cons, bytes_cons, ← ih, Nat.succ_mul, Nat.add_comm,
            List.take_append, Vector.length_toList, Nat.add_sub_cancel_left,
            List.take_of_length_le (by rw [Vector.length_toList]; exact Nat.le_add_right _ _)]

end Sector

namespace Drive

open Sector

variable {d : Drive} {sector : Nat} {data : Sector} {buffer : Array UInt8}

/-- The bytes of the drive, and its two switches. -/
def flat (d : Drive) : FlatDisk where
  data := (bytes d.sectors.toList).toArray
  readsFail := d.reads.failing
  writesFail := d.writes.failing

theorem flat_size (d : Drive) : d.flat.data.size = d.sectors.size * sectorSize := by
  show (bytes d.sectors.toList).toArray.size = _
  rw [List.size_toArray, length_bytes, Array.length_toList]

/-- A sector lies within the bytes exactly when the drive has it. -/
theorem flat_size_lt_iff : d.flat.data.size < sector * sectorSize + sectorSize ↔
    d.sectors.size ≤ sector := by
  rw [flat_size, ← Nat.succ_mul, Nat.mul_lt_mul_right (by decide), Nat.lt_succ_iff]

/-- The bytes between the bounds of a sector are the bytes of the sector. -/
theorem flat_extract (h : sector < d.sectors.size) :
    d.flat.data.extract (sector * sectorSize) (sector * sectorSize + sectorSize) =
      d.sectors[sector].toArray := by
  refine Array.toList_inj.mp ?_
  show ((bytes d.sectors.toList).toArray.extract _ _).toList = _
  rw [List.extract_toArray, List.extract_eq_take_drop, Nat.add_sub_cancel_left, drop_bytes,
    List.drop_eq_getElem_cons (by simpa using h), bytes_cons,
    List.take_left' Vector.length_toList]
  rfl

/-- Bytes that are written between the bounds of a sector replace the sector. -/
theorem flat_set (h : sector < d.sectors.size) :
    d.flat.overwrite (sector * sectorSize) (sector * sectorSize + sectorSize) data.toArray =
      flat { d with sectors := d.sectors.setIfInBounds sector data } := by
  have hset : bytes (d.sectors.setIfInBounds sector data).toList =
      bytes (d.sectors.toList.take sector) ++ data.toList ++
        bytes (d.sectors.toList.drop (sector + 1)) := by
    rw [Array.toList_setIfInBounds, List.set_eq_take_append_cons_drop,
      if_pos (by simpa using h), bytes_append, bytes_cons, List.append_assoc]
  have hdata : (d.flat.overwrite (sector * sectorSize) (sector * sectorSize + sectorSize)
      data.toArray).data = (bytes (d.sectors.setIfInBounds sector data).toList).toArray := by
    refine Array.toList_inj.mp ?_
    rw [hset, ← take_bytes, ← drop_bytes, Nat.succ_mul]
    show (d.flat.data.extract 0 _ ++ data.toArray ++ d.flat.data.extract _ _).toList = _
    rw [Array.toList_append, Array.toList_append, Array.toList_extract, Array.toList_extract,
      List.extract_eq_take_drop, List.extract_eq_take_drop, Nat.sub_zero, List.drop_zero,
      List.take_of_length_le (i := d.flat.data.size - _) (Nat.le_of_eq List.length_drop)]
    rfl
  show FlatDisk.mk (d.flat.overwrite _ _ data.toArray).data _ _ = FlatDisk.mk _ _ _
  rw [hdata]
  rfl

/-! ## Driver and drive -/

/-- No transfer is let through only for a while. -/
def Unlimited (d : Drive) : Prop := ∀ direction, (d.told direction).limit = none

/-- Why a drive without limits does not transfer a sector. The switch is looked at first. -/
def refusal? (d : Drive) (direction : Direction) (sector : Nat) : Option BlockError :=
  if (d.told direction).failing then some direction.error
  else if d.sectors.size ≤ sector then some (.sectorOutOfBounds sector)
  else none

variable {direction : Direction} {e : BlockError}

theorem refusal?_of_failing (h : (d.told direction).failing = true) :
    d.refusal? direction sector = some direction.error := if_pos h

theorem refusal?_of_working (h : (d.told direction).failing = false) :
    d.refusal? direction sector =
      if d.sectors.size ≤ sector then some (.sectorOutOfBounds sector) else none :=
  if_neg (Bool.eq_false_iff.mp h)

/-- A sector is transferred if the switch is off and the sector is there. -/
theorem refusal?_eq_none : d.refusal? direction sector = none ↔
    (d.told direction).failing = false ∧ sector < d.sectors.size := by
  cases h : (d.told direction).failing with
  | true => simp [refusal?_of_failing h]
  | false => simp [refusal?_of_working h]

theorem Unlimited.fails_eq (hd : d.Unlimited) (direction : Direction) :
    (d.told direction).fails = (d.told direction).failing := by
  rw [DriveFaults.fails, hd direction]
  rfl

/-- What the drive was told does not change as it is asked for transfers. -/
theorem Unlimited.next_eq (hd : d.Unlimited) (direction : Direction) :
    (d.told direction).next = d.told direction := by
  have hlimit := hd direction
  cases htold : d.told direction with
  | mk failing limit =>
      rw [htold] at hlimit
      cases hlimit
      rfl

/-- A drive that is asked for a transfer in vain stays as it is. -/
theorem Unlimited.asked_eq (hd : d.Unlimited) :
    { d with reads := d.reads.next } = d ∧ { d with writes := d.writes.next } = d :=
  ⟨congrArg (fun reads => { d with reads }) (hd.next_eq .reads),
    congrArg (fun writes => { d with writes }) (hd.next_eq .writes)⟩

theorem Unlimited.read_refused (hd : d.Unlimited) (h : d.refusal? .reads sector = some e) :
    d.read sector = (.error e, d) := by
  rw [read, hd.asked_eq.1, show d.reads.fails = _ from hd.fails_eq .reads]
  cases hfailing : (d.told .reads).failing with
  | true =>
      cases (refusal?_of_failing hfailing).symm.trans h
      rfl
  | false =>
      rw [refusal?_of_working hfailing] at h
      split at h
      · next hsize =>
          cases h
          rw [Array.getElem?_eq_none hsize]
          rfl
      · exact nomatch h

theorem Unlimited.read_passed (hd : d.Unlimited) (h : d.refusal? .reads sector = none) :
    ∃ hsector : sector < d.sectors.size, d.read sector = (.ok d.sectors[sector], d) := by
  obtain ⟨hfailing, hsector⟩ := refusal?_eq_none.mp h
  refine ⟨hsector, ?_⟩
  rw [read, hd.asked_eq.1, show d.reads.fails = _ from hd.fails_eq .reads, hfailing,
    Array.getElem?_eq_getElem hsector]
  rfl

theorem Unlimited.write_refused (hd : d.Unlimited) (h : d.refusal? .writes sector = some e) :
    d.write sector data = (.error e, d) := by
  rw [write, hd.asked_eq.2, show d.writes.fails = _ from hd.fails_eq .writes]
  cases hfailing : (d.told .writes).failing with
  | true =>
      cases (refusal?_of_failing hfailing).symm.trans h
      rfl
  | false =>
      rw [refusal?_of_working hfailing] at h
      split at h
      · next hsize =>
          cases h
          exact if_neg (Nat.not_lt.mpr hsize)
      · exact nomatch h

theorem Unlimited.write_passed (hd : d.Unlimited) (h : d.refusal? .writes sector = none) :
    d.write sector data =
      (.ok (), { d with sectors := d.sectors.setIfInBounds sector data }) := by
  obtain ⟨hfailing, hsector⟩ := refusal?_eq_none.mp h
  rw [write, hd.asked_eq.2, show d.writes.fails = _ from hd.fails_eq .writes, hfailing]
  exact if_pos hsector

theorem flat_fails (d : Drive) (direction : Direction) :
    d.flat.fails direction = (d.told direction).failing := by
  cases direction <;> rfl

/-- **The driver refuses what the drive refuses**, and nothing changes. -/
theorem flat_refused (h : d.refusal? direction sector = some e)
    (hsector : sector < Word.span Block.counterBits) :
    d.flat.transfer direction sector buffer = .ok (.error e, buffer, d.flat) := by
  cases hfailing : (d.told direction).failing with
  | true =>
      cases (refusal?_of_failing hfailing).symm.trans h
      exact FlatDisk.transfer_of_fails ((d.flat_fails direction).trans hfailing)
  | false =>
      rw [refusal?_of_working hfailing] at h
      split at h
      · next hsize =>
          cases h
          exact FlatDisk.transfer_of_size_le ((d.flat_fails direction).trans hfailing) hsector
            (flat_size_lt_iff.mpr hsize)
      · exact nomatch h

/-- What passes finds its bounds within the bytes. -/
theorem flat_passed (h : d.refusal? direction sector = none)
    (hsector : sector < Word.span Block.counterBits) :
    d.flat.transfer direction sector buffer = .ok (.ok (),
      d.flat.copy direction (sector * sectorSize) (sector * sectorSize + sectorSize) buffer) := by
  obtain ⟨hfailing, hsize⟩ := refusal?_eq_none.mp h
  exact FlatDisk.transfer_eq ((d.flat_fails direction).trans hfailing) hsector
    (Nat.le_of_not_lt fun hlt => Nat.not_lt.mpr (flat_size_lt_iff.mp hlt) hsize)

/-- **The driver reads what the drive reads.** -/
theorem flat_read (buffer : Array UInt8) (h : d.refusal? .reads sector = none)
    (hsector : sector < Word.span Block.counterBits) : ∃ hsize : sector < d.sectors.size,
      d.flat.transfer .reads sector buffer = .ok (.ok (), d.sectors[sector].toArray, d.flat) := by
  refine ⟨(refusal?_eq_none.mp h).2, ?_⟩
  rw [flat_passed h hsector, ← flat_extract]
  rfl

/-- **The driver writes what the drive writes.** -/
theorem flat_write (h : d.refusal? .writes sector = none)
    (hsector : sector < Word.span Block.counterBits) :
    d.flat.transfer .writes sector data.toArray = .ok (.ok (), data.toArray,
      flat { d with sectors := d.sectors.setIfInBounds sector data }) := by
  rw [flat_passed h hsector, ← flat_set (refusal?_eq_none.mp h).2]
  rfl

end Drive

end PhysMem
