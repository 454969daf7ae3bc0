import Mathlib.Data.List.OfFn
import PhysMem.Proofs.SwapArea

/-!
# Slot transfers — what is written to a slot is read from it

A slot is moved sector by sector, and the drive may give up at any of them. How far it gets can be
told beforehand from what the drive was told and from how many sectors it has; as many sectors as it
lets through are moved, from the first on, and nothing else on the drive changes. The sector numbers
are 32-bit words, and so are the counters of the block: the numbers are exact for every slot of the
device, and the counters for as long as fewer sectors were moved than they can count.

* **`Contents.toBytes_of_ofBytes?`** — the bytes of a frame are given back.
* **`through`** is how many sectors of a slot the drive lets through; **`writePlaces_eq`** and
  **`readPlaces_eq`** are the inductions over the sectors.
* **`Request`** and **`run`** are sequences of transfers and of faults of the drive, **`Served`** is
  what one request does, **`run_served`** the induction over the requests.
* **`slots_keep_what_is_written`** — the result.
-/

namespace PhysMem

/-! ## Bytes -/

namespace Contents

/-- The bytes of contents that are built byte by byte. -/
theorem toBytes_build (f : Nat → UInt8) :
    (build f).toBytes = Array.ofFn fun i : Fin (sectorsPerFrame * sectorSize) => f i.val := by
  refine Array.toList_inj.mp ?_
  have hsector : ∀ i : Fin sectorsPerFrame,
      (Vector.ofFn fun j : Fin sectorSize => f (i.val * sectorSize + j.val)).toArray.toList =
        List.ofFn fun j : Fin sectorSize => f (i.val * sectorSize + j.val) := fun i => by
    rw [Vector.toArray_ofFn, Array.toList_ofFn]
  unfold toBytes build
  rw [Array.toList_flatMap, Array.toList_ofFn, List.ofFn_mul, Vector.toArray_ofFn,
    Array.toList_ofFn, List.flatMap_def, List.map_ofFn]
  exact congrArg List.flatten (congrArg List.ofFn (funext hsector))

/-- Bytes that are the contents of a frame are given back. -/
theorem toBytes_of_ofBytes? {bytes : Array UInt8} {frame : Contents}
    (h : ofBytes? bytes = some frame) : frame.toBytes = bytes := by
  unfold ofBytes? at h
  split at h
  · next hsize =>
      cases h
      rw [toBytes_build]
      refine Array.ext (by rw [Array.size_ofFn, hsize]; rfl) fun i hi hi' => ?_
      rw [Array.getElem_ofFn, Array.getElem?_eq_getElem hi']
      rfl
  · exact nomatch h

end Contents

/-! ## How far the drive gets -/

/-- What one direction of the drive has been told. -/
def Drive.told (d : Drive) : Direction → DriveFaults
  | .reads => d.reads
  | .writes => d.writes

/-- How many sectors were moved in one direction. -/
def Block.count (b : Block) : Direction → Nat
  | .reads => b.readCount
  | .writes => b.writeCount

namespace DriveFaults

/-- How many of `n` transfers in a row get as far as the sectors. -/
def lets (f : DriveFaults) (n : Nat) : Nat := if f.failing then 0 else min n (f.limit.getD n)

variable {f : DriveFaults}

theorem lets_le (f : DriveFaults) (n : Nat) : f.lets n ≤ n := by
  unfold lets
  split
  · exact Nat.zero_le n
  · exact Nat.min_le_left _ _

theorem lets_of_fails (h : f.fails = true) (n : Nat) : f.lets n = 0 := by
  unfold lets
  rcases (Bool.or_eq_true _ _).mp h with hlimit | hfailing
  · rw [beq_iff_eq.mp hlimit]
    split
    · rfl
    · exact Nat.min_zero n
  · rw [if_pos hfailing]

/-- One transfer gets through, and then those that do afterwards. -/
theorem lets_succ (h : f.fails = false) (n : Nat) : f.lets (n + 1) = f.next.lets n + 1 := by
  obtain ⟨hlimit, hfailing⟩ := (Bool.or_eq_false_iff).mp h
  unfold lets next
  rw [if_neg (Bool.eq_false_iff.mp hfailing), if_neg (Bool.eq_false_iff.mp hfailing)]
  cases hl : f.limit with
  | none => simp
  | some l =>
      have hne : l ≠ 0 := by
        rintro rfl
        rw [hl] at hlimit
        exact nomatch hlimit
      simp only [Option.map_some, Option.getD_some]
      omega

end DriveFaults

namespace SwapDevice

variable {d d' : SwapDevice} {slot j n k x : Nat} {frame : Contents} {i : Fin sectorsPerFrame}
  {data : Sector}

/-- The number of the first sector of a slot. -/
def start (d : SwapDevice) (slot : Nat) : Nat := d.firstSector + slot * sectorsPerFrame

/-- How many of the `n` sectors of a slot from its place `j` on the drive lets through. -/
def letsFrom (d : SwapDevice) (direction : Direction) (slot j n : Nat) : Nat :=
  (d.block.drive.told direction).lets (min n (d.block.drive.sectors.size - (d.start slot + j)))

/-- How many sectors of a slot are moved. A foreign block is not written. -/
def through (d : SwapDevice) (direction : Direction) (slot : Nat) : Nat :=
  if direction = .writes ∧ d.block.kind = .foreign then 0
  else d.letsFrom direction slot 0 sectorsPerFrame

theorem letsFrom_le (d : SwapDevice) (direction : Direction) (slot j n : Nat) :
    d.letsFrom direction slot j n ≤ n :=
  Nat.le_trans (DriveFaults.lets_le _ _) (Nat.min_le_left _ _)

theorem through_le (d : SwapDevice) (direction : Direction) (slot : Nat) :
    d.through direction slot ≤ sectorsPerFrame := by
  unfold through
  split
  · exact Nat.zero_le _
  · exact d.letsFrom_le direction slot 0 sectorsPerFrame

/-- Nothing gets through where the drive fails or has no sector. -/
theorem letsFrom_eq_zero {direction : Direction} (h : (d.block.drive.told direction).fails = true ∨
    d.block.drive.sectors.size ≤ d.start slot + j) : d.letsFrom direction slot j n = 0 := by
  unfold letsFrom
  rcases h with hfails | hsize
  · exact DriveFaults.lets_of_fails hfails _
  · rw [Nat.sub_eq_zero_of_le hsize, Nat.min_zero]
    exact Nat.le_zero.mp (DriveFaults.lets_le _ 0)

/-- One sector gets through, and then those that do afterwards. -/
theorem letsFrom_succ {direction : Direction}
    (hfails : (d.block.drive.told direction).fails = false)
    (hsize : d.start slot + j < d.block.drive.sectors.size)
    (hstart : d'.start slot = d.start slot)
    (hsizes : d'.block.drive.sectors.size = d.block.drive.sectors.size)
    (htold : d'.block.drive.told direction = (d.block.drive.told direction).next) :
    d.letsFrom direction slot j (n + 1) = d'.letsFrom direction slot (j + 1) n + 1 := by
  unfold letsFrom
  rw [hstart, hsizes, htold, ← DriveFaults.lets_succ hfails]
  congr 1
  omega

/-! ## One sector -/

theorem sector_lt_size (hd : d.Fits) (hslot : slot < d.slots) (i : Fin sectorsPerFrame) :
    d.start slot + i.val < d.block.size := by
  have hroom := hd.room slot hslot
  have hi := i.isLt
  unfold start
  unfold sectorsPerFrame at hroom hi ⊢
  omega

/-- For a slot of the device the block is asked whether it refuses the sector. -/
theorem refusals_eq (hd : d.Fits) (hslot : slot < d.slots) (i : Fin sectorsPerFrame) :
    d.readRefusal? slot i.val =
        .ok ((d.block.readRefusal? (d.start slot + i.val) sectorSize).map SwapError.io) ∧
      d.writeRefusal? slot i.val =
        .ok ((d.block.writeRefusal? (d.start slot + i.val) sectorSize).map SwapError.io) := by
  unfold readRefusal? writeRefusal?
  rw [if_neg (Nat.not_le.mpr hslot), if_neg (Nat.not_le.mpr hslot), slotSector_eq hd hslot]
  exact ⟨rfl, rfl⟩

/-- No sector of a slot is refused, but that nothing is written to a foreign block. -/
theorem refusal_eq_none (hd : d.Fits) (hslot : slot < d.slots) (i : Fin sectorsPerFrame) :
    d.readRefusal? slot i.val = .ok none ∧
      (d.block.kind ≠ .foreign → d.writeRefusal? slot i.val = .ok none) := by
  have hread : d.block.readRefusal? (d.start slot + i.val) sectorSize = none := by
    unfold Block.readRefusal?
    rw [if_neg (Nat.not_le.mpr (sector_lt_size hd hslot i)), if_neg (not_not_intro rfl)]
  obtain ⟨hreads, hwrites⟩ := refusals_eq hd hslot i
  rw [hreads, hwrites, hread]
  refine ⟨rfl, fun hkind => ?_⟩
  unfold Block.writeRefusal?
  rw [hread, if_neg hkind]
  rfl

theorem writeRefusal?_of_foreign (hd : d.Fits) (hslot : slot < d.slots)
    (hkind : d.block.kind = .foreign) (i : Fin sectorsPerFrame) :
    ∃ e, d.writeRefusal? slot i.val = .ok (some e) := by
  rw [(refusals_eq hd hslot i).2]
  unfold Block.writeRefusal?
  cases d.block.readRefusal? (d.start slot + i.val) sectorSize with
  | some e => exact ⟨.io e, rfl⟩
  | none =>
      rw [if_pos hkind]
      exact ⟨.io .readOnly, rfl⟩

/-- The device when its drive was asked for a transfer in vain. -/
def asked (d : SwapDevice) (direction : Direction) : SwapDevice :=
  { d with block := { d.block with drive := d.block.drive.tell direction DriveFaults.next } }

/-- The device when a sector was written. -/
def putSector (d : SwapDevice) (sector : Nat) (data : Sector) : SwapDevice :=
  { d with block := { d.block with
      drive := { d.block.drive with
        writes := d.block.drive.writes.next
        sectors := d.block.drive.sectors.setIfInBounds sector data }
      writeCount := d.block.writeCount + 1 } }

/-- The device when a sector was read. -/
def tookSector (d : SwapDevice) : SwapDevice :=
  { d with block := { d.block with
      drive := { d.block.drive with reads := d.block.drive.reads.next }
      readCount := d.block.readCount + 1 } }

/-- The drive does not write the sector. -/
theorem store_stopped (hd : d.Fits) (hslot : slot < d.slots) (data : Sector)
    (h : (d.block.drive.told .writes).fails = true ∨
      d.block.drive.sectors.size ≤ d.start slot + i.val) :
    ∃ e, d.store slot i.val data = .ok (.error e, d.asked .writes) := by
  have hwrite : ∃ e, d.block.drive.write (d.start slot + i.val) data =
      (.error e, d.block.drive.tell .writes DriveFaults.next) := by
    unfold Drive.write
    cases hfails : d.block.drive.writes.fails with
    | true => exact ⟨.writeError, rfl⟩
    | false =>
        have hsize := h.resolve_left (Bool.eq_false_iff.mp hfails)
        exact ⟨_, (if_neg Bool.false_ne_true).trans (if_neg (Nat.not_lt.mpr hsize))⟩
  obtain ⟨e, hwrite⟩ := hwrite
  refine ⟨.io e, Fault.bind_eq_ok.mpr ⟨_, slotSector_eq hd hslot i, ?_⟩⟩
  refine Fault.bind_eq_ok.mpr ⟨(.error e, (d.asked .writes).block), ?_, rfl⟩
  unfold Block.store
  rw [show d.firstSector + slot * sectorsPerFrame + i.val = d.start slot + i.val from rfl, hwrite]
  rfl

/-- The drive writes the sector, and the block counts it. -/
theorem store_passed (hd : d.Fits) (hslot : slot < d.slots) (data : Sector)
    (hfails : (d.block.drive.told .writes).fails = false)
    (hsize : d.start slot + i.val < d.block.drive.sectors.size)
    (hcount : d.block.writeCount + 1 < Word.span Block.counterBits) :
    d.store slot i.val data = .ok (.ok (), d.putSector (d.start slot + i.val) data) := by
  have hwrite : d.block.drive.write (d.start slot + i.val) data =
      (.ok (), (d.putSector (d.start slot + i.val) data).block.drive) := by
    unfold Drive.write
    rw [show d.block.drive.writes.fails = false from hfails]
    exact (if_neg Bool.false_ne_true).trans (if_pos hsize)
  refine Fault.bind_eq_ok.mpr ⟨_, slotSector_eq hd hslot i, ?_⟩
  refine Fault.bind_eq_ok.mpr ⟨(.ok (), (d.putSector _ data).block), ?_, rfl⟩
  unfold Block.store
  rw [show d.firstSector + slot * sectorsPerFrame + i.val = d.start slot + i.val from rfl, hwrite]
  exact Fault.bind_eq_ok.mpr ⟨_, Word.add_eq_ok hcount, rfl⟩

/-- The drive does not read the sector. -/
theorem fetch_stopped (hd : d.Fits) (hslot : slot < d.slots)
    (h : (d.block.drive.told .reads).fails = true ∨
      d.block.drive.sectors.size ≤ d.start slot + i.val) :
    ∃ e, d.fetch slot i.val = .ok (.error e, d.asked .reads) := by
  have hread : ∃ e, d.block.drive.read (d.start slot + i.val) =
      (.error e, d.block.drive.tell .reads DriveFaults.next) := by
    unfold Drive.read
    cases hfails : d.block.drive.reads.fails with
    | true => exact ⟨.readError, rfl⟩
    | false =>
        have hsize := h.resolve_left (Bool.eq_false_iff.mp hfails)
        rw [Array.getElem?_eq_none hsize]
        exact ⟨_, rfl⟩
  obtain ⟨e, hread⟩ := hread
  refine ⟨.io e, Fault.bind_eq_ok.mpr ⟨_, slotSector_eq hd hslot i, ?_⟩⟩
  refine Fault.bind_eq_ok.mpr ⟨(.error e, (d.asked .reads).block), ?_, rfl⟩
  unfold Block.fetch
  rw [show d.firstSector + slot * sectorsPerFrame + i.val = d.start slot + i.val from rfl, hread]
  rfl

/-- The drive reads the sector, and the block counts it. -/
theorem fetch_passed (hd : d.Fits) (hslot : slot < d.slots)
    (hfails : (d.block.drive.told .reads).fails = false)
    (hsize : d.start slot + i.val < d.block.drive.sectors.size)
    (hcount : d.block.readCount + 1 < Word.span Block.counterBits) :
    ∃ data, d.stored slot i = some data ∧ d.fetch slot i.val = .ok (.ok data, d.tookSector) := by
  refine ⟨_, Array.getElem?_eq_getElem hsize, ?_⟩
  have hread : d.block.drive.read (d.start slot + i.val) =
      (.ok d.block.drive.sectors[d.start slot + i.val], d.tookSector.block.drive) := by
    unfold Drive.read
    rw [show d.block.drive.reads.fails = false from hfails, Array.getElem?_eq_getElem hsize]
    rfl
  refine Fault.bind_eq_ok.mpr ⟨_, slotSector_eq hd hslot i, ?_⟩
  refine Fault.bind_eq_ok.mpr ⟨(.ok _, d.tookSector.block), ?_, rfl⟩
  unfold Block.fetch
  rw [show d.firstSector + slot * sectorsPerFrame + i.val = d.start slot + i.val from rfl, hread]
  exact Fault.bind_eq_ok.mpr ⟨_, Word.add_eq_ok hcount, rfl⟩

/-! ## The sectors of a slot, one after the other -/

/-- From place `j` of the slot on, `k` sectors are those of the frame. All other sectors of the drive
are as they were, and the writes were counted. -/
structure Overwrites (d : SwapDevice) (slot j k : Nat) (frame : Contents) (d' : SwapDevice) :
    Prop where
  layout : d.SameLayout d'
  reads : d'.block.readCount = d.block.readCount
  writes : d'.block.writeCount = d.block.writeCount + k
  written : ∀ i : Fin sectorsPerFrame, j ≤ i.val → i.val < j + k →
    d'.stored slot i = some (frame.get i)
  kept : ∀ x, ¬ (d.start slot + j ≤ x ∧ x < d.start slot + (j + k)) →
    d'.block.drive.sectors[x]? = d.block.drive.sectors[x]?

theorem places_drop (hj : j < sectorsPerFrame) :
    places.drop j = ⟨j, hj⟩ :: places.drop (j + 1) := by
  have hlen : j < places.length := by
    unfold places
    rw [List.length_finRange]
    exact hj
  rw [List.drop_eq_getElem_cons hlen]
  exact congrArg (· :: places.drop (j + 1)) (List.getElem_finRange hlen)

theorem places_drop_all (h : sectorsPerFrame ≤ j) : places.drop j = [] := by
  refine List.drop_eq_nil_of_le ?_
  unfold places
  rw [List.length_finRange]
  exact h

/-- One sector is written, and then others. -/
theorem Overwrites.cons (hj : j < sectorsPerFrame)
    (hsize : d.start slot + j < d.block.drive.sectors.size)
    (h : (d.putSector (d.start slot + j) (frame.get ⟨j, hj⟩)).Overwrites slot (j + 1) k frame d') :
    d.Overwrites slot j (k + 1) frame d' := by
  have hstart : d'.start slot = d.start slot := by
    unfold start
    rw [h.layout.firstSector]
    rfl
  have hput : ∀ x, x ≠ d.start slot + j →
      (d.putSector (d.start slot + j) (frame.get ⟨j, hj⟩)).block.drive.sectors[x]? =
        d.block.drive.sectors[x]? :=
    fun x hx => Array.getElem?_setIfInBounds_ne (Ne.symm hx)
  have hkept : ∀ x, ¬ (d.start slot + (j + 1) ≤ x ∧ x < d.start slot + (j + 1 + k)) →
      d'.block.drive.sectors[x]? =
        (d.putSector (d.start slot + j) (frame.get ⟨j, hj⟩)).block.drive.sectors[x]? := h.kept
  refine ⟨⟨h.layout.slots, h.layout.firstSector, h.layout.size⟩, h.reads, ?_, fun i hi hlt => ?_,
    fun x hx => ?_⟩
  · have hwrites : d'.block.writeCount = d.block.writeCount + 1 + k := h.writes
    omega
  · by_cases he : i.val = j
    · obtain rfl : i = ⟨j, hj⟩ := Fin.ext he
      show d'.block.drive.sectors[d'.start slot + j]? = _
      rw [hstart, hkept _ (by omega)]
      exact Array.getElem?_setIfInBounds_self_of_lt hsize
    · exact h.written i (by omega) (by omega)
  · rw [hkept x (by omega), hput x (by omega)]

/-- Writing the places of a slot from `j` on, as far as the drive goes. -/
theorem writePlaces_eq (hd : d.Fits) (hslot : slot < d.slots) (hkind : d.block.kind ≠ .foreign)
    (hn : j + n = sectorsPerFrame)
    (hcount : d.block.writeCount + d.letsFrom .writes slot j n < Word.span Block.counterBits) :
    ∃ answer d', d.writePlaces slot frame (places.drop j) = .ok (answer, d') ∧
      (answer = .ok () ↔ d.letsFrom .writes slot j n = n) ∧
      d.Overwrites slot j (d.letsFrom .writes slot j n) frame d' := by
  -- on the sectors that are left: one more on this device is one more than the rest on the next
  induction n generalizing d j with
  | zero =>
      have hnone : d.letsFrom .writes slot j 0 = 0 := Nat.le_zero.mp (d.letsFrom_le _ _ _ _)
      rw [places_drop_all (by omega), hnone]
      refine ⟨.ok (), d, rfl, ⟨fun _ => rfl, fun _ => rfl⟩, .refl d, rfl, rfl, fun i hi hlt => ?_,
        fun _ _ => rfl⟩
      omega
  | succ n ih =>
      have hj : j < sectorsPerFrame := by omega
      rw [places_drop hj, writePlaces, (refusal_eq_none hd hslot ⟨j, hj⟩).2 hkind]
      show ∃ answer d', (d.store slot j (frame.get ⟨j, hj⟩) >>= _) = _ ∧ _
      by_cases hstop : (d.block.drive.told .writes).fails = true ∨
          d.block.drive.sectors.size ≤ d.start slot + j
      · obtain ⟨e, hstore⟩ := store_stopped (i := ⟨j, hj⟩) hd hslot (frame.get ⟨j, hj⟩) hstop
        rw [hstore, letsFrom_eq_zero hstop]
        refine ⟨.error e, _, rfl, ⟨nofun, nofun⟩, ⟨rfl, rfl, rfl⟩, rfl, rfl, fun i hi hlt => ?_,
          fun _ _ => rfl⟩
        omega
      · obtain ⟨hfails, hsize⟩ := not_or.mp hstop
        have hfails := Bool.eq_false_iff.mpr hfails
        have hsize := Nat.lt_of_not_le hsize
        let d₁ := d.putSector (d.start slot + j) (frame.get ⟨j, hj⟩)
        have hlets : d.letsFrom .writes slot j (n + 1) = d₁.letsFrom .writes slot (j + 1) n + 1 :=
          letsFrom_succ hfails hsize rfl Array.size_setIfInBounds rfl
        have hwrites : d₁.block.writeCount = d.block.writeCount + 1 := rfl
        rw [hlets] at hcount ⊢
        rw [store_passed (i := ⟨j, hj⟩) hd hslot (frame.get ⟨j, hj⟩) hfails hsize (by omega)]
        obtain ⟨answer, d', hrest, hdone, hover⟩ := ih (d := d₁) (j := j + 1)
          (hd.of_layout ⟨rfl, rfl, rfl⟩) hslot hkind (by omega) (by omega)
        exact ⟨answer, d', hrest, hdone.trans (by omega), hover.cons hj hsize⟩

/-- From place `j` of the slot on, `k` sectors were read into the frame. The drive holds what it did,
and the reads were counted. -/
structure Fetches (d : SwapDevice) (slot j k : Nat) (frame frame' : Contents) (d' : SwapDevice) :
    Prop where
  layout : d.SameLayout d'
  reads : d'.block.readCount = d.block.readCount + k
  writes : d'.block.writeCount = d.block.writeCount
  sectors : d'.block.drive.sectors = d.block.drive.sectors
  filled : ∀ i : Fin sectorsPerFrame, j ≤ i.val → i.val < j + k →
    d.stored slot i = some (frame'.get i)
  rest : ∀ i : Fin sectorsPerFrame, i.val < j → frame'.get i = frame.get i

theorem get_set_self (frame : Contents) (i : Fin sectorsPerFrame) (data : Sector) :
    Vector.get (frame.set i data i.isLt) i = data := Vector.getElem_set_self i.isLt

theorem get_set_ne (frame : Contents) {i k : Fin sectorsPerFrame} (data : Sector)
    (h : i.val ≠ k.val) : Vector.get (frame.set i data i.isLt) k = frame.get k :=
  Vector.getElem_set_ne i.isLt k.isLt h

/-- Reading the places of a slot from `j` on, as far as the drive goes. -/
theorem readPlaces_eq (frame : Contents) (hd : d.Fits) (hslot : slot < d.slots)
    (hn : j + n = sectorsPerFrame)
    (hcount : d.block.readCount + d.letsFrom .reads slot j n < Word.span Block.counterBits) :
    ∃ answer frame' d', d.readPlaces slot frame (places.drop j) = .ok (answer, frame', d') ∧
      (answer = .ok () ↔ d.letsFrom .reads slot j n = n) ∧
      d.Fetches slot j (d.letsFrom .reads slot j n) frame frame' d' := by
  induction n generalizing d j frame with
  | zero =>
      have hnone : d.letsFrom .reads slot j 0 = 0 := Nat.le_zero.mp (d.letsFrom_le _ _ _ _)
      rw [places_drop_all (by omega), hnone]
      refine ⟨.ok (), frame, d, rfl, ⟨fun _ => rfl, fun _ => rfl⟩, .refl d, rfl, rfl, rfl,
        fun i hi hlt => ?_, fun _ _ => rfl⟩
      omega
  | succ n ih =>
      have hj : j < sectorsPerFrame := by omega
      rw [places_drop hj, readPlaces, (refusal_eq_none hd hslot ⟨j, hj⟩).1]
      show ∃ answer frame' d', (d.fetch slot j >>= _) = _ ∧ _
      by_cases hstop : (d.block.drive.told .reads).fails = true ∨
          d.block.drive.sectors.size ≤ d.start slot + j
      · obtain ⟨e, hfetch⟩ := fetch_stopped (i := ⟨j, hj⟩) hd hslot hstop
        rw [hfetch, letsFrom_eq_zero hstop]
        refine ⟨.error e, frame, _, rfl, ⟨nofun, nofun⟩, ⟨rfl, rfl, rfl⟩, rfl, rfl, rfl,
          fun i hi hlt => ?_, fun _ _ => rfl⟩
        omega
      · obtain ⟨hfails, hsize⟩ := not_or.mp hstop
        have hfails := Bool.eq_false_iff.mpr hfails
        have hsize := Nat.lt_of_not_le hsize
        have hlets : d.letsFrom .reads slot j (n + 1) =
            d.tookSector.letsFrom .reads slot (j + 1) n + 1 :=
          letsFrom_succ hfails hsize rfl rfl rfl
        have hreads : d.tookSector.block.readCount = d.block.readCount + 1 := rfl
        rw [hlets] at hcount ⊢
        obtain ⟨data, hdata, hfetch⟩ :=
          fetch_passed (i := ⟨j, hj⟩) hd hslot hfails hsize (by omega)
        rw [hfetch]
        obtain ⟨answer, frame', d', hrest, hdone, hfetches⟩ :=
          ih (d := d.tookSector) (j := j + 1) (frame.set j data hj)
            (hd.of_layout ⟨rfl, rfl, rfl⟩) hslot (by omega) (by omega)
        refine ⟨answer, frame', d', hrest, hdone.trans (by omega),
          ⟨hfetches.layout.slots, hfetches.layout.firstSector, hfetches.layout.size⟩, ?_,
          hfetches.writes, hfetches.sectors, fun i hi hlt => ?_, fun i hi => ?_⟩
        · have hcounted : d'.block.readCount = d.block.readCount + 1 + _ := hfetches.reads
          omega
        · by_cases he : i.val = j
          · obtain rfl : i = ⟨j, hj⟩ := Fin.ext he
            rw [hdata, hfetches.rest _ (Nat.lt_succ_self j)]
            exact congrArg some (get_set_self frame ⟨j, hj⟩ data).symm
          · exact hfetches.filled i (by omega) (by omega)
        · rw [hfetches.rest i (by omega)]
          exact get_set_ne frame (i := ⟨j, hj⟩) data (Nat.ne_of_gt hi)

/-! ## Requests -/

/-- What is asked of a swap device, and what its drive is told in between. -/
inductive Request where
  | write (slot : Nat) (buffer : Array UInt8)
  | read (slot : Nat) (buffer : Array UInt8)
  | scrub (slot : Nat)
  /-- From now on the drive fails like that in one direction. -/
  | tell (direction : Direction) (faults : DriveFaults)
  deriving DecidableEq, Repr

/-- What a swap device answers. -/
inductive Answer where
  | transferred (result : Except SwapError Unit)
  /-- The buffer of a read as it is afterwards. -/
  | filled (result : Except SwapError Unit) (buffer : Array UInt8)
  | told
  deriving DecidableEq

/-- Carries a request out. -/
def perform (d : SwapDevice) : Request → Except Fault (Answer × SwapDevice)
  | .write slot buffer => do
    let (result, d) ← d.writeSlot slot buffer
    return (.transferred result, d)
  | .read slot buffer => do
    let (result, buffer, d) ← d.readSlot slot buffer
    return (.filled result buffer, d)
  | .scrub slot => do
    let (result, d) ← d.scrubSlot slot
    return (.transferred result, d)
  | .tell direction faults =>
    .ok (.told, { d with block := { d.block with
      drive := d.block.drive.tell direction fun _ => faults } })

/-- Carries requests out, one after the other. -/
def run (d : SwapDevice) : List Request → Except Fault (List Answer × SwapDevice)
  | [] => .ok ([], d)
  | request :: rest => do
    let (answer, d) ← d.perform request
    let (answers, d) ← d.run rest
    return (answer :: answers, d)

namespace Request

/-- The slot that a request is about. -/
def slot? : Request → Option Nat
  | .write slot _ | .read slot _ | .scrub slot => some slot
  | .tell .. => none

/-- What a request would have a slot hold. -/
def writes? : Request → Option (Nat × Contents)
  | .write slot buffer => (Contents.ofBytes? buffer).map fun frame => (slot, frame)
  | .scrub slot => some (slot, .zero)
  | .read .. | .tell .. => none

end Request

/-- How many sectors a request moves in one direction, on the device as it is. -/
def moved (d : SwapDevice) (request : Request) (direction : Direction) : Nat :=
  match request, direction with
  | .write slot buffer, .writes =>
    if slot < d.slots ∧ buffer.size = Address.frameSize then d.through .writes slot else 0
  | .scrub slot, .writes => if slot < d.slots then d.through .writes slot else 0
  | .read slot buffer, .reads =>
    if slot < d.slots ∧ buffer.size = Address.frameSize then d.through .reads slot else 0
  | _, _ => 0

/-- How many sectors the requests move in one direction, one after the other. -/
def transfers (d : SwapDevice) (direction : Direction) : List Request → Nat
  | [] => 0
  | request :: rest =>
    d.moved request direction +
      match d.perform request with
      | .ok (_, d) => d.transfers direction rest
      | .error _ => 0

/-- The request came to its end. -/
def Answer.isDone : Answer → Bool
  | .transferred (.ok ()) | .filled (.ok ()) _ => true
  | _ => false

theorem Answer.isDone_transferred {result : Except SwapError Unit} :
    (Answer.transferred result).isDone = true ↔ result = .ok () := by
  cases result with
  | ok u => exact ⟨fun _ => rfl, fun _ => rfl⟩
  | error e => exact ⟨nofun, nofun⟩

theorem Answer.isDone_filled {result : Except SwapError Unit} {buffer : Array UInt8} :
    (Answer.filled result buffer).isDone = true ↔ result = .ok () := by
  cases result with
  | ok u => exact ⟨fun _ => rfl, fun _ => rfl⟩
  | error e => exact ⟨nofun, nofun⟩

/-- What a request does to the device: so many sectors of its slot are new, from the first on, and no
other sector of the drive. It comes to its end if these are all, and then what was read is what the
slot holds. -/
structure Served (d : SwapDevice) (request : Request) (answer : Answer) (d' : SwapDevice) :
    Prop where
  layout : d.SameLayout d'
  counted : ∀ direction,
    d'.block.count direction = d.block.count direction + d.moved request direction
  written : ∀ slot frame, request.writes? = some (slot, frame) →
    ∀ i : Fin sectorsPerFrame, i.val < d.moved request .writes →
      d'.stored slot i = some (frame.get i)
  kept : ∀ x, (∀ slot, request.slot? = some slot →
      ¬ (d.start slot ≤ x ∧ x < d.start slot + d.moved request .writes)) →
    d'.block.drive.sectors[x]? = d.block.drive.sectors[x]?
  done : answer.isDone = true ↔ ∃ direction, d.moved request direction = sectorsPerFrame
  read : ∀ slot buffer bytes, request = .read slot buffer → answer = .filled (.ok ()) bytes →
    ∃ frame : Contents, bytes = frame.toBytes ∧ ∀ i, d.stored slot i = some (frame.get i)

variable {request : Request} {answer : Answer} {result : Except SwapError Unit}
  {requests : List Request}

theorem moved_le (d : SwapDevice) (request : Request) (direction : Direction) :
    d.moved request direction ≤ sectorsPerFrame := by
  unfold moved
  split
  · split
    · exact d.through_le .writes _
    · exact Nat.zero_le _
  · split
    · exact d.through_le .writes _
    · exact Nat.zero_le _
  · split
    · exact d.through_le .reads _
    · exact Nat.zero_le _
  · exact Nat.zero_le _

/-- A request that does not read moves a whole slot only by writing it. -/
theorem full_iff_writes (hreads : d.moved request .reads = 0) :
    (∃ direction, d.moved request direction = sectorsPerFrame) ↔
      d.moved request .writes = sectorsPerFrame := by
  refine ⟨fun ⟨direction, he⟩ => ?_, fun he => ⟨.writes, he⟩⟩
  cases direction with
  | reads =>
      rw [hreads] at he
      exact nomatch he
  | writes => exact he

/-- A request that moves nothing leaves the device as it is. -/
theorem Served.refl (hmoved : ∀ direction, d.moved request direction = 0)
    (hanswer : answer.isDone = false) : d.Served request answer d := by
  refine ⟨.refl d, fun direction => ?_, fun _ _ _ i hi => ?_, fun _ _ => rfl, ?_, ?_⟩
  · rw [hmoved]
    rfl
  · rw [hmoved] at hi
    exact absurd hi (Nat.not_lt_zero _)
  · rw [hanswer]
    refine ⟨nofun, fun ⟨direction, h⟩ => ?_⟩
    rw [hmoved] at h
    exact nomatch h
  · rintro slot buffer bytes - rfl
    exact nomatch hanswer

/-- All places of a slot are written, as far as the drive goes. -/
theorem writePlaces_through (frame : Contents) (hd : d.Fits) (hslot : slot < d.slots)
    (hcount : d.block.writeCount + d.through .writes slot < Word.span Block.counterBits) :
    ∃ result d', d.writePlaces slot frame places = .ok (result, d') ∧
      (result = .ok () ↔ d.through .writes slot = sectorsPerFrame) ∧
      d.Overwrites slot 0 (d.through .writes slot) frame d' := by
  by_cases hkind : d.block.kind = .foreign
  · have hnone : d.through .writes slot = 0 := if_pos ⟨rfl, hkind⟩
    obtain ⟨e, hrefusal⟩ := writeRefusal?_of_foreign hd hslot hkind ⟨0, by decide⟩
    rw [hnone, show places = _ from places_drop (j := 0) (by decide), writePlaces, hrefusal]
    refine ⟨.error e, d, rfl, ⟨nofun, nofun⟩, .refl d, rfl, rfl, fun i _ hi => ?_, fun _ _ => rfl⟩
    exact absurd hi (Nat.not_lt_zero _)
  · have hall : d.through .writes slot = d.letsFrom .writes slot 0 sectorsPerFrame :=
      if_neg fun h => hkind h.2
    rw [hall] at hcount ⊢
    exact writePlaces_eq (j := 0) hd hslot hkind (Nat.zero_add _) hcount

/-- What a write or a scrub comes to. -/
theorem Overwrites.served (h : d.Overwrites slot 0 k frame d')
    (hwrites : request.writes? = some (slot, frame)) (hslot : request.slot? = some slot)
    (hmoved : d.moved request .writes = k) (hreads : d.moved request .reads = 0)
    (hresult : result = .ok () ↔ k = sectorsPerFrame) :
    d.Served request (.transferred result) d' := by
  subst hmoved
  refine ⟨h.layout, fun direction => ?_, fun slot' frame' he i hi => ?_, fun x hx => ?_, ?_, ?_⟩
  · cases direction with
    | reads =>
        rw [hreads]
        exact h.reads
    | writes => exact h.writes
  · cases hwrites.symm.trans he
    exact h.written i (Nat.zero_le _) (by omega)
  · refine h.kept x ?_
    rw [Nat.add_zero, Nat.zero_add]
    exact hx slot hslot
  · exact (Answer.isDone_transferred.trans hresult).trans (full_iff_writes hreads).symm
  · rintro slot' buffer bytes rfl -
    exact nomatch hwrites

/-- What a read comes to that meets the sectors. -/
theorem Fetches.served {frame' : Contents} {buffer : Array UInt8}
    (h : d.Fetches slot 0 k frame frame' d')
    (hmoved : d.moved (.read slot buffer) .reads = k)
    (hresult : result = .ok () ↔ k = sectorsPerFrame) :
    d.Served (.read slot buffer) (.filled result frame'.toBytes) d' := by
  subst hmoved
  refine ⟨h.layout, fun direction => ?_, nofun, fun x _ => by rw [h.sectors], ?_, ?_⟩
  · cases direction with
    | reads => exact h.reads
    | writes => exact h.writes
  · refine (Answer.isDone_filled.trans hresult).trans ⟨fun he => ⟨.reads, he⟩, ?_⟩
    rintro ⟨direction, he⟩
    cases direction with
    | reads => exact he
    | writes => exact nomatch he
  · rintro slot' buffer' bytes ⟨⟩ he
    obtain ⟨hok, rfl⟩ := Answer.filled.inj he
    have hall := hresult.mp hok
    exact ⟨frame', rfl, fun i => h.filled i (Nat.zero_le _) (by have := i.isLt; omega)⟩

theorem ofBytes?_eq_some {buffer : Array UInt8} (h : buffer.size = Address.frameSize) :
    ∃ frame, Contents.ofBytes? buffer = some frame := ⟨_, if_pos h⟩

theorem ofBytes?_eq_none {buffer : Array UInt8} (h : buffer.size ≠ Address.frameSize) :
    Contents.ofBytes? buffer = none := if_neg h

/-- A write that never gets to the sectors. -/
theorem writeSlot_refused {buffer : Array UInt8}
    (h : ¬ (slot < d.slots ∧ buffer.size = Address.frameSize)) :
    ∃ e, d.writeSlot slot buffer = .ok (.error e, d) := by
  unfold writeSlot
  by_cases hslot : slot < d.slots
  · rw [if_neg (Nat.not_le.mpr hslot), ofBytes?_eq_none fun hsize => h ⟨hslot, hsize⟩]
    exact ⟨_, rfl⟩
  · exact ⟨_, if_pos (Nat.not_lt.mp hslot)⟩

/-- A read that never gets to the sectors. -/
theorem readSlot_refused {buffer : Array UInt8}
    (h : ¬ (slot < d.slots ∧ buffer.size = Address.frameSize)) :
    ∃ e, d.readSlot slot buffer = .ok (.error e, buffer, d) := by
  unfold readSlot
  by_cases hslot : slot < d.slots
  · rw [if_neg (Nat.not_le.mpr hslot), ofBytes?_eq_none fun hsize => h ⟨hslot, hsize⟩]
    exact ⟨_, rfl⟩
  · exact ⟨_, if_pos (Nat.not_lt.mp hslot)⟩

/-- **One request is served**, unless a counter of the block cannot count its sectors. -/
theorem perform_served (hd : d.Fits) (request : Request)
    (hcount : ∀ direction, d.block.count direction + d.moved request direction <
      Word.span Block.counterBits) :
    ∃ answer d', d.perform request = .ok (answer, d') ∧ d.Served request answer d' := by
  cases request with
  | write slot buffer =>
      by_cases hasks : slot < d.slots ∧ buffer.size = Address.frameSize
      · obtain ⟨frame, hframe⟩ := ofBytes?_eq_some hasks.2
        have hmoved : d.moved (.write slot buffer) .writes = d.through .writes slot :=
          if_pos hasks
        obtain ⟨result, d', hwrite, hresult, hover⟩ :=
          writePlaces_through frame hd hasks.1 (hmoved ▸ hcount .writes)
        have hwrites : (Request.write slot buffer).writes? = some (slot, frame) := by
          show (Contents.ofBytes? buffer).map _ = _
          rw [hframe]
          rfl
        refine ⟨.transferred result, d', Fault.bind_eq_ok.mpr ⟨(result, d'), ?_, rfl⟩,
          hover.served hwrites rfl hmoved rfl hresult⟩
        unfold writeSlot
        rw [if_neg (Nat.not_le.mpr hasks.1), hframe]
        exact hwrite
      · obtain ⟨e, hrefused⟩ := writeSlot_refused hasks
        refine ⟨.transferred (.error e), d, Fault.bind_eq_ok.mpr ⟨_, hrefused, rfl⟩,
          .refl (fun direction => ?_) rfl⟩
        cases direction with
        | reads => rfl
        | writes => exact if_neg hasks
  | read slot buffer =>
      by_cases hasks : slot < d.slots ∧ buffer.size = Address.frameSize
      · obtain ⟨frame, hframe⟩ := ofBytes?_eq_some hasks.2
        have hmoved : d.moved (.read slot buffer) .reads = d.letsFrom .reads slot 0 sectorsPerFrame :=
          (if_pos hasks).trans (if_neg nofun)
        obtain ⟨result, frame', d', hread, hresult, hfetches⟩ :=
          readPlaces_eq (j := 0) frame hd hasks.1 (Nat.zero_add _)
            (hmoved ▸ hcount .reads)
        refine ⟨.filled result frame'.toBytes, d', ?_, hfetches.served hmoved hresult⟩
        refine Fault.bind_eq_ok.mpr ⟨(result, frame'.toBytes, d'), ?_, rfl⟩
        unfold readSlot
        rw [if_neg (Nat.not_le.mpr hasks.1), hframe]
        exact Fault.bind_eq_ok.mpr ⟨(result, frame', d'), hread, rfl⟩
      · obtain ⟨e, hrefused⟩ := readSlot_refused hasks
        refine ⟨.filled (.error e) buffer, d, Fault.bind_eq_ok.mpr ⟨_, hrefused, rfl⟩,
          .refl (fun direction => ?_) rfl⟩
        cases direction with
        | reads => exact if_neg hasks
        | writes => rfl
  | scrub slot =>
      by_cases hslot : slot < d.slots
      · have hmoved : d.moved (.scrub slot) .writes = d.through .writes slot := if_pos hslot
        obtain ⟨result, d', hwrite, hresult, hover⟩ :=
          writePlaces_through .zero hd hslot (hmoved ▸ hcount .writes)
        refine ⟨.transferred result, d', Fault.bind_eq_ok.mpr ⟨(result, d'), ?_, rfl⟩,
          hover.served rfl rfl hmoved rfl hresult⟩
        exact (if_neg (Nat.not_le.mpr hslot)).trans hwrite
      · refine ⟨.transferred (.error (.invalidSlot slot)), d,
          Fault.bind_eq_ok.mpr ⟨_, if_pos (Nat.not_lt.mp hslot), rfl⟩,
          .refl (fun direction => ?_) rfl⟩
        cases direction with
        | reads => rfl
        | writes => exact if_neg hslot
  | tell direction faults =>
      refine ⟨.told, _, rfl, ?_, fun direction' => ?_, nofun, fun x _ => ?_, ⟨nofun, nofun⟩, nofun⟩
      · exact ⟨rfl, rfl, rfl⟩
      · cases direction <;> cases direction' <;> rfl
      · cases direction <;> rfl

/-! ## Sequences of requests -/

variable {earlier later : List Request} {answers : List Answer} {direction : Direction}

theorem SameLayout.start (h : d.SameLayout d') (slot : Nat) : d'.start slot = d.start slot := by
  unfold SwapDevice.start
  rw [h.firstSector]

theorem SameLayout.stored (h : d.SameLayout d') (slot : Nat) (i : Fin sectorsPerFrame) :
    d'.stored slot i = d'.block.drive.sectors[d.start slot + i.val]? := by
  rw [← h.start]
  rfl

/-- Two places of slots that have the same number are the same place. -/
theorem start_inj {slot' : Nat} {i' : Fin sectorsPerFrame}
    (h : d.start slot + i.val = d.start slot' + i'.val) : slot = slot' ∧ i = i' := by
  have hi := i.isLt
  have hi' := i'.isLt
  unfold start at h
  unfold sectorsPerFrame at h hi hi'
  exact ⟨by omega, Fin.ext (by omega)⟩

/-- How many sectors are moved, once it is known what the first requests do. -/
theorem transfers_append (hrun : d.run earlier = .ok (answers, d')) (later : List Request) :
    d.transfers direction (earlier ++ later) =
      d.transfers direction earlier + d'.transfers direction later := by
  induction earlier generalizing d answers with
  | nil =>
      cases hrun
      exact (Nat.zero_add _).symm
  | cons request rest ih =>
      obtain ⟨⟨answer, d₁⟩, hperform, hrun⟩ := Fault.bind_eq_ok.mp hrun
      obtain ⟨⟨answers', d₂⟩, hrest, hrun⟩ := Fault.bind_eq_ok.mp hrun
      cases hrun
      have hrest := ih hrest
      rw [List.cons_append, transfers, transfers, hperform]
      dsimp only
      rw [hrest, Nat.add_assoc]

/-- The first request is served, and those after it can be counted. -/
theorem perform_before (hd : d.Fits) (hcount : ∀ direction, d.block.count direction +
      d.transfers direction (request :: later) < Word.span Block.counterBits) :
    ∃ answer d', d.perform request = .ok (answer, d') ∧ d.Served request answer d' ∧ ∀ direction,
      d'.block.count direction + d'.transfers direction later =
        d.block.count direction + d.transfers direction (request :: later) := by
  obtain ⟨answer, d', hperform, hserved⟩ := perform_served hd request fun direction =>
    Nat.lt_of_le_of_lt (Nat.add_le_add_left (Nat.le_add_right _ _) _) (hcount direction)
  refine ⟨answer, d', hperform, hserved, fun direction => ?_⟩
  rw [transfers, hperform, hserved.counted, Nat.add_assoc]

/-- **Requests are served**, one after the other, unless a counter of the block cannot count their
sectors. -/
theorem run_served (hd : d.Fits) (hcount : ∀ direction,
    d.block.count direction + d.transfers direction requests < Word.span Block.counterBits) :
    ∃ answers d', d.run requests = .ok (answers, d') ∧ d.SameLayout d' ∧
      ∀ direction, d'.block.count direction =
        d.block.count direction + d.transfers direction requests := by
  induction requests generalizing d with
  | nil => exact ⟨[], d, rfl, .refl d, fun _ => rfl⟩
  | cons request rest ih =>
      obtain ⟨answer, d₁, hperform, hserved, hcounted⟩ := perform_before hd hcount
      obtain ⟨answers, d', hrest, hlayout, hcounts⟩ := ih (hd.of_layout hserved.layout)
        fun direction => hcounted direction ▸ hcount direction
      refine ⟨answer :: answers, d', ?_, hserved.layout.trans hlayout, fun direction =>
        (hcounts direction).trans (hcounted direction)⟩
      exact Fault.bind_eq_ok.mpr ⟨_, hperform, Fault.bind_eq_ok.mpr ⟨_, hrest, rfl⟩⟩

/-- Every request moves at most the sectors of one slot. -/
theorem transfers_le (d : SwapDevice) (direction : Direction) (requests : List Request) :
    d.transfers direction requests ≤ sectorsPerFrame * requests.length := by
  induction requests generalizing d with
  | nil => exact Nat.zero_le _
  | cons request rest ih =>
      rw [transfers, List.length_cons, Nat.mul_succ, Nat.add_comm _ sectorsPerFrame]
      refine Nat.add_le_add (d.moved_le request direction) ?_
      cases d.perform request with
      | ok served => exact ih served.2
      | error e => exact Nat.zero_le _

theorem transfers_le_append (d : SwapDevice) (direction : Direction)
    (earlier later : List Request) :
    d.transfers direction earlier ≤ d.transfers direction (earlier ++ later) := by
  induction earlier generalizing d with
  | nil => exact Nat.zero_le _
  | cons request rest ih =>
      refine Nat.add_le_add_left ?_ _
      cases d.perform request with
      | ok served => exact ih served.2
      | error e => exact Nat.le_refl 0

/-- The first requests are served, and those after them can be counted. -/
theorem run_before (hd : d.Fits) (hcount : ∀ direction, d.block.count direction +
      d.transfers direction (earlier ++ later) < Word.span Block.counterBits) :
    ∃ answers d', d.run earlier = .ok (answers, d') ∧ d.SameLayout d' ∧ ∀ direction,
      d'.block.count direction + d'.transfers direction later < Word.span Block.counterBits := by
  obtain ⟨answers, d', hrun, hlayout, hcounts⟩ := run_served hd fun direction =>
    Nat.lt_of_le_of_lt
      (Nat.add_le_add_left (d.transfers_le_append direction earlier later) _) (hcount direction)
  refine ⟨answers, d', hrun, hlayout, fun direction => ?_⟩
  rw [hcounts, Nat.add_assoc, ← transfers_append hrun]
  exact hcount direction

/-- A request about another slot leaves this one as it is. -/
theorem Served.stored_of_ne (h : d.Served request answer d') (hne : request.slot? ≠ some slot)
    (i : Fin sectorsPerFrame) : d'.stored slot i = d.stored slot i := by
  rw [h.layout.stored]
  refine h.kept _ fun slot' hslot' hin => ?_
  have hmoved := d.moved_le request .writes
  have hi := i.isLt
  -- a sector of this slot within the other one would be a place of both
  obtain ⟨he, -⟩ : slot = slot' ∧ i = ⟨d.start slot + i.val - d.start slot', by omega⟩ :=
    start_inj (d := d) (by dsimp only; omega)
  exact hne (he ▸ hslot')

/-- **Requests about other slots leave a slot as it is.** -/
theorem run_stored_of_ne (hd : d.Fits) (hcount : ∀ direction,
      d.block.count direction + d.transfers direction requests < Word.span Block.counterBits)
    (hne : ∀ request ∈ requests, request.slot? ≠ some slot)
    (hrun : d.run requests = .ok (answers, d')) (i : Fin sectorsPerFrame) :
    d'.stored slot i = d.stored slot i := by
  induction requests generalizing d answers with
  | nil =>
      cases hrun
      rfl
  | cons request rest ih =>
      obtain ⟨answer, d₁, hperform, hserved, hcounted⟩ := perform_before hd hcount
      obtain ⟨⟨answer', d₂⟩, hperform', hrun⟩ := Fault.bind_eq_ok.mp hrun
      cases hperform.symm.trans hperform'
      obtain ⟨⟨answers', d₃⟩, hrest, hrun⟩ := Fault.bind_eq_ok.mp hrun
      cases hrun
      refine (ih (hd.of_layout hserved.layout) (fun direction => hcounted direction ▸
        hcount direction) (fun request' hmem => ?_) hrest).trans ?_
      · exact hne request' (List.mem_cons_of_mem request hmem)
      · exact hserved.stored_of_ne (hne request List.mem_cons_self) i

/-! ## The slots of a block -/

/-- As many slots as the capacity and the sectors from the first one on have room for. -/
theorem le_slots_iff (block : Block) (config : SwapConfig) (k : Nat) :
    k ≤ (ofBlock block config).slots ↔ k * Address.frameSize ≤ config.capacity ∧
      (k = 0 ∨ config.firstSector + k * sectorsPerFrame ≤ block.size) := by
  have hcapacity : k ≤ config.capacity / Address.frameSize ↔
      k * Address.frameSize ≤ config.capacity := Nat.le_div_iff_mul_le (by decide)
  have hsectors : k ≤ (block.size - config.firstSector) / sectorsPerFrame ↔
      k = 0 ∨ config.firstSector + k * sectorsPerFrame ≤ block.size := by
    unfold sectorsPerFrame
    omega
  rw [← hcapacity, ← hsectors]
  exact Nat.le_min

/-- The number of the first sector is computed exactly, as those of all sectors are. -/
theorem slotStart_eq (hd : d.Fits) (hslot : slot < d.slots) :
    d.slotStart slot = .ok (d.start slot) := by
  obtain ⟨start, hstart, hadd⟩ :=
    Fault.bind_eq_ok.mp (slotSector_eq hd hslot ⟨0, by decide⟩)
  have hsector : d.start slot = start := Word.eq_of_add hadd
  rw [hstart, hsector]

/-! ## What is written is read -/

theorem slot?_of_writes? (h : request.writes? = some (slot, frame)) :
    request.slot? = some slot ∧ d.moved request .reads = 0 := by
  cases request with
  | write slot' buffer =>
      obtain ⟨frame', -, he⟩ := Option.map_eq_some_iff.mp h
      cases he
      exact ⟨rfl, rfl⟩
  | scrub slot' =>
      cases h
      exact ⟨rfl, rfl⟩
  | read slot' buffer => exact nomatch h
  | tell direction faults => exact nomatch h

/-- What moves sectors to the drive would have a slot hold something. -/
theorem writes?_of_moved (request : Request) (h : 0 < d.moved request .writes) :
    ∃ slot frame, request.writes? = some (slot, frame) ∧ slot < d.slots := by
  cases request with
  | write slot buffer =>
      by_cases hasks : slot < d.slots ∧ buffer.size = Address.frameSize
      · obtain ⟨frame, hframe⟩ := ofBytes?_eq_some hasks.2
        refine ⟨slot, frame, ?_, hasks.1⟩
        show (Contents.ofBytes? buffer).map _ = _
        rw [hframe]
        rfl
      · rw [show d.moved (.write slot buffer) .writes = 0 from if_neg hasks] at h
        exact absurd h (Nat.lt_irrefl 0)
  | read slot buffer => exact absurd h (Nat.lt_irrefl 0)
  | scrub slot =>
      by_cases hslot : slot < d.slots
      · exact ⟨slot, .zero, rfl, hslot⟩
      · rw [show d.moved (.scrub slot) .writes = 0 from if_neg hslot] at h
        exact absurd h (Nat.lt_irrefl 0)
  | tell direction faults => exact absurd h (Nat.lt_irrefl 0)

/-- A sector that a request changes is one of the slot it writes. -/
theorem Served.writes_of_changed (h : d.Served request answer d')
    (hx : d'.block.drive.sectors[x]? ≠ d.block.drive.sectors[x]?) :
    ∃ slot frame i, request.writes? = some (slot, frame) ∧ slot < d.slots ∧
      x = d.start slot + (i : Fin sectorsPerFrame).val := by
  by_contra hnone
  refine hx (h.kept x fun slot hslot hin => ?_)
  obtain ⟨slot', frame, hwrites, hlt⟩ := writes?_of_moved (d := d) request (by omega)
  cases hslot.symm.trans (slot?_of_writes? (d := d) hwrites).1
  have hmoved := d.moved_le request .writes
  exact hnone ⟨slot, frame, ⟨x - d.start slot, by omega⟩, hwrites, hlt, by dsimp only; omega⟩

/-- What a request writes is new up to some sector, and the rest of the slot is as it was. -/
theorem Served.written_up_to (h : d.Served request answer d')
    (hwrites : request.writes? = some (slot, frame)) :
    ∃ k, k ≤ sectorsPerFrame ∧ (answer.isDone = true ↔ k = sectorsPerFrame) ∧
      ∀ i : Fin sectorsPerFrame,
        d'.stored slot i = if i.val < k then some (frame.get i) else d.stored slot i := by
  obtain ⟨hslot, hreads⟩ := slot?_of_writes? (d := d) hwrites
  refine ⟨_, d.moved_le request .writes, h.done.trans (full_iff_writes hreads), fun i => ?_⟩
  split
  · next hi => exact h.written slot frame hwrites i hi
  · next hi =>
      rw [h.layout.stored]
      refine h.kept _ fun slot' hslot' hin => ?_
      cases hslot.symm.trans hslot'
      omega

/-- A slot that was written is read as it was written, whatever was asked of the other slots. -/
theorem Served.read_back {d₁ d₂ d₃ d₄ : SwapDevice} {wrote got : Answer}
    {buffer other bytes : Array UInt8} (hwrite : d₁.Served (.write slot buffer) wrote d₂)
    (hkept : ∀ i, d₃.stored slot i = d₂.stored slot i)
    (hread : d₃.Served (.read slot other) got d₄)
    (hwrote : wrote.isDone = true) (hgot : got = .filled (.ok ()) bytes) : bytes = buffer := by
  have hall : d₁.moved (.write slot buffer) .writes = sectorsPerFrame :=
    (full_iff_writes rfl).mp (hwrite.done.mp hwrote)
  obtain ⟨slot', frame, hwrites, -⟩ := writes?_of_moved (d := d₁) (.write slot buffer)
    (hall ▸ by decide)
  obtain ⟨frame', hframe, he⟩ := Option.map_eq_some_iff.mp hwrites
  obtain ⟨rfl, rfl⟩ := Prod.mk.inj he
  obtain ⟨held, rfl, hheld⟩ := hread.read slot other bytes rfl hgot
  have hsame : held = frame' := by
    refine Vector.ext fun i hi => ?_
    have hstored := hwrite.written slot frame' hwrites ⟨i, hi⟩ (Nat.lt_of_lt_of_eq hi hall.symm)
    exact Option.some.inj ((hheld ⟨i, hi⟩).symm.trans ((hkept _).trans hstored))
  rw [hsame]
  exact Contents.toBytes_of_ofBytes? hframe

/-- **Slots keep what is written to them.** A block has as many slots as the configured capacity and
its sectors have room for. The numbers of their sectors are computed exactly, also those that are
counted past the last sector, they lie within the block, and no two places of slots share one.

Take any requests, the drive being told to fail in whatever way in between, that do not move more
sectors than the counters of the block can count. Each of them is answered. The sectors it changes
are those of the slot that it writes, so many of them from the first on, and all of them if and only
if it succeeds. What a slot was written is what is read from it, if in between it was not asked for. -/
theorem slots_keep_what_is_written (block : Block) (config : SwapConfig)
    (hsize : block.size < Word.span Block.counterBits - 1)
    (requests : List Request) (hcount : ∀ direction, block.count direction +
      (ofBlock block config).transfers direction requests < Word.span Block.counterBits) :
    let d := ofBlock block config
    (∀ k, k ≤ d.slots ↔ k * Address.frameSize ≤ config.capacity ∧
      (k = 0 ∨ config.firstSector + k * sectorsPerFrame ≤ block.size)) ∧
    (∀ slot, slot < d.slots →
      d.start slot = config.firstSector + slot * sectorsPerFrame ∧
      d.slotStart slot = .ok (d.start slot) ∧
      d.start slot + (sectorsPerFrame + 1) < Word.span Block.counterBits ∧
      ∀ i : Fin sectorsPerFrame,
        d.slotSector slot i.val = .ok (d.start slot + i.val) ∧
        d.start slot + i.val < block.size) ∧
    (∀ slot slot' (i i' : Fin sectorsPerFrame), d.start slot + i.val = d.start slot' + i'.val →
      slot = slot' ∧ i = i') ∧
    (∀ earlier request later, requests = earlier ++ request :: later →
      ∃ answers d₁ answer d₂, d.run earlier = .ok (answers, d₁) ∧
        d₁.perform request = .ok (answer, d₂) ∧
        (∀ x, d₂.block.drive.sectors[x]? ≠ d₁.block.drive.sectors[x]? →
          ∃ slot frame i, request.writes? = some (slot, frame) ∧ slot < d.slots ∧
            x = d.start slot + (i : Fin sectorsPerFrame).val) ∧
        ∀ slot frame, request.writes? = some (slot, frame) →
          ∃ k, k ≤ sectorsPerFrame ∧ (answer.isDone = true ↔ k = sectorsPerFrame) ∧
            ∀ i : Fin sectorsPerFrame, d₂.block.drive.sectors[d.start slot + i.val]? =
              if i.val < k then some (frame.get i)
              else d₁.block.drive.sectors[d.start slot + i.val]?) ∧
    ∀ earlier slot buffer middle other later,
      requests = earlier ++ .write slot buffer :: (middle ++ .read slot other :: later) →
      (∀ request ∈ middle, request.slot? ≠ some slot) →
      ∃ answers d₁ wrote d₂ answers' d₃ got d₄, d.run earlier = .ok (answers, d₁) ∧
        d₁.perform (.write slot buffer) = .ok (wrote, d₂) ∧
        d₂.run middle = .ok (answers', d₃) ∧ d₃.perform (.read slot other) = .ok (got, d₄) ∧
        ∀ bytes, wrote.isDone = true → got = .filled (.ok ()) bytes → bytes = buffer := by
  intro d
  have hd : d.Fits := ofBlock_fits config (Nat.lt_of_lt_of_le hsize (Nat.sub_le _ _))
  refine ⟨le_slots_iff block config, fun slot hslot => ⟨rfl, slotStart_eq hd hslot, ?_, fun i =>
    ⟨slotSector_eq hd hslot i, sector_lt_size hd hslot i⟩⟩, fun _ _ _ _ => start_inj, ?_, ?_⟩
  · have hlast := sector_lt_size hd hslot ⟨7, by decide⟩
    have hblock : d.block.size < Word.span Block.counterBits - 1 := hsize
    unfold sectorsPerFrame
    dsimp only at hlast
    omega
  · rintro earlier request later rfl
    obtain ⟨answers, d₁, hrun, hlayout, hcount⟩ := run_before hd hcount
    obtain ⟨answer, d₂, hperform, hserved, -⟩ := perform_before (hd.of_layout hlayout) hcount
    refine ⟨answers, d₁, answer, d₂, hrun, hperform, fun x hx => ?_, fun slot frame hwrites => ?_⟩
    · obtain ⟨slot, frame, i, hwrites, hslot, he⟩ := hserved.writes_of_changed hx
      rw [hlayout.slots] at hslot
      rw [hlayout.start] at he
      exact ⟨slot, frame, i, hwrites, hslot, he⟩
    · obtain ⟨k, hk, hdone, hupto⟩ := hserved.written_up_to hwrites
      refine ⟨k, hk, hdone, fun i => ?_⟩
      rw [← hlayout.stored, ← (hlayout.trans hserved.layout).stored]
      exact hupto i
  · rintro earlier slot buffer middle other later rfl hmiddle
    obtain ⟨answers, d₁, hrun, hlayout, hcount⟩ := run_before hd hcount
    obtain ⟨wrote, d₂, hwrite, hwritten, hcounted⟩ :=
      perform_before (hd.of_layout hlayout) hcount
    have hd₂ : d₂.Fits := hd.of_layout (hlayout.trans hwritten.layout)
    have hcount : ∀ direction, d₂.block.count direction +
        d₂.transfers direction (middle ++ .read slot other :: later) <
          Word.span Block.counterBits := fun direction => hcounted direction ▸ hcount direction
    obtain ⟨answers', d₃, hrun', hlayout', hcount'⟩ := run_before hd₂ hcount
    obtain ⟨got, d₄, hread, hfetched, -⟩ := perform_before (hd₂.of_layout hlayout') hcount'
    have hkept : ∀ i, d₃.stored slot i = d₂.stored slot i := fun i =>
      run_stored_of_ne hd₂ (fun direction => Nat.lt_of_le_of_lt (Nat.add_le_add_left
        (d₂.transfers_le_append direction middle _) _) (hcount direction)) hmiddle hrun' i
    exact ⟨answers, d₁, wrote, d₂, answers', d₃, got, d₄, hrun, hwrite, hrun', hread,
      fun bytes => hwritten.read_back hkept hfetched⟩

/-- A disk of sixteen sectors. -/
def smallDisk : Block := { kind := .swap, name := "disk", size := 16, drive := .blank 16 }

/-- Of the two slots of a small disk the second is written. Then the drive gives up after three
sectors of the first one, and the second is read as it was written. -/
theorem slots_keep_what_is_written_in_two_slots :
    let sevens : Array UInt8 := Array.replicate Address.frameSize 7
    let zeros : Array UInt8 := Array.replicate Address.frameSize 0
    let d := ofBlock smallDisk {}
    d.slots = 2 ∧ d.slotStart 1 = .ok 8 ∧ ∃ wrote d₂ answers d₃ got d₄,
      d.perform (.write 1 sevens) = .ok (wrote, d₂) ∧ wrote.isDone = true ∧
      d₂.run [.tell .writes { limit := some 3 }, .write 0 sevens] = .ok (answers, d₃) ∧
      answers.map Answer.isDone = [false, false] ∧
      d₃.perform (.read 1 zeros) = .ok (got, d₄) ∧ got = .filled (.ok ()) sevens := by
  intro sevens zeros d
  have hseen : (do
      let (wrote, d₂) ← d.perform (.write 1 sevens)
      let (answers, d₃) ← d₂.run [.tell .writes { limit := some 3 }, .write 0 sevens]
      let (result, _, _) ← d₃.readSlot 1 zeros
      return (wrote.isDone, answers.map Answer.isDone, result)) =
      .ok (true, [false, false], .ok ()) := by decide +kernel
  obtain ⟨⟨wrote, d₂⟩, hwrite, hseen⟩ := Fault.bind_eq_ok.mp hseen
  obtain ⟨⟨answers, d₃⟩, hrun, hseen⟩ := Fault.bind_eq_ok.mp hseen
  obtain ⟨⟨result, bytes, d₄⟩, hread, hseen⟩ := Fault.bind_eq_ok.mp hseen
  simp only [pure, Except.pure, Except.ok.injEq, Prod.mk.injEq] at hseen
  obtain ⟨hwrote, hanswers, rfl⟩ := hseen
  have hread : d₃.perform (.read 1 zeros) = .ok (.filled (.ok ()) bytes, d₄) :=
    Fault.bind_eq_ok.mpr ⟨_, hread, rfl⟩
  have hcount : ∀ direction, smallDisk.count direction + d.transfers direction
      [.write 1 sevens, .tell .writes { limit := some 3 }, .write 0 sevens, .read 1 zeros] <
      Word.span Block.counterBits := fun direction => by
    rw [show smallDisk.count direction = 0 by cases direction <;> rfl, Nat.zero_add]
    exact Nat.lt_of_le_of_lt (d.transfers_le direction _) (by decide : sectorsPerFrame * 4 < _)
  obtain ⟨-, hplaces, -, -, hback⟩ := slots_keep_what_is_written smallDisk {} (by decide) _ hcount
  obtain ⟨_, d₁, _, _, _, _, _, _, hnothing, hwrite', hrun', hread', hbytes⟩ :=
    hback [] 1 sevens [.tell .writes { limit := some 3 }, .write 0 sevens] zeros [] rfl
      (by simp [Request.slot?])
  cases hnothing
  cases hwrite.symm.trans hwrite'
  cases hrun.symm.trans hrun'
  cases hread.symm.trans hread'
  refine ⟨rfl, (hplaces 1 (by decide)).2.1, wrote, d₂, answers, d₃, _, d₄, hwrite, hwrote, hrun,
    hanswers, hread, ?_⟩
  rw [hbytes bytes hwrote rfl]

end SwapDevice

end PhysMem
