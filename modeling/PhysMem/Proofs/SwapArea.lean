import PhysMem.Proofs.SlotMap
import PhysMem.Swap

/-!
# The swap area — slots that do not overlap

The device computes sector numbers in the 32-bit words of its block. For a slot of the device these
computations are exact, so no two slots share a sector: a transfer reads or writes one sector of its
own slot.

* **`stored`** is what a sector of a slot holds.
* **`Fits`** is what makes the sector numbers exact; every device over a block of 32-bit size fits.
* **`fetch_ok`** and **`store_ok`** are what a transfer does to the slots.
-/

namespace PhysMem

namespace SwapDevice

/-- What sector `i` of a slot holds, if the drive has such a sector. -/
def stored (d : SwapDevice) (slot : Nat) (i : Fin sectorsPerFrame) : Option Sector :=
  d.block.drive.sectors[d.firstSector + slot * sectorsPerFrame + i.val]?

/-- The slots lie within the block, and the block within its sector numbers. -/
structure Fits (d : SwapDevice) : Prop where
  size_lt : d.block.size < Word.span Block.counterBits
  room : ∀ slot, slot < d.slots → d.firstSector + (slot + 1) * sectorsPerFrame ≤ d.block.size

/-- The slots of both devices are the same and lie at the same places. -/
structure SameLayout (d d' : SwapDevice) : Prop where
  slots : d'.slots = d.slots
  firstSector : d'.firstSector = d.firstSector
  size : d'.block.size = d.block.size

theorem SameLayout.refl (d : SwapDevice) : d.SameLayout d := ⟨rfl, rfl, rfl⟩

theorem SameLayout.trans {d d' d'' : SwapDevice} (h : d.SameLayout d') (h' : d'.SameLayout d'') :
    d.SameLayout d'' :=
  ⟨h'.slots.trans h.slots, h'.firstSector.trans h.firstSector, h'.size.trans h.size⟩

theorem Fits.of_layout {d d' : SwapDevice} (hd : d.Fits) (h : d.SameLayout d') : d'.Fits := by
  refine ⟨?_, ?_⟩
  · rw [h.size]
    exact hd.size_lt
  · intro slot hslot
    rw [h.size, h.firstSector]
    exact hd.room slot (h.slots ▸ hslot)

/-- A device over a block whose size is a 32-bit number fits. -/
theorem ofBlock_fits {block : Block} (config : SwapConfig)
    (h : block.size < Word.span Block.counterBits) : (ofBlock block config).Fits := by
  refine ⟨h, ?_⟩
  intro slot hslot
  have hslots : slot < (block.size - config.firstSector) / sectorsPerFrame :=
    Nat.lt_of_lt_of_le hslot (Nat.min_le_right _ _)
  show config.firstSector + (slot + 1) * sectorsPerFrame ≤ block.size
  unfold sectorsPerFrame at hslots ⊢
  omega

/-- The number of a sector of a slot is computed exactly. -/
theorem slotSector_eq {d : SwapDevice} {slot : Nat} (hd : d.Fits) (hslot : slot < d.slots)
    (i : Fin sectorsPerFrame) :
    d.slotSector slot i.val = .ok (d.firstSector + slot * sectorsPerFrame + i.val) := by
  have hroom := hd.room slot hslot
  have hsize := hd.size_lt
  have hi := i.isLt
  have hspan : Word.span Block.counterBits < Word.span Word.bits := by decide
  unfold sectorsPerFrame at hroom hi
  have hoffset : (slot * sectorsPerFrame) % Word.span Block.counterBits =
      slot * sectorsPerFrame := by
    refine Nat.mod_eq_of_lt ?_
    unfold sectorsPerFrame
    omega
  unfold slotSector slotStart
  rw [Word.mul_eq_ok (by unfold sectorsPerFrame; omega)]
  show (Word.add Block.counterBits d.firstSector
    ((slot * sectorsPerFrame) % Word.span Block.counterBits)).bind _ = _
  rw [hoffset, Word.add_eq_ok (by unfold sectorsPerFrame; omega)]
  exact Word.add_eq_ok (by unfold sectorsPerFrame; omega)

/-! ## Transfers -/

theorem Drive.read_ok {drive : Drive} {sector : Nat} {data : Sector}
    (h : (drive.read sector).1 = .ok data) : drive.sectors[sector]? = some data := by
  unfold Drive.read at h
  dsimp only at h
  split at h
  · exact nomatch h
  · cases hs : drive.sectors[sector]? with
    | none =>
        rw [hs] at h
        exact nomatch h
    | some held =>
        rw [hs] at h
        cases h
        rfl

/-- A drive writes the sector it answers for, and no other. -/
theorem Drive.write_spec (drive : Drive) (sector : Nat) (data : Sector) :
    ((drive.write sector data).1 = .ok () ∧ sector < drive.sectors.size ∧
        (drive.write sector data).2.sectors = drive.sectors.setIfInBounds sector data) ∨
      ((∃ e, (drive.write sector data).1 = .error e) ∧
        (drive.write sector data).2.sectors = drive.sectors) := by
  unfold Drive.write
  dsimp only
  split
  · exact Or.inr ⟨⟨_, rfl⟩, rfl⟩
  · split
    · next hlt => exact Or.inl ⟨rfl, hlt, rfl⟩
    · exact Or.inr ⟨⟨_, rfl⟩, rfl⟩

theorem Block.fetch_ok {b b' : Block} {sector : Nat} {answer : Except BlockError Sector}
    (h : b.fetch sector = .ok (answer, b')) :
    b'.size = b.size ∧ b'.drive.sectors = b.drive.sectors ∧
      ∀ data, answer = .ok data → b.drive.sectors[sector]? = some data := by
  unfold Block.fetch at h
  dsimp only at h
  split at h
  · next data hread =>
      obtain ⟨count, -, h⟩ := Fault.bind_eq_ok.mp h
      cases h
      refine ⟨rfl, rfl, ?_⟩
      rintro data' ⟨⟩
      exact Drive.read_ok hread
  · cases h
    exact ⟨rfl, rfl, nofun⟩

theorem Block.store_ok {b b' : Block} {sector : Nat} {data : Sector}
    {answer : Except BlockError Unit} (h : b.store sector data = .ok (answer, b')) :
    b'.size = b.size ∧
      ((answer = .ok () ∧ sector < b.drive.sectors.size ∧
          b'.drive.sectors = b.drive.sectors.setIfInBounds sector data) ∨
        ((∃ e, answer = .error e) ∧ b'.drive.sectors = b.drive.sectors)) := by
  unfold Block.store at h
  dsimp only at h
  rcases Drive.write_spec b.drive sector data with ⟨hok, hlt, hs⟩ | ⟨⟨e, he⟩, hs⟩
  · rw [hok] at h
    obtain ⟨count, -, h⟩ := Fault.bind_eq_ok.mp h
    cases h
    exact ⟨rfl, Or.inl ⟨rfl, hlt, hs⟩⟩
  · rw [he] at h
    cases h
    exact ⟨rfl, Or.inr ⟨⟨e, rfl⟩, hs⟩⟩

/-- Reading changes no slot, and a read that succeeds answers what the sector holds. -/
theorem fetch_ok {d d' : SwapDevice} {slot : Nat} {i : Fin sectorsPerFrame}
    {answer : Except SwapError Sector} (hd : d.Fits) (hslot : slot < d.slots)
    (h : d.fetch slot i.val = .ok (answer, d')) :
    d.SameLayout d' ∧ (∀ x, d'.stored x = d.stored x) ∧
      ∀ data, answer = .ok data → d.stored slot i = some data := by
  obtain ⟨sector, hsector, h⟩ := Fault.bind_eq_ok.mp h
  rw [slotSector_eq hd hslot] at hsector
  cases hsector
  obtain ⟨⟨answer', block⟩, hfetch, h⟩ := Fault.bind_eq_ok.mp h
  cases h
  obtain ⟨hsize, hsectors, hdata⟩ := Block.fetch_ok hfetch
  refine ⟨⟨rfl, rfl, hsize⟩, ?_, ?_⟩
  · intro x
    funext j
    show block.drive.sectors[_]? = d.block.drive.sectors[_]?
    rw [hsectors]
  · intro data he
    cases answer' with
    | error e => exact nomatch he
    | ok data' =>
        cases he
        exact hdata data rfl

/-- Writing changes one sector of one slot, and nothing if it fails. -/
theorem store_ok {d d' : SwapDevice} {slot : Nat} {i : Fin sectorsPerFrame} {data : Sector}
    {answer : Except SwapError Unit} (hd : d.Fits) (hslot : slot < d.slots)
    (h : d.store slot i.val data = .ok (answer, d')) :
    d.SameLayout d' ∧
      (∀ x j, ¬ (x = slot ∧ j = i) → d'.stored x j = d.stored x j) ∧
      (answer = .ok () → d'.stored slot i = some data) ∧
      ((∃ e, answer = .error e) → ∀ x, d'.stored x = d.stored x) := by
  obtain ⟨sector, hsector, h⟩ := Fault.bind_eq_ok.mp h
  rw [slotSector_eq hd hslot] at hsector
  cases hsector
  obtain ⟨⟨answer', block⟩, hstore, h⟩ := Fault.bind_eq_ok.mp h
  cases h
  obtain ⟨hsize, hcase⟩ := Block.store_ok hstore
  refine ⟨⟨rfl, rfl, hsize⟩, ?_⟩
  rcases hcase with ⟨rfl, hlt, hs⟩ | ⟨⟨e, rfl⟩, hs⟩
  · refine ⟨?_, ?_, ?_⟩
    · intro x j hne
      show block.drive.sectors[_]? = d.block.drive.sectors[_]?
      rw [hs]
      refine Array.getElem?_setIfInBounds_ne ?_
      -- eight sectors a slot: equal numbers name the same place of the same slot
      intro he
      have hi := i.isLt
      have hj := j.isLt
      unfold sectorsPerFrame at he hi hj
      dsimp only at he
      exact hne ⟨by omega, Fin.ext (by omega)⟩
    · intro _
      show block.drive.sectors[_]? = some data
      rw [hs]
      exact Array.getElem?_setIfInBounds_self_of_lt hlt
    · rintro ⟨e, he⟩
      exact nomatch he
  · have hsame : ∀ x, ({ d with block } : SwapDevice).stored x = d.stored x := by
      intro x
      funext j
      show block.drive.sectors[_]? = d.block.drive.sectors[_]?
      rw [hs]
    refine ⟨?_, nofun, fun _ => hsame⟩
    intro x j _
    rw [hsame]

end SwapDevice

namespace SwapArea

/-- The slot map agrees with itself and with the device, and the device fits its block. -/
structure Sound (a : SwapArea) : Prop where
  slots : a.slots.Sound
  fits : a.device.Fits
  capacity : a.slots.capacity = a.device.slots

/-- The swap area of a block is sound, and its slots are free. -/
theorem ofBlock_sound {block : Block} (config : SwapConfig)
    (h : block.size < Word.span Block.counterBits) :
    (ofBlock block config).Sound ∧ ∀ x, (ofBlock block config).slots.state? x = none := by
  obtain ⟨hsound, hcap, hfree⟩ := SlotMap.empty_spec (SwapDevice.ofBlock block config).slots
  exact ⟨⟨hsound, SwapDevice.ofBlock_fits config h, hcap⟩, hfree⟩

end SwapArea

end PhysMem
