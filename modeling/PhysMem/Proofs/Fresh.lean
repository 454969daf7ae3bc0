import PhysMem.Memory
import PhysMem.Proofs.SwapArea

/-!
# Fresh memory systems — where runs begin

A fresh memory system has just been built: all frames are free, and so are all slots. Nothing is
assumed of what is in them, of the drive and its faults, or of the pager.

* **`bootstrap_isFresh`** — what the configuration lays out at boot is fresh.
* **`Memory.small`** is a fresh memory system small enough to follow by hand.
-/

namespace PhysMem

namespace Memory

/-- A memory system that nothing has been done with: its coremap was just made and follows a policy,
and its swap area was just laid over a block. -/
structure IsFresh (m : Memory) : Prop where
  coremap : ∃ count base policy, Coremap.create count base (.ofPolicy policy) = .ok m.coremap
  swap : ∃ block config, m.swap = SwapArea.ofBlock block config ∧
    block.size < Word.span Block.counterBits
  ram : m.ram.size = m.coremap.size

theorem IsFresh.area {m : Memory} (h : m.IsFresh) :
    m.swap.Sound ∧ ∀ x, m.swap.slots.state? x = none := by
  obtain ⟨block, config, hswap, hsize⟩ := h.swap
  rw [hswap]
  exact SwapArea.ofBlock_sound config hsize

/-- The slots of a fresh memory system are free, and a word counts them. -/
theorem IsFresh.slots_empty {m : Memory} (h : m.IsFresh) :
    ∃ n, m.swap.slots = .empty n ∧ n < Word.span Word.bits := by
  obtain ⟨block, config, hswap, hsize⟩ := h.swap
  refine ⟨(SwapDevice.ofBlock block config).slots, congrArg SwapArea.slots hswap, ?_⟩
  have hle : (SwapDevice.ofBlock block config).slots ≤ block.size :=
    calc (SwapDevice.ofBlock block config).slots
      _ ≤ (block.size - config.firstSector) / sectorsPerFrame := Nat.min_le_right _ _
      _ ≤ block.size - config.firstSector := Nat.div_le_self _ _
      _ ≤ block.size := Nat.sub_le _ _
  exact Nat.lt_trans (Nat.lt_of_le_of_lt hle hsize) (by decide)

/-- What the machine is built of at boot is fresh. -/
theorem bootstrap_isFresh {config : MemoryConfig} {block : Block} {m : Memory}
    {notices : List Notice} (hsize : block.size < Word.span Block.counterBits)
    (h : bootstrap config block = .ok (.ok (m, notices))) : m.IsFresh := by
  obtain ⟨boot, -, h⟩ := Fault.bind_eq_ok.mp h
  obtain ⟨⟨table, boot'⟩, htable, h⟩ := Fault.bind_eq_ok.mp h
  cases table with
  | error e => cases h
  | ok made =>
      obtain ⟨coremap, said⟩ := made
      cases h
      refine ⟨?_, ⟨block, config.swap, rfl, hsize⟩, Array.size_replicate⟩
      unfold Coremap.bootstrap at htable
      dsimp only at htable
      split at htable
      · cases htable
      · split at htable
        · cases htable
        · split at htable
          · cases htable
          · obtain ⟨coremap', hcreate, htable⟩ := Fault.bind_eq_ok.mp htable
            cases htable
            exact ⟨_, _, _, hcreate⟩

/-- Two frames, and two slots on a disk of sixteen sectors. -/
def small : Memory :=
  create { frames := Array.replicate 2 .free, base := Address.frameSize, placement := .firstFit }
    (SwapArea.ofBlock { kind := .swap, name := "disk", size := 16, drive := .blank 16 } {})

theorem small_isFresh : small.IsFresh :=
  ⟨⟨2, Address.frameSize, .firstFit, rfl⟩, ⟨_, {}, rfl, by decide⟩, Array.size_replicate⟩

end Memory

end PhysMem
