import Mathlib.Order.Bounds.Basic
import PhysMem.Proofs.Steals

/-!
# Sizing — the coremap manages as many frames as can be

The coremap divides the memory that is left by the bytes of a frame and its descriptor, rounds the
descriptors up to whole frames and takes no more frames than there are behind them. The heart is
that the rounding costs one frame at most (**`wanted_le`**): the count it begins with is the largest
there can be, or one more.

* **`FitsIn`** — so many frames lie in the memory beside the frames of their descriptors.
* **`managed_isGreatest`** — the count that is taken is the largest that fits.
* **`bootstrap_manages_the_most`** is the result: there is a coremap as soon as two frames are left,
  **`LaidOut`** says where everything lies, and no step leaves its word.
-/

namespace PhysMem

open Address

namespace Coremap

variable {n whole : Nat} {boot : BootAllocator}

/-- `n` frames lie in `whole` frames, beside the frames that hold their descriptors. -/
def FitsIn (whole n : Nat) : Prop := n + framesFor (n * descriptorSize) ≤ whole

/-- The frames that the memory would hold if descriptors were not rounded up. -/
def wanted (boot : BootAllocator) : Nat :=
  (boot.stop - boot.nextFree) / (descriptorSize + frameSize)

/-- The frames behind the descriptors, up to those that were wanted. -/
def managed (boot : BootAllocator) : Nat :=
  min (wanted boot) (boot.remaining - framesFor (wanted boot * descriptorSize))

/-- One frame fits into two, and nothing fits into less. -/
theorem two_le_iff : 2 ≤ whole ↔ ∃ n, n ≠ 0 ∧ FitsIn whole n := by
  constructor
  · intro h
    exact ⟨1, by decide, h⟩
  · rintro ⟨n, hn, hfits⟩
    have hone : framesFor descriptorSize ≤ framesFor (n * descriptorSize) :=
      framesFor_mono (Nat.le_mul_of_pos_left _ (Nat.pos_of_ne_zero hn))
    have hkeep : n + framesFor (n * descriptorSize) ≤ whole := hfits
    have hframe : framesFor descriptorSize = 1 := rfl
    omega

/-- No more fits than is wanted. -/
theorem FitsIn.le_wanted (h : FitsIn boot.remaining n) : n ≤ wanted boot := by
  have hhold := le_framesFor_mul (n * descriptorSize)
  simp only [FitsIn, BootAllocator.remaining, wanted, frameSize, descriptorSize] at h hhold ⊢
  omega

/-- **The rounding costs one frame at most.** -/
theorem wanted_le (boot : BootAllocator) :
    wanted boot + framesFor (wanted boot * descriptorSize) ≤ boot.remaining + 1 := by
  have hround := framesFor_mul_lt (wanted boot * descriptorSize)
  have hshare := Nat.div_mul_le_self (boot.stop - boot.nextFree) (descriptorSize + frameSize)
  simp only [BootAllocator.remaining, wanted, frameSize, descriptorSize] at hround hshare ⊢
  omega

/-- The frames for the descriptors are left once a frame is wanted. -/
theorem framesFor_wanted_le (h : wanted boot ≠ 0) :
    framesFor (wanted boot * descriptorSize) ≤ boot.remaining := by
  have hrounding := wanted_le boot
  omega

/-- **The count that is taken is the largest that fits.** -/
theorem managed_isGreatest (h : wanted boot ≠ 0) :
    IsGreatest {n | FitsIn boot.remaining n} (managed boot) := by
  have hrounding := wanted_le boot
  constructor
  · have hdescriptors : framesFor (managed boot * descriptorSize) ≤
        framesFor (wanted boot * descriptorSize) :=
      framesFor_mono (Nat.mul_le_mul_right _ (Nat.min_le_left _ _))
    have hbehind : managed boot ≤ boot.remaining - framesFor (wanted boot * descriptorSize) :=
      Nat.min_le_right _ _
    have hleft := framesFor_wanted_le h
    show managed boot + framesFor (managed boot * descriptorSize) ≤ boot.remaining
    omega
  · intro n hn
    have hle : n ≤ wanted boot := FitsIn.le_wanted hn
    refine Nat.le_min.mpr ⟨hle, ?_⟩
    -- all that is wanted fits, or one frame less is there anyway
    rcases Nat.eq_or_lt_of_le hle with rfl | hlt
    · have hkeep : wanted boot + framesFor (wanted boot * descriptorSize) ≤ boot.remaining := hn
      omega
    · omega

/-- There is a frame to manage exactly when two are left. -/
theorem managed_ne_zero_iff (boot : BootAllocator) :
    wanted boot ≠ 0 ∧ managed boot ≠ 0 ↔ 2 ≤ boot.remaining := by
  rw [two_le_iff]
  constructor
  · rintro ⟨hwanted, hmanaged⟩
    exact ⟨_, hmanaged, (managed_isGreatest hwanted).1⟩
  · rintro ⟨n, hn, hfits⟩
    have hwanted : wanted boot ≠ 0 := by
      have := hfits.le_wanted
      omega
    have hle : n ≤ managed boot := (managed_isGreatest hwanted).2 hfits
    exact ⟨hwanted, by omega⟩

/-- Where a coremap lies that was laid over the memory of `boot`, and what is left `after`. -/
structure LaidOut (boot after : BootAllocator) (m : Coremap) : Prop where
  /-- It manages the most frames that fit. -/
  most : IsGreatest {n | FitsIn boot.remaining n} m.size
  /-- Its descriptors lie in the frames that were stolen for them. -/
  descriptors : boot.nextFree + m.size * descriptorSize ≤ m.base
  /-- The stolen frames end where its own begin. -/
  stolen : after = ⟨m.base, boot.stop⟩
  aligned : isAligned m.base
  inside : m.base + m.size * frameSize ≤ boot.stop
  /-- All its frames are free. -/
  free : ∀ i, i < m.size → m.frames[i]? = some .free

/-- The coremap behind the frames of the descriptors. -/
def behind (boot : BootAllocator) (policy : PlacementPolicy) : Coremap where
  frames := .replicate (managed boot) .free
  base := boot.nextFree + framesFor (wanted boot * descriptorSize) * frameSize
  placement := .ofPolicy policy

theorem behind_size {policy : PlacementPolicy} : (behind boot policy).size = managed boot :=
  Array.size_replicate

theorem behind_laidOut (policy : PlacementPolicy) (haligned : isAligned boot.nextFree)
    (hwanted : wanted boot ≠ 0) (hmanaged : managed boot ≠ 0) :
    LaidOut boot ⟨(behind boot policy).base, boot.stop⟩ (behind boot policy) where
  most := behind_size ▸ managed_isGreatest hwanted
  descriptors := by
    have hhold := le_framesFor_mul (wanted boot * descriptorSize)
    have hle : managed boot * descriptorSize ≤ wanted boot * descriptorSize :=
      Nat.mul_le_mul_right _ (Nat.min_le_left _ _)
    rw [behind_size]
    exact Nat.add_le_add_left (Nat.le_trans hle hhold) _
  stolen := rfl
  aligned := by
    simp only [isAligned, behind, beq_iff_eq] at haligned ⊢
    rw [Nat.add_mul_mod_self_right, haligned]
  inside := by
    have hbehind : managed boot ≤ boot.remaining - framesFor (wanted boot * descriptorSize) :=
      Nat.min_le_right _ _
    rw [behind_size]
    simp only [BootAllocator.remaining, behind, frameSize] at hbehind ⊢
    omega
  free := by
    intro i hi
    rw [behind_size] at hi
    simp [behind, hi]

/-- What the sizing answers once a frame is wanted. -/
theorem bootstrap_eq {policy : PlacementPolicy} (haligned : isAligned boot.nextFree)
    (hwanted : wanted boot ≠ 0)
    (hsteal : boot.steal (framesFor (wanted boot * descriptorSize)) = (.ok boot.nextFree,
      ⟨(behind boot policy).base, boot.stop⟩)) :
    bootstrap boot policy =
      .ok (if managed boot = 0 then .error .bootstrapExhausted
        else .ok (behind boot policy, [.tableReady (managed boot) (behind boot policy).base
          ((behind boot policy).base + managed boot * frameSize) (managed boot * descriptorSize)
          boot.nextFree]),
        ⟨(behind boot policy).base, boot.stop⟩) := by
  have hcount : min (wanted boot) (BootAllocator.remaining ⟨(behind boot policy).base, boot.stop⟩) =
      managed boot :=
    congrArg (min (wanted boot)) (BootAllocator.remaining_behind (framesFor_wanted_le hwanted))
  simp only [wanted] at hwanted hsteal hcount
  simp only [bootstrap, if_neg hwanted, hsteal, hcount]
  by_cases hmanaged : managed boot = 0
  · rw [if_pos hmanaged, if_pos hmanaged]
  · have hcreate : create (managed boot) (behind boot policy).base (.ofPolicy policy) =
        .ok (behind boot policy) :=
      if_pos (behind_laidOut policy haligned hwanted hmanaged).aligned
    rw [if_neg hmanaged, if_neg hmanaged, hcreate]
    rfl

/-- **A coremap manages the most frames that its memory can hold.** The sizing meets no fault, and
no sum or product leaves its word. It ends well exactly when two whole frames are left, and it fails
for want of memory only. The steal does not fail once a frame is wanted. -/
theorem bootstrap_manages_the_most (boot : BootAllocator) (policy : PlacementPolicy)
    (haligned : isAligned boot.nextFree) (hstop : boot.stop < Word.span Word.bits) :
    ∃ result after, bootstrap boot policy = .ok (result, after) ∧
      ((∃ made, result = .ok made) ↔ 2 ≤ boot.remaining) ∧
      (∀ e, result = .error e → e = .bootstrapExhausted) ∧
      (∀ m notices, result = .ok (m, notices) → LaidOut boot after m ∧
        m.base + m.size * frameSize < Word.span Word.bits ∧
        notices = [.tableReady m.size m.base (m.base + m.size * frameSize)
          (m.size * descriptorSize) boot.nextFree]) ∧
      wanted boot * descriptorSize < Word.span Word.bits ∧
      (wanted boot ≠ 0 →
        boot.steal (framesFor (wanted boot * descriptorSize)) = (.ok boot.nextFree, after) ∧
        after.nextFree < Word.span Word.bits) := by
  have hword : wanted boot * descriptorSize < Word.span Word.bits := by
    have hshare := Nat.div_mul_le_self (boot.stop - boot.nextFree) (descriptorSize + frameSize)
    simp only [wanted, descriptorSize, frameSize] at hshare ⊢
    omega
  have htwo := managed_ne_zero_iff boot
  by_cases hwanted : wanted boot = 0
  · refine ⟨.error .bootstrapExhausted, boot, if_pos hwanted, ?_, ?_, ?_, hword, ?_⟩
    · simpa [hwanted] using htwo
    · rintro e ⟨⟩
      rfl
    · rintro m notices ⟨⟩
    · exact fun h => absurd hwanted h
  have hleft := framesFor_wanted_le hwanted
  have hsome : framesFor (wanted boot * descriptorSize) ≠ 0 := by
    have hhold := le_framesFor_mul (wanted boot * descriptorSize)
    simp only [descriptorSize, frameSize] at hhold ⊢
    omega
  have hsteal := BootAllocator.steal_eq hleft hsome hstop
  have hbase : (behind boot policy).base < Word.span Word.bits :=
    Nat.lt_of_le_of_lt (BootAllocator.le_stop hleft hsome) hstop
  refine ⟨_, _, bootstrap_eq haligned hwanted hsteal, ?_, ?_, ?_, hword, fun _ => ⟨hsteal, hbase⟩⟩
  · rw [← htwo]
    by_cases hmanaged : managed boot = 0 <;> simp [hwanted, hmanaged]
  · intro e he
    by_cases hmanaged : managed boot = 0
    · rw [if_pos hmanaged] at he
      cases he
      rfl
    · rw [if_neg hmanaged] at he
      cases he
  · intro m notices h
    by_cases hmanaged : managed boot = 0
    · rw [if_pos hmanaged] at h
      cases h
    · rw [if_neg hmanaged] at h
      cases h
      have hlaid := behind_laidOut policy haligned hwanted hmanaged
      refine ⟨hlaid, Nat.lt_of_le_of_lt hlaid.inside hstop, ?_⟩
      rw [behind_size]

/-- Two frames, and an end inside a third, are enough for a coremap of one frame. -/
theorem bootstrap_manages_one :
    (isAligned 4096 ∧ 12300 < Word.span Word.bits) ∧
      ∃ m notices after, bootstrap ⟨4096, 12300⟩ .nextFit = .ok (.ok (m, notices), after) ∧
        m.size = 1 := by
  refine ⟨by decide, ?_⟩
  obtain ⟨result, after, heq, hok, -, hmade, -, -⟩ :=
    bootstrap_manages_the_most ⟨4096, 12300⟩ .nextFit (by decide) (by decide)
  obtain ⟨⟨m, notices⟩, rfl⟩ := hok.mpr (by decide)
  have hmost := (hmade m notices rfl).1.most
  exact ⟨m, notices, after, heq, hmost.unique (managed_isGreatest (by decide))⟩

end Coremap

end PhysMem
