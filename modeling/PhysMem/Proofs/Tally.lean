import PhysMem.Frame.Verify
import PhysMem.Proofs.Roles

/-!
# Tallies — the counters of a coremap and the frames they count

A coremap keeps three counters: of the kernel's frames, of the frames that hold a page, and of those
that are being evicted. Each operation moves the counters by as much as the frames it is about
change their sort, so they always agree with a recount.

* **`Exact`** is a sound coremap whose counters agree with a recount, and whose free frames are
  named by no TLB slot.
* **`Shifts`** says by how much an operation moves the counters; **`countFrames_puts`** and
  **`countFrames_run`** by how much it moves a recount.
* **`Exact.claim`**, **`Exact.detachOldest`**, **`Exact.release`** and those beside them — every
  operation keeps a coremap exact.
-/

namespace PhysMem

namespace Descriptor

/-- A frame of the kernel's. -/
def isKernelFrame (d : Descriptor) : Bool := d.kind? == some .kernel

/-- A frame that holds a page. -/
def isUserFrame (d : Descriptor) : Bool := d.kind? == some .user

/-- A frame that is being evicted. -/
def isVictim (d : Descriptor) : Bool := d.kind? == some .user && d.evicting

end Descriptor

namespace Coremap

/-- The counters agree with a recount. -/
structure Counted (m : Coremap) : Prop where
  kernel : m.countFrames Descriptor.isKernelFrame = m.kernelCount
  user : m.countFrames Descriptor.isUserFrame = m.userCount
  evicting : m.countFrames Descriptor.isVictim = m.evictingCount

/-- A sound coremap whose counters agree with a recount. No TLB slot is known for a free frame. -/
structure Exact (m : Coremap) : Prop extends Sound m where
  counted : m.Counted
  untagged : ∀ (i : Nat) d, m.frames[i]? = some d → d.allocated = false → d.tlbSlot = none

variable {m m' m'' : Coremap} {i x : Nat} {r s : FrameRole} {page : Page}

/-! ## Recounts -/

/-- The uses of all frames, in order. -/
def uses (m : Coremap) : List Descriptor := m.frames.toList.map Descriptor.use

theorem getElem?_uses (m : Coremap) (x : Nat) : m.uses[x]? = m.use? x := by
  unfold uses use?
  rw [List.getElem?_map, Array.getElem?_toList]

theorem length_uses (m : Coremap) : m.uses.length = m.size := by
  unfold uses size
  rw [List.length_map, Array.length_toList]

/-- A recount that reads no more than the use of a frame. -/
theorem countFrames_eq {p : Descriptor → Bool} (hp : ∀ d : Descriptor, p d.use = p d) :
    m.countFrames p = m.uses.countP p := by
  unfold countFrames uses
  rw [List.countP_map, ← Array.countP_toList]
  exact List.countP_congr fun d _ => iff_of_eq (congrArg (· = true) (hp d).symm)

theorem Alike.countFrames {p : Descriptor → Bool} (hp : ∀ d : Descriptor, p d.use = p d)
    (h : m.Alike m') : m'.countFrames p = m.countFrames p := by
  have huses : m'.uses = m.uses := by
    refine List.ext_getElem? fun x => ?_
    rw [getElem?_uses, getElem?_uses, h.use]
  rw [countFrames_eq hp, countFrames_eq hp, huses]

/-- A frame that changes its use moves a recount by what the two uses count for. -/
theorem countFrames_puts {p : Descriptor → Bool} {u v : Descriptor}
    (hp : ∀ d : Descriptor, p d.use = p d) (hv : m.use? i = some v) (h : m.Puts i u m') :
    m'.countFrames p + (p v).toNat = m.countFrames p + (p u).toNat := by
  have hi : i < m.uses.length := by
    rw [length_uses]
    exact lt_size_of_use? hv
  have huses : m'.uses = m.uses.set i u := by
    refine List.ext_getElem? fun x => ?_
    rw [getElem?_uses, h.use, List.getElem?_set, getElem?_uses]
    by_cases hx : x = i
    · rw [if_pos hx, if_pos hx.symm, if_pos hi]
    · rw [if_neg hx, if_neg fun he => hx he.symm]
  have hget : m.uses[i] = v := by
    rw [List.getElem_eq_iff, getElem?_uses, hv]
  have hle := List.boole_getElem_le_countP (p := p) hi
  rw [countFrames_eq hp, countFrames_eq hp, huses, List.countP_set hi]
  rw [hget] at hle ⊢
  cases hpv : p v <;> cases p u <;>
    simp only [hpv, Bool.false_eq_true, reduceIte, Bool.toNat_true, Bool.toNat_false] at hle ⊢ <;>
    omega

/-- A run of frames whose uses all change alike moves a recount by the length of the run. -/
theorem countFrames_run {p : Descriptor → Bool} {b c : Bool} {n : Nat}
    (hp : ∀ d : Descriptor, p d.use = p d) (hsize : m'.size = m.size)
    (hin : ∀ x, i ≤ x → x < i + n →
      ∃ v u, m.use? x = some v ∧ m'.use? x = some u ∧ p v = b ∧ p u = c)
    (hout : ∀ x, ¬ (i ≤ x ∧ x < i + n) → m'.use? x = m.use? x) :
    m'.countFrames p + n * b.toNat = m.countFrames p + n * c.toNat := by
  induction n generalizing m i with
  | zero =>
      have huses : m'.uses = m.uses := by
        refine List.ext_getElem? fun x => ?_
        rw [getElem?_uses, getElem?_uses, hout x (by omega)]
      rw [countFrames_eq hp, countFrames_eq hp, huses, Nat.zero_mul, Nat.zero_mul]
  | succ n ih =>
      obtain ⟨v, u, hv, hu, hpv, hpu⟩ := hin i (Nat.le_refl _) (by omega)
      obtain ⟨d, -, hd⟩ := Option.map_eq_some_iff.mp hu
      -- the first frame of the run changes, and then the others
      have hput : m.Puts i u (m.put i u) := by
        have := put_puts (d := u) (lt_size_of_use? hv)
        rwa [show u.use = u by rw [← hd]; rfl] at this
      have hone := countFrames_puts hp hv hput
      have hrest := ih (m := m.put i u) (i := i + 1) (hsize.trans hput.size.symm) ?_ ?_
      · rw [hpv, hpu] at hone
        rw [Nat.succ_mul, Nat.succ_mul]
        omega
      · intro x hle hlt
        obtain ⟨v', u', hv', hu', hpv', hpu'⟩ := hin x (by omega) (by omega)
        refine ⟨v', u', ?_, hu', hpv', hpu'⟩
        rw [hput.use, if_neg (by omega), hv']
      · intro x hx
        rw [hput.use]
        split
        · next he => rw [he, hu]
        · exact hout x (by omega)

/-- Where a frame of the sort is, there is one to count. -/
theorem countFrames_pos {p : Descriptor → Bool} {u : Descriptor}
    (hp : ∀ d : Descriptor, p d.use = p d) (hu : m.use? i = some u) (h : p u = true) :
    0 < m.countFrames p := by
  rw [countFrames_eq hp, List.countP_pos_iff]
  exact ⟨u, List.mem_of_getElem? ((getElem?_uses m i).trans hu), h⟩

/-! ## How the counters move -/

/-- The counters move by these amounts, and each frame keeps the TLB slot it had as long as it stays
as free or as allocated as it was, or has none. -/
structure Shifts (m m' : Coremap) (kernel user evicting : Int) : Prop where
  kernel : (m'.kernelCount : Int) = m.kernelCount + kernel
  user : (m'.userCount : Int) = m.userCount + user
  evicting : (m'.evictingCount : Int) = m.evictingCount + evicting
  tlb : ∀ (x : Nat) d', m'.frames[x]? = some d' → d'.tlbSlot = none ∨
    ∃ d, m.frames[x]? = some d ∧ d.tlbSlot = d'.tlbSlot ∧ d.allocated = d'.allocated

theorem Shifts.trans {k u e k' u' e' : Int} (h : m.Shifts m' k u e) (h' : m'.Shifts m'' k' u' e') :
    m.Shifts m'' (k + k') (u + u') (e + e') := by
  refine ⟨?_, ?_, ?_, fun x d'' hd'' => ?_⟩
  · rw [h'.kernel, h.kernel, Int.add_assoc]
  · rw [h'.user, h.user, Int.add_assoc]
  · rw [h'.evicting, h.evicting, Int.add_assoc]
  · rcases h'.tlb x d'' hd'' with hnone | ⟨d', hd', htlb', halloc'⟩
    · exact Or.inl hnone
    · rcases h.tlb x d' hd' with hnone | ⟨d, hd, htlb, halloc⟩
      · exact Or.inl (htlb'.symm.trans hnone)
      · exact Or.inr ⟨d, hd, htlb.trans htlb', halloc.trans halloc'⟩

/-- Steps that leave the counters alone, before others. -/
theorem Shifts.after {k u e : Int} (h : m.Shifts m' 0 0 0) (h' : m'.Shifts m'' k u e) :
    m.Shifts m'' k u e := by
  have := h.trans h'
  rwa [Int.zero_add, Int.zero_add, Int.zero_add] at this

/-- Only the counters change, and what has nothing to do with them. -/
theorem shifts_of_frames {k u e : Int} (hf : m'.frames = m.frames)
    (hk : (m'.kernelCount : Int) = m.kernelCount + k) (hu : (m'.userCount : Int) = m.userCount + u)
    (he : (m'.evictingCount : Int) = m.evictingCount + e) : m.Shifts m' k u e := by
  refine ⟨hk, hu, he, fun x d' hd' => Or.inr ⟨d', ?_, rfl, rfl⟩⟩
  rw [← hf]
  exact hd'

/-- The counters stand still. -/
theorem shifts_of_counts (hf : m'.frames = m.frames) (hk : m'.kernelCount = m.kernelCount)
    (hu : m'.userCount = m.userCount) (he : m'.evictingCount = m.evictingCount) :
    m.Shifts m' 0 0 0 := by
  refine shifts_of_frames hf ?_ ?_ ?_ <;> omega

theorem Shifts.refl (m : Coremap) : m.Shifts m 0 0 0 := shifts_of_counts rfl rfl rfl rfl

/-- A descriptor is replaced, by one without a TLB slot or with the same. -/
theorem put_shifts {d e : Descriptor} (hd : m.frame i = .ok d)
    (h : e.tlbSlot = none ∨ d.tlbSlot = e.tlbSlot ∧ d.allocated = e.allocated) :
    m.Shifts (m.put i e) 0 0 0 := by
  refine ⟨(Int.add_zero _).symm, (Int.add_zero _).symm, (Int.add_zero _).symm, fun x d' hd' => ?_⟩
  unfold put at hd'
  by_cases hx : x = i
  · subst hx
    rw [Array.getElem?_setIfInBounds_self_of_lt (lt_size_of_frame hd)] at hd'
    obtain rfl := Option.some.inj hd'
    exact h.imp id fun hsame => ⟨d, frame_ok hd, hsame⟩
  · rw [Array.getElem?_setIfInBounds_ne (Ne.symm hx)] at hd'
    exact Or.inr ⟨d', hd', rfl, rfl⟩

theorem update_shifts {f : Descriptor → Descriptor} (h : m.update i f = .ok m')
    (hf : ∀ d : Descriptor, d.tlbSlot = (f d).tlbSlot ∧ d.allocated = (f d).allocated) :
    m.Shifts m' 0 0 0 := by
  obtain ⟨d, hd, h⟩ := Fault.bind_eq_ok.mp h
  cases h
  exact put_shifts hd (Or.inr (hf d))

theorem pushNewest_shifts (h : m.pushNewest i = .ok m') : m.Shifts m' 0 0 0 := by
  cases pushNewest_cases h with
  | @behind d _ _ hd _ _ hlink =>
      have hput : m.Shifts (m.put i { d with prev := m.newest }) 0 0 0 :=
        put_shifts hd (Or.inr ⟨rfl, rfl⟩)
      have hlink := update_shifts hlink fun _ => ⟨rfl, rfl⟩
      exact hput.after (hlink.after (shifts_of_counts rfl rfl rfl rfl))
  | @alone d hd =>
      have hput : m.Shifts (m.put i { d with prev := m.newest }) 0 0 0 :=
        put_shifts hd (Or.inr ⟨rfl, rfl⟩)
      exact hput.after (shifts_of_counts rfl rfl rfl rfl)

theorem pushOldest_shifts (h : m.pushOldest i = .ok m') : m.Shifts m' 0 0 0 := by
  cases pushOldest_cases h with
  | @before d _ _ hd _ _ hlink =>
      have hput : m.Shifts (m.put i { d with next := m.oldest }) 0 0 0 :=
        put_shifts hd (Or.inr ⟨rfl, rfl⟩)
      have hlink := update_shifts hlink fun _ => ⟨rfl, rfl⟩
      exact hput.after (hlink.after (shifts_of_counts rfl rfl rfl rfl))
  | @alone d hd =>
      have hput : m.Shifts (m.put i { d with next := m.oldest }) 0 0 0 :=
        put_shifts hd (Or.inr ⟨rfl, rfl⟩)
      exact hput.after (shifts_of_counts rfl rfl rfl rfl)

theorem unlink_shifts (h : m.unlink i = .ok m') : m.Shifts m' 0 0 0 := by
  obtain ⟨d, m₁, hd, hprev, hnext⟩ := unlink_steps h
  have hput : m.Shifts (m.put i { d with prev := none, next := none }) 0 0 0 :=
    put_shifts hd (Or.inr ⟨rfl, rfl⟩)
  have h₁ : m.Shifts m₁ 0 0 0 := by
    cases hp : d.prev with
    | some before =>
        rw [hp] at hprev
        exact hput.after (update_shifts hprev fun _ => ⟨rfl, rfl⟩)
    | none =>
        rw [hp] at hprev
        rw [hprev.2]
        exact hput.after (shifts_of_counts rfl rfl rfl rfl)
  cases hn : d.next with
  | some after =>
      rw [hn] at hnext
      exact h₁.after (update_shifts hnext fun _ => ⟨rfl, rfl⟩)
  | none =>
      rw [hn] at hnext
      rw [hnext.2]
      exact h₁.after (shifts_of_counts rfl rfl rfl rfl)

theorem eq_of_sub {a b c : Nat} (h : Word.sub a b = .ok c) : (c : Int) = a - b := by
  unfold Word.sub at h
  split at h
  · cases h
    omega
  · exact nomatch h

theorem eq_of_add {width a b c : Nat} (h : Word.add width a b = .ok c) : (c : Int) = a + b := by
  rw [Word.eq_of_add h]
  exact Int.natCast_add a b

theorem clearUser_shifts (h : m.clearUser i = .ok m') : m.Shifts m' 0 (-1) 0 := by
  obtain ⟨d, count, hd, -, hcount, rfl⟩ := clearUser_eq_ok h
  have hput : m.Shifts (m.put i .free) 0 0 0 := put_shifts hd (Or.inl rfl)
  exact hput.after (shifts_of_frames rfl (Int.add_zero _).symm (eq_of_sub hcount)
    (Int.add_zero _).symm)

theorem unpin_shifts {onChain : Bool} (h : m.unpin i = .ok (onChain, m')) :
    m.Shifts m' 0 (if onChain then 0 else -1) 0 := by
  have unmarked : ∀ {d : Descriptor}, m.frame i = .ok d →
      m.Shifts (m.put i { d with pinned := false }) 0 0 0 :=
    fun hd => put_shifts hd (Or.inr ⟨rfl, rfl⟩)
  cases unpin_cases h with
  | freed hd _ _ hclear => exact (unmarked hd).after (clearUser_shifts hclear)
  | linked hd _ _ hpush => exact (unmarked hd).after (pushNewest_shifts hpush)

theorem discardPinned_shifts (h : m.discardPinned i = .ok m') : m.Shifts m' 0 (-1) 0 := by
  obtain ⟨d, -, -, hclear⟩ := discardPinned_eq_ok h
  exact clearUser_shifts hclear

theorem detachOldest_shifts (h : m.detachOldest = .ok (some (i, page), m')) :
    m.Shifts m' 0 0 1 := by
  cases detachOldest_cases h with
  | @detached _ _ _ m₁ d _ hunlink hd _ hadd =>
      have hput : m₁.Shifts (m₁.put i { d with evicting := true }) 0 0 0 :=
        put_shifts hd (Or.inr ⟨rfl, rfl⟩)
      exact (unlink_shifts hunlink).after (hput.after (shifts_of_frames rfl
        (Int.add_zero _).symm (Int.add_zero _).symm (eq_of_add hadd)))

theorem abortEviction_shifts {onChain : Bool} (h : m.abortEviction i = .ok (onChain, m')) :
    m.Shifts m' 0 (if onChain then 0 else -1) (-1) := by
  have unmarked : ∀ {d : Descriptor} {evictingCount : Nat}, m.frame i = .ok d →
      Word.sub m.evictingCount 1 = .ok evictingCount →
      m.Shifts { m.put i { d with evicting := false } with evictingCount } 0 0 (-1) := by
    intro d evictingCount hd hsub
    have hput : m.Shifts (m.put i { d with evicting := false }) 0 0 0 :=
      put_shifts hd (Or.inr ⟨rfl, rfl⟩)
    exact hput.after (shifts_of_frames rfl (Int.add_zero _).symm (Int.add_zero _).symm
      (eq_of_sub hsub))
  cases abortEviction_cases h with
  | freed hd _ hsub _ hclear => exact (unmarked hd hsub).trans (clearUser_shifts hclear)
  | linked hd _ hsub _ hpush => exact (unmarked hd hsub).trans (pushOldest_shifts hpush)

theorem finishEviction_shifts {orphaned : Bool} (h : m.finishEviction i = .ok (orphaned, m')) :
    m.Shifts m' 0 (-1) (-1) := by
  obtain ⟨d, evictingCount, -, -, -, hsub, hclear⟩ := finishEviction_eq_ok h
  have hless : m.Shifts { m with evictingCount } 0 0 (-1) :=
    shifts_of_frames rfl (Int.add_zero _).symm (Int.add_zero _).symm (eq_of_sub hsub)
  exact hless.trans (clearUser_shifts hclear)

theorem markRun_shifts {owner : FrameOwner} {pinned : Bool} {last n : Nat}
    (h : m.markRun owner pinned last i n = .ok m') : m.Shifts m' 0 0 0 := by
  induction n generalizing m i with
  | zero =>
      cases h
      exact .refl _
  | succ n ih =>
      obtain ⟨d, hd, -, h⟩ := markRun_succ h
      have hput : m.Shifts (m.put i (.claimed owner (i != last) pinned)) 0 0 0 :=
        put_shifts hd (Or.inl rfl)
      exact hput.after (ih h)

/-- By how much a claim that finds room moves the counters. -/
theorem claimRun_shifts {owner : FrameOwner} {count : Nat} {pinned : Bool} {first : Option Nat}
    (h : m.claimRun owner count pinned = .ok (first, m')) :
    m.Shifts m' (if first.isSome ∧ owner.kind = .kernel then count else 0)
      (if first.isSome ∧ owner.kind = .user then count else 0) 0 := by
  have searched : ∀ {placement : Placement}, m.Shifts { m with placement } 0 0 0 :=
    shifts_of_counts rfl rfl rfl rfl
  cases claimRun_cases h with
  | none => exact searched
  | kernel _ _ hmark hadd =>
      refine (searched.after (markRun_shifts hmark)).after ?_
      exact shifts_of_frames rfl (eq_of_add hadd) (Int.add_zero _).symm (Int.add_zero _).symm
  | user _ _ hmark hadd =>
      refine (searched.after (markRun_shifts hmark)).after ?_
      exact shifts_of_frames rfl (Int.add_zero _).symm (eq_of_add hadd) (Int.add_zero _).symm

theorem putFree_shifts (n : Nat) (hn : i + n ≤ m.size) :
    m.Shifts ((List.range' i n).foldl (fun m j => m.put j .free) m) 0 0 0 := by
  induction n generalizing m i with
  | zero => exact .refl m
  | succ n ih =>
      rw [List.range'_succ]
      have hlt : i < m.frames.size := Nat.lt_of_lt_of_le (by omega) hn
      have hd : m.frame i = .ok m.frames[i] := by
        unfold frame
        rw [Array.getElem?_eq_getElem hlt]
      have hput : m.Shifts (m.put i .free) 0 0 0 := put_shifts hd (Or.inl rfl)
      refine hput.after (ih ?_)
      have : (m.put i .free).size = m.size := Array.size_setIfInBounds
      omega

theorem freeRun_shifts {count : Nat} (h : m.freeRun i = .ok (count, m')) :
    m.Shifts m' (-count) 0 0 := by
  obtain ⟨-, hroom, _, kernelCount, rfl, hsub, rfl⟩ := freeRun_eq_ok h
  have hfree := putFree_shifts count hroom
  refine hfree.after (shifts_of_frames rfl ?_ (Int.add_zero _).symm (Int.add_zero _).symm)
  exact eq_of_sub hsub

/-! ## Every operation keeps a coremap exact -/

theorem Shifts.untagged {k u e : Int} (h : m.Shifts m' k u e)
    (hm : ∀ (i : Nat) d, m.frames[i]? = some d → d.allocated = false → d.tlbSlot = none) :
    ∀ (i : Nat) d, m'.frames[i]? = some d → d.allocated = false → d.tlbSlot = none := by
  intro i d hd hfree
  rcases h.tlb i d hd with hnone | ⟨d₀, hd₀, htlb, halloc⟩
  · exact hnone
  · rw [← htlb]
    exact hm i d₀ hd₀ (halloc.trans hfree)

/-- What a role counts for, as a number. -/
def amount (p : Descriptor → Bool) (r : FrameRole) : Int := (p r.use).toNat

/-- One frame changes its role, and the counters move accordingly. -/
theorem Exact.of_puts (hm : m.Exact) (hs : m'.Sound) (hr : m.HasRole i r)
    (hput : m.Puts i s.use m') {k u e : Int} (h : m.Shifts m' k u e)
    (hk : k = amount Descriptor.isKernelFrame s - amount Descriptor.isKernelFrame r)
    (hu : u = amount Descriptor.isUserFrame s - amount Descriptor.isUserFrame r)
    (he : e = amount Descriptor.isVictim s - amount Descriptor.isVictim r) : m'.Exact := by
  have hkernel := countFrames_puts (p := Descriptor.isKernelFrame) (fun _ => rfl) hr hput
  have huser := countFrames_puts (p := Descriptor.isUserFrame) (fun _ => rfl) hr hput
  have hvictim := countFrames_puts (p := Descriptor.isVictim) (fun _ => rfl) hr hput
  have hkc := h.kernel
  have huc := h.user
  have hec := h.evicting
  unfold amount at hk hu he
  rw [← hm.counted.kernel] at hkc
  rw [← hm.counted.user] at huc
  rw [← hm.counted.evicting] at hec
  refine ⟨hs, ⟨?_, ?_, ?_⟩, h.untagged hm.untagged⟩ <;> omega

/-- No frame changes its role. -/
theorem Exact.of_alike (hm : m.Exact) (hs : m'.Sound) (halike : m.Alike m')
    (h : m.Shifts m' 0 0 0) : m'.Exact := by
  have hkc := h.kernel
  have huc := h.user
  have hec := h.evicting
  have hkernel := halike.countFrames (p := Descriptor.isKernelFrame) fun _ => rfl
  have huser := halike.countFrames (p := Descriptor.isUserFrame) fun _ => rfl
  have hvictim := halike.countFrames (p := Descriptor.isVictim) fun _ => rfl
  refine ⟨hs, ⟨?_, ?_, ?_⟩, h.untagged hm.untagged⟩
  · rw [hkernel, hm.counted.kernel]
    omega
  · rw [huser, hm.counted.user]
    omega
  · rw [hvictim, hm.counted.evicting]
    omega

theorem Exact.unpin {onChain : Bool} (hm : m.Exact) (h : m.unpin i = .ok (onChain, m')) :
    m'.Exact := by
  obtain ⟨hs, page, orphaned, hr, rfl, hput⟩ := hm.toSound.unpin h
  cases orphaned <;> exact hm.of_puts hs hr hput (unpin_shifts h) rfl rfl rfl

theorem Exact.discardPinned (hm : m.Exact) (h : m.discardPinned i = .ok m') : m'.Exact := by
  obtain ⟨hs, page, orphaned, hr, hput⟩ := hm.toSound.discardPinned h
  exact hm.of_puts hs hr hput (discardPinned_shifts h) rfl rfl rfl

theorem Exact.detachOldest {victim : Option (Nat × Page)} (hm : m.Exact)
    (h : m.detachOldest = .ok (victim, m')) : m'.Exact := by
  cases victim with
  | none =>
      rw [detachOldest_none h]
      exact hm
  | some found =>
      obtain ⟨hs, hr, hput⟩ := hm.toSound.detachOldest h
      exact hm.of_puts hs hr hput (detachOldest_shifts h) rfl rfl rfl

theorem Exact.abortEviction {onChain : Bool} (hm : m.Exact)
    (h : m.abortEviction i = .ok (onChain, m')) : m'.Exact := by
  obtain ⟨hs, page, orphaned, hr, rfl, hput⟩ := hm.toSound.abortEviction h
  cases orphaned <;> exact hm.of_puts hs hr hput (abortEviction_shifts h) rfl rfl rfl

theorem Exact.finishEviction {orphaned : Bool} (hm : m.Exact)
    (h : m.finishEviction i = .ok (orphaned, m')) : m'.Exact := by
  obtain ⟨hs, page, hr, hput⟩ := hm.toSound.finishEviction h
  exact hm.of_puts hs hr hput (finishEviction_shifts h) rfl rfl rfl

theorem Exact.claimPinned {first : Option Nat} (hm : m.Exact)
    (h : m.claimPinned page = .ok (first, m')) : m'.Exact := by
  have hshifts := claimRun_shifts h
  obtain ⟨hs, ⟨rfl, halike⟩ | ⟨i, rfl, hr, hput⟩⟩ := hm.toSound.claimPinned h
  · exact hm.of_alike hs halike hshifts
  · exact hm.of_puts hs hr hput hshifts rfl rfl rfl

theorem Exact.claim_user {first : Option Nat} (hm : m.Exact)
    (h : m.claim (.user page) 1 = .ok (first, m')) : m'.Exact := by
  have hs := (hm.toSound.claim (Or.inr rfl) h).1
  cases claim_cases h with
  | none hrun =>
      obtain ⟨-, halike⟩ | ⟨i, hsome, -⟩ := hm.toSound.claimRun_user hrun
      · exact hm.of_alike hs halike (claimRun_shifts hrun)
      · exact nomatch hsome
  | user hrun hpush =>
      obtain ⟨hnone, -⟩ | ⟨i, hi, hr, hput⟩ := hm.toSound.claimRun_user hrun
      · exact nomatch hnone
      · cases hi
        exact hm.of_puts hs hr (hput.trans_alike (pushNewest_alike hpush))
          ((claimRun_shifts hrun).trans (pushNewest_shifts hpush)) rfl rfl rfl

/-- A run of frames changes hands between the kernel and nobody. -/
theorem Exact.of_run {n : Nat} {b c : Bool} {k : Int} (hm : m.Exact) (hs : m'.Sound)
    (hsize : m'.size = m.size)
    (hin : ∀ x, i ≤ x → x < i + n → ∃ v u, m.use? x = some v ∧ m'.use? x = some u ∧
      v.isUserFrame = false ∧ u.isUserFrame = false ∧
      v.isKernelFrame = b ∧ u.isKernelFrame = c)
    (hout : ∀ x, ¬ (i ≤ x ∧ x < i + n) → m'.use? x = m.use? x)
    (h : m.Shifts m' k 0 0)
    (hk : k + n * b.toNat = n * c.toNat) : m'.Exact := by
  have hkernel := countFrames_run (p := Descriptor.isKernelFrame) (fun _ => rfl) hsize
    (fun x hle hlt => by
      obtain ⟨v, u, hv, hu, -, -, hv', hu'⟩ := hin x hle hlt
      exact ⟨v, u, hv, hu, hv', hu'⟩) hout
  have huser := countFrames_run (p := Descriptor.isUserFrame) (fun _ => rfl) hsize
    (fun x hle hlt => by
      obtain ⟨v, u, hv, hu, hv', hu', -, -⟩ := hin x hle hlt
      exact ⟨v, u, hv, hu, hv', hu'⟩) hout
  have hvictim := countFrames_run (p := Descriptor.isVictim) (b := false) (c := false)
    (fun _ => rfl) hsize
    (fun x hle hlt => by
      obtain ⟨v, u, hv, hu, hv', hu', -, -⟩ := hin x hle hlt
      exact ⟨v, u, hv, hu, congrArg (· && v.evicting) hv', congrArg (· && u.evicting) hu'⟩) hout
  have hkc := h.kernel
  have huc := h.user
  have hec := h.evicting
  rw [← hm.counted.kernel] at hkc
  rw [← hm.counted.user] at huc
  rw [← hm.counted.evicting] at hec
  refine ⟨hs, ⟨?_, ?_, ?_⟩, h.untagged hm.untagged⟩
  · omega
  · simp only [Bool.toNat_false, Nat.mul_zero] at huser
    omega
  · simp only [Bool.toNat_false, Nat.mul_zero] at hvictim
    omega

theorem Exact.claim_kernel {count : Nat} {first : Option Nat} (hm : m.Exact)
    (h : m.claim .kernel count = .ok (first, m')) : m'.Exact := by
  have hs := (hm.toSound.claim (Or.inl rfl) h).1
  have hclaim : m.claimRun .kernel count false = .ok (first, m') := by
    cases claim_cases h with
    | none hrun | kernel hrun => exact hrun
  have hshifts := claimRun_shifts hclaim
  rcases claimRun_ok hclaim with ⟨rfl, halike⟩ | ⟨start, stop, rfl, hclaims, hstop⟩
  · exact hm.of_alike hs halike hshifts
  · obtain rfl := hstop hm.policy
    refine hm.of_run hs hclaims.size (b := false) (c := true) (i := start) (n := count) ?_ ?_
      hshifts ?_
    · intro x hle hlt
      obtain ⟨v, hv, halloc⟩ := hclaims.free x hle hlt
      obtain ⟨r, hr, rfl⟩ := hm.toSound.hasRole hv
      obtain rfl := FrameRole.of_free halloc
      have hu : m'.use? x = some (.claimed .kernel (x != start + count - 1) false) := by
        rw [hclaims.use, if_pos ⟨hle, hlt⟩]
      exact ⟨_, _, hv, hu, rfl, rfl, rfl, rfl⟩
    · intro x hx
      rw [hclaims.use, if_neg hx]
    · simp [FrameOwner.kind]

theorem Exact.freeRun {count : Nat} {tail : Bool} (hm : m.Exact) (hi : m.HasRole i (.kernel tail))
    (hfirst : m.insideRun i = false) (h : m.freeRun i = .ok (count, m')) : m'.Exact := by
  have hrun := freeRun_ok h
  refine hm.of_run (hm.toSound.freeRun hi hfirst h).1 hrun.size (b := true) (c := false)
    (i := i) (n := count) ?_ ?_ (freeRun_shifts h) ?_
  · intro x hle hlt
    obtain ⟨t, ht⟩ := hm.toSound.freesRun_kernel hi hrun (x - i) (by omega)
    rw [Nat.add_sub_cancel' hle] at ht
    have hu : m'.use? x = some .free := by
      rw [hrun.use, if_pos ⟨hle, hlt⟩]
    exact ⟨_, _, ht, hu, rfl, rfl, rfl, rfl⟩
  · intro x hx
    rw [hrun.use, if_neg hx]
  · simp only [Bool.toNat_true, Bool.toNat_false]
    omega

/-- A resident frame is given up. -/
theorem Exact.unlink_clear {m₁ : Coremap} (hm : m.Exact) (h : m.HasRole i (.resident page))
    (hunlink : m.unlink i = .ok m₁) (hclear : m₁.clearUser i = .ok m') : m'.Exact := by
  obtain ⟨hs, hput⟩ := hm.toSound.unlink_clear h hunlink hclear
  exact hm.of_puts hs h hput ((unlink_shifts hunlink).after (clearUser_shifts hclear)) rfl rfl rfl

/-- A frame in transit is given up. -/
theorem Exact.orphan {d : Descriptor} (hm : m.Exact) (hd : m.frame i = .ok d)
    (htransit : d.inTransit = true) : (m.put i { d with orphaned := true }).Exact := by
  obtain ⟨r, hr, huse⟩ := hm.toSound.hasRole (use?_of_getElem? (frame_ok hd))
  obtain ⟨hs, hput⟩ := hm.toSound.orphan hd hr htransit
  have hin : r.use.inTransit = true := by
    rw [← huse]
    exact htransit
  obtain ⟨pinned, page, orphaned, rfl⟩ := FrameRole.of_inTransit hin
  have hshifts : m.Shifts (m.put i { d with orphaned := true }) 0 0 0 :=
    put_shifts hd (Or.inr ⟨rfl, rfl⟩)
  cases pinned <;> exact hm.of_puts hs hr hput hshifts rfl rfl rfl

theorem Exact.release {answer : Except FrameError Release} (hm : m.Exact)
    (h : m.release i = .ok (answer, m')) : m'.Exact := by
  cases release_cases h with
  | refused => exact hm
  | deferred hd _ _ _ htransit => exact hm.orphan hd htransit
  | user hd _ _ _ hstill huser hunlink hclear =>
      obtain ⟨page, hres⟩ := hm.toSound.resident_of_user hd huser hstill
      exact hm.unlink_clear hres hunlink hclear
  | kernel hd halloc hfirst _ _ hkernel hfree =>
      obtain ⟨tail, ht⟩ := hm.toSound.kernel_of_frame hd halloc hkernel
      exact hm.freeRun ht hfirst hfree

theorem Exact.releaseOne {space : Nat} {isFree : Bool} (hm : m.Exact)
    (h : m.releaseOne space i = .ok (isFree, m')) : m'.Exact := by
  cases releaseOne_cases h with
  | other => exact hm
  | deferred hd _ htransit => exact hm.orphan hd htransit
  | freed hd _ hstill hunlink hclear =>
      obtain ⟨page, hres⟩ := hm.toSound.resident_of_cleared hd hstill hunlink hclear
      exact hm.unlink_clear hres hunlink hclear

theorem Exact.releaseSpace {space n : Nat} (hm : m.Exact)
    (h : m.releaseSpace space = .ok (n, m')) : m'.Exact := by
  refine Sweep.foldlM_range (P := fun _ (t : Nat × Coremap) => t.2.Exact) hm ?_ h
  rintro k ⟨c, t⟩ ⟨c', t'⟩ - ht hone
  obtain ⟨⟨b, v⟩, hv, he⟩ := Fault.bind_eq_ok.mp hone
  cases he
  exact Exact.releaseOne ht hv

theorem Exact.setTlbSlot {slot : Option Nat} {answer : Except FrameError Unit} (hm : m.Exact)
    (h : m.setTlbSlot i slot = .ok (answer, m')) : m'.Exact := by
  have hs := hm.toSound.setTlbSlot h
  have halike := setTlbSlot_alike h
  cases setTlbSlot_cases h with
  | refused => exact hm
  | @set d hd halloc =>
      refine ⟨hs, ⟨?_, ?_, ?_⟩, fun x d' hd' hfree => ?_⟩
      · exact (halike.countFrames fun _ => rfl).trans hm.counted.kernel
      · exact (halike.countFrames fun _ => rfl).trans hm.counted.user
      · exact (halike.countFrames fun _ => rfl).trans hm.counted.evicting
      · unfold put at hd'
        by_cases hx : x = i
        · subst hx
          rw [Array.getElem?_setIfInBounds_self_of_lt (lt_size_of_frame hd)] at hd'
          obtain rfl := Option.some.inj hd'
          exact absurd halloc (Bool.eq_false_iff.mp hfree)
        · rw [Array.getElem?_setIfInBounds_ne (Ne.symm hx)] at hd'
          exact hm.untagged x d' hd' hfree

/-- A new table is exact. -/
theorem create_exact {count base : Nat} {policy : PlacementPolicy}
    (h : create count base (.ofPolicy policy) = .ok m) : m.Exact := by
  have hs := (create_sound h).1
  unfold create at h
  split at h
  · cases h
    refine ⟨hs, ⟨?_, ?_, ?_⟩, fun x d hd _ => ?_⟩
    · simp [countFrames, Descriptor.isKernelFrame, Descriptor.kind?, Descriptor.free]
    · simp [countFrames, Descriptor.isUserFrame, Descriptor.kind?, Descriptor.free]
    · simp [countFrames, Descriptor.isVictim, Descriptor.kind?, Descriptor.free]
    · obtain ⟨hx, hget⟩ := Array.getElem?_eq_some_iff.mp hd
      rw [← hget, Array.getElem_replicate]
      rfl
  · cases h

/-! ## Figures -/

/-- No frame is counted for the kernel and for a page. -/
theorem Counted.le_size (h : m.Counted) : m.kernelCount + m.userCount ≤ m.size := by
  have hapart : m.countFrames Descriptor.isUserFrame ≤
      m.countFrames fun d => decide ¬ d.isKernelFrame = true := by
    refine Array.countP_mono_left fun d _ huser => ?_
    have hkind : d.kind? = some .user := eq_of_beq huser
    unfold Descriptor.isKernelFrame
    rw [hkind]
    rfl
  have hall : m.size = m.countFrames Descriptor.isKernelFrame +
      m.countFrames fun d => decide ¬ d.isKernelFrame = true := Array.size_eq_countP_add_countP
  rw [← h.kernel, ← h.user]
  omega

/-- The figures of an exact coremap can be had. -/
theorem Exact.stats_eq_ok (h : m.Exact) : ∃ s, m.stats = .ok s := by
  have hle := h.counted.le_size
  unfold stats
  rw [Word.sub_eq_ok (show m.kernelCount ≤ m.size by omega)]
  show ∃ s, (Word.sub (m.size - m.kernelCount) m.userCount >>= _) = .ok s
  rw [Word.sub_eq_ok (show m.userCount ≤ m.size - m.kernelCount by omega)]
  exact ⟨_, rfl⟩

end Coremap

end PhysMem
