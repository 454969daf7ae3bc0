import PhysMem.Proofs.Outcomes
import PhysMem.Proofs.Sweep

/-!
# What frames are used for

The use of a frame is its descriptor without its place on the chain and in the TLB. The operations
of the coremap that link and unlink frames leave every use alone, so each claim, eviction and
release comes down to the frames whose use it changes.

* **`use?`** is the view of one frame, **`Alike`** and **`Puts`** say that no use changes or one.
* **`claimRun_ok`**, **`detachOldest_ok`**, **`abortEviction_ok`** and the lemmas beside them are what
  the operations do to the view.
* **`releaseSpace_ok`** treats all frames alike, as **`gaveUp`** says.
-/

namespace PhysMem

/-- The descriptor without its place on the chain and in the TLB. -/
def Descriptor.use (d : Descriptor) : Descriptor :=
  { d with prev := none, next := none, tlbSlot := none }

/-- A placement that follows a policy chooses as many frames as were asked for. -/
def Placement.IsPolicy : Placement → Prop
  | .firstFit | .nextFit _ => True
  | .listed _ => False

namespace Coremap

/-- What frame `i` is used for, if there is such a frame. -/
def use? (m : Coremap) (i : Nat) : Option Descriptor := (m.frames[i]?).map Descriptor.use

/-- Both coremaps have the same frames at the same addresses. -/
structure SameTable (m m' : Coremap) : Prop where
  size : m'.size = m.size
  base : m'.base = m.base
  policy : m.placement.IsPolicy → m'.placement.IsPolicy

/-- Every frame has the use it had. -/
structure Alike (m m' : Coremap) : Prop extends SameTable m m' where
  use : ∀ x, m'.use? x = m.use? x

/-- Frame `i` takes the use `u`, and every other frame keeps its own. -/
structure Puts (m : Coremap) (i : Nat) (u : Descriptor) (m' : Coremap) : Prop
    extends SameTable m m' where
  use : ∀ x, m'.use? x = if x = i then some u else m.use? x

variable {m m' m'' : Coremap} {i : Nat} {d u : Descriptor}

theorem SameTable.refl (m : Coremap) : m.SameTable m := ⟨rfl, rfl, fun h => h⟩

theorem SameTable.trans (h : m.SameTable m') (h' : m'.SameTable m'') : m.SameTable m'' :=
  ⟨h'.size.trans h.size, h'.base.trans h.base, fun hp => h'.policy (h.policy hp)⟩

theorem Alike.refl (m : Coremap) : m.Alike m := ⟨.refl m, fun _ => rfl⟩

theorem Alike.trans (h : m.Alike m') (h' : m'.Alike m'') : m.Alike m'' :=
  ⟨h.toSameTable.trans h'.toSameTable, fun x => (h'.use x).trans (h.use x)⟩

theorem Puts.trans_alike (h : m.Puts i u m') (h' : m'.Alike m'') : m.Puts i u m'' :=
  ⟨h.toSameTable.trans h'.toSameTable, fun x => (h'.use x).trans (h.use x)⟩

theorem Alike.trans_puts (h : m.Alike m') (h' : m'.Puts i u m'') : m.Puts i u m'' := by
  refine ⟨h.toSameTable.trans h'.toSameTable, fun x => ?_⟩
  rw [h'.use, h.use]

/-- The later of two changes of one frame counts. -/
theorem Puts.trans {v : Descriptor} (h : m.Puts i u m') (h' : m'.Puts i v m'') :
    m.Puts i v m'' := by
  refine ⟨h.toSameTable.trans h'.toSameTable, fun x => ?_⟩
  rw [h'.use, h.use]
  split <;> rfl

/-! ## Addresses -/

/-- A frame is found again at its address. -/
theorem indexOf?_of_addressOf {address : Nat}
    (h : m.addressOf i = .ok address) : m.indexOf? address = some i := by
  unfold addressOf at h
  split at h
  · next hi =>
      obtain ⟨offset, hoffset, h⟩ := Fault.bind_eq_ok.mp h
      have ho : offset = i * Address.frameSize := Word.eq_of_mul hoffset
      have ha : address = m.base + offset := Word.eq_of_add h
      have hsub : address - m.base = i * Address.frameSize := by omega
      have hquot : i * Address.frameSize / Address.frameSize = i :=
        Nat.mul_div_cancel i (by decide)
      have haligned : Address.isAligned (address - m.base) = true := by
        unfold Address.isAligned
        rw [hsub, Nat.mul_mod_left]
        rfl
      unfold indexOf?
      rw [if_pos ⟨by omega, haligned⟩, hsub, hquot, if_pos hi]
  · exact nomatch h

/-- What is found at an address is a frame of the table. -/
theorem lt_size_of_indexOf? {address : Nat} (h : m.indexOf? address = some i) : i < m.size := by
  unfold indexOf? at h
  split at h
  · dsimp only at h
    split at h
    · next hlt =>
        cases h
        exact hlt
    · exact nomatch h
  · exact nomatch h

/-- The same frames are found at the same addresses. -/
theorem SameTable.indexOf? (h : m.SameTable m') (address : Nat) :
    m'.indexOf? address = m.indexOf? address := by
  unfold Coremap.indexOf?
  rw [h.base, h.size]

/-! ## Single descriptors -/

theorem frame_ok (h : m.frame i = .ok d) : m.frames[i]? = some d := by
  unfold frame at h
  split at h
  · next hd =>
      cases h
      exact hd
  · exact nomatch h

theorem use?_of_getElem? (h : m.frames[i]? = some d) : m.use? i = some d.use := by
  unfold use?
  rw [h]
  rfl

theorem lt_size_of_use? (h : m.use? i = some u) : i < m.size := by
  unfold use? at h
  obtain ⟨d, hd, -⟩ := Option.map_eq_some_iff.mp h
  exact (Array.getElem?_eq_some_iff.mp hd).1

theorem put_puts (hi : i < m.size) : m.Puts i d.use (m.put i d) := by
  refine ⟨⟨Array.size_setIfInBounds, rfl, fun h => h⟩, fun x => ?_⟩
  unfold use? put
  by_cases hx : x = i
  · subst hx
    rw [if_pos rfl, Array.getElem?_setIfInBounds_self_of_lt hi]
    rfl
  · rw [if_neg hx, Array.getElem?_setIfInBounds_ne (Ne.symm hx)]

theorem lt_size_of_frame (h : m.frame i = .ok d) : i < m.size :=
  (Array.getElem?_eq_some_iff.mp (frame_ok h)).1

/-- A descriptor replaced by one of the same use changes no use. -/
theorem put_alike {d' : Descriptor} (h : m.frame i = .ok d) (hd : d'.use = d.use) :
    m.Alike (m.put i d') := by
  have hput : m.Puts i d'.use (m.put i d') := put_puts (lt_size_of_frame h)
  refine ⟨hput.toSameTable, fun x => ?_⟩
  rw [hput.use]
  split
  · next hx => rw [hx, use?_of_getElem? (frame_ok h), hd]
  · rfl

theorem update_alike {f : Descriptor → Descriptor} (h : m.update i f = .ok m')
    (hf : ∀ d, (f d).use = d.use) : m.Alike m' := by
  obtain ⟨d, hd, h⟩ := Fault.bind_eq_ok.mp h
  cases h
  exact put_alike hd (hf d)

/-- A coremap that differs in its ends, its counts and its placement has the same uses. -/
theorem alike_of_frames (hf : m'.frames = m.frames) (hb : m'.base = m.base)
    (hp : m'.placement = m.placement) : m.Alike m' := by
  refine ⟨⟨?_, hb, fun h => hp ▸ h⟩, fun x => ?_⟩
  · unfold size
    rw [hf]
  · unfold use?
    rw [hf]

/-! ## The chain -/

theorem pushNewest_alike (h : m.pushNewest i = .ok m') : m.Alike m' := by
  cases pushNewest_cases h with
  | @behind d _ _ hd _ _ hlink =>
      have hput : m.Alike (m.put i { d with prev := m.newest }) := put_alike hd rfl
      exact (hput.trans (update_alike hlink fun _ => rfl)).trans (alike_of_frames rfl rfl rfl)
  | @alone d hd =>
      have hput : m.Alike (m.put i { d with prev := m.newest }) := put_alike hd rfl
      exact hput.trans (alike_of_frames rfl rfl rfl)

theorem pushOldest_alike (h : m.pushOldest i = .ok m') : m.Alike m' := by
  cases pushOldest_cases h with
  | @before d _ _ hd _ _ hlink =>
      have hput : m.Alike (m.put i { d with next := m.oldest }) := put_alike hd rfl
      exact (hput.trans (update_alike hlink fun _ => rfl)).trans (alike_of_frames rfl rfl rfl)
  | @alone d hd =>
      have hput : m.Alike (m.put i { d with next := m.oldest }) := put_alike hd rfl
      exact hput.trans (alike_of_frames rfl rfl rfl)

theorem unlink_alike (h : m.unlink i = .ok m') : m.Alike m' := by
  obtain ⟨d, m₁, hd, hprev, hnext⟩ := unlink_steps h
  have hput : m.Alike (m.put i { d with prev := none, next := none }) := put_alike hd rfl
  have h₁ : m.Alike m₁ := by
    cases hp : d.prev with
    | some before =>
        rw [hp] at hprev
        exact hput.trans (update_alike hprev fun _ => rfl)
    | none =>
        rw [hp] at hprev
        rw [hprev.2]
        exact hput.trans (alike_of_frames rfl rfl rfl)
  cases hn : d.next with
  | some after =>
      rw [hn] at hnext
      exact h₁.trans (update_alike hnext fun _ => rfl)
  | none =>
      rw [hn] at hnext
      rw [hnext.2]
      exact h₁.trans (alike_of_frames rfl rfl rfl)

/-! ## Evictions and pins -/

/-- Only a user frame is cleared as one, and it is free afterwards. -/
theorem clearUser_ok (h : m.clearUser i = .ok m') :
    (∃ u, m.use? i = some u ∧ u.allocated = true ∧ u.isUser = true) ∧ m.Puts i .free m' := by
  obtain ⟨d, count, hd, hkind, -, rfl⟩ := clearUser_eq_ok h
  refine ⟨⟨d.use, use?_of_getElem? (frame_ok hd), ?_⟩, ?_⟩
  · unfold Descriptor.kind? at hkind
    show d.allocated = true ∧ d.isUser = true
    cases ha : d.allocated <;> cases hu : d.isUser <;> simp [ha, hu] at hkind ⊢
  · have hput : m.Puts i Descriptor.free.use (m.put i .free) := put_puts (lt_size_of_frame hd)
    exact hput.trans_alike (alike_of_frames rfl rfl rfl)

/-- Changing the flags of a frame changes its use and no other. -/
theorem put_frame {d' : Descriptor} (h : m.frame i = .ok d) :
    m.Puts i d'.use (m.put i d') := put_puts (lt_size_of_frame h)

/-- A pinned frame is unpinned, and freed if it was orphaned. -/
theorem unpin_ok {onChain : Bool} (h : m.unpin i = .ok (onChain, m')) :
    ∃ u, m.use? i = some u ∧ u.pinned = true ∧ onChain = !u.orphaned ∧
      m.Puts i (if u.orphaned then .free else { u with pinned := false }) m' := by
  cases unpin_cases h with
  | @freed d _ hd hpin ho hclear =>
      have ho : d.use.orphaned = true := ho
      refine ⟨d.use, use?_of_getElem? (frame_ok hd), hpin, (congrArg (!·) ho).symm, ?_⟩
      rw [if_pos ho]
      exact (put_frame hd).trans (clearUser_ok hclear).2
  | @linked d _ hd hpin ho hpush =>
      have ho : d.use.orphaned = false := ho
      refine ⟨d.use, use?_of_getElem? (frame_ok hd), hpin, (congrArg (!·) ho).symm, ?_⟩
      rw [if_neg (Bool.eq_false_iff.mp ho)]
      have hput : m.Puts i ({ d with pinned := false } : Descriptor).use (m.put i _) :=
        put_frame hd
      exact hput.trans_alike (pushNewest_alike hpush)

theorem discardPinned_ok (h : m.discardPinned i = .ok m') :
    (∃ u, m.use? i = some u ∧ u.pinned = true) ∧ m.Puts i .free m' := by
  obtain ⟨d, hd, hpin, hclear⟩ := discardPinned_eq_ok h
  exact ⟨⟨d.use, use?_of_getElem? (frame_ok hd), hpin⟩, (clearUser_ok hclear).2⟩

theorem detachOldest_none (h : m.detachOldest = .ok (none, m')) : m' = m := by
  cases detachOldest_cases h with
  | none => rfl

/-- The oldest frame of the chain is marked evicting. -/
theorem detachOldest_ok {page : Page} (h : m.detachOldest = .ok (some (i, page), m')) :
    m.oldest = some i ∧
      ∃ u, m.use? i = some u ∧ u.page = some page ∧ m.Puts i { u with evicting := true } m' := by
  cases detachOldest_cases h with
  | @detached _ _ _ m₁ d holdest hunlink hd hpage _ =>
      have hlink := unlink_alike hunlink
      refine ⟨holdest, d.use, ?_, hpage, ?_⟩
      · rw [← hlink.use]
        exact use?_of_getElem? (frame_ok hd)
      · have hput : m₁.Puts i ({ d with evicting := true } : Descriptor).use (m₁.put i _) :=
          put_frame hd
        exact hlink.trans_puts (hput.trans_alike (alike_of_frames rfl rfl rfl))

/-- An eviction given up: the frame is resident again, or free if it was orphaned. -/
theorem abortEviction_ok {onChain : Bool} (h : m.abortEviction i = .ok (onChain, m')) :
    ∃ u, m.use? i = some u ∧ u.evicting = true ∧ onChain = !u.orphaned ∧
      m.Puts i (if u.orphaned then .free else { u with evicting := false }) m' := by
  have unmarked : ∀ {d : Descriptor} {evictingCount : Nat}, m.frame i = .ok d →
      m.Puts i ({ d with evicting := false } : Descriptor).use
        { m.put i { d with evicting := false } with evictingCount } :=
    fun hd => (put_frame hd).trans_alike (alike_of_frames rfl rfl rfl)
  cases abortEviction_cases h with
  | @freed d _ _ hd hevict _ ho hclear =>
      have ho : d.use.orphaned = true := ho
      refine ⟨d.use, use?_of_getElem? (frame_ok hd), hevict, (congrArg (!·) ho).symm, ?_⟩
      rw [if_pos ho]
      exact (unmarked hd).trans (clearUser_ok hclear).2
  | @linked d _ _ hd hevict _ ho hpush =>
      have ho : d.use.orphaned = false := ho
      refine ⟨d.use, use?_of_getElem? (frame_ok hd), hevict, (congrArg (!·) ho).symm, ?_⟩
      rw [if_neg (Bool.eq_false_iff.mp ho)]
      exact (unmarked hd).trans_alike (pushOldest_alike hpush)

theorem finishEviction_ok {orphaned : Bool} (h : m.finishEviction i = .ok (orphaned, m')) :
    (∃ u, m.use? i = some u ∧ u.evicting = true ∧ orphaned = u.orphaned) ∧ m.Puts i .free m' := by
  obtain ⟨d, evictingCount, hd, hevict, horphaned, -, hclear⟩ := finishEviction_eq_ok h
  have hcount : m.Alike { m with evictingCount } := alike_of_frames rfl rfl rfl
  exact ⟨⟨d.use, use?_of_getElem? (frame_ok hd), hevict, horphaned⟩,
    hcount.trans_puts (clearUser_ok hclear).2⟩

/-! ## Claims -/

/-- The frames from `start` up to `stop` were free and are claimed for `owner`, all but the last
followed by another of their run. No other frame changes its use. -/
structure Claims (m : Coremap) (owner : FrameOwner) (pinned : Bool) (start stop : Nat)
    (m' : Coremap) : Prop extends SameTable m m' where
  free : ∀ x, start ≤ x → x < stop → ∃ u, m.use? x = some u ∧ u.allocated = false
  use : ∀ x, m'.use? x =
    if start ≤ x ∧ x < stop then some (.claimed owner (x != stop - 1) pinned) else m.use? x

theorem claimed_use (owner : FrameOwner) (tail pinned : Bool) :
    (Descriptor.claimed owner tail pinned).use = .claimed owner tail pinned := rfl

/-- A run of policy chooses as many frames as it is asked for. -/
theorem place_policy {frames : Array Descriptor} {count : Nat} {pl pl' : Placement}
    {range : Option (Nat × Nat)} (h : pl.place frames count = .ok (range, pl'))
    (hp : pl.IsPolicy) :
    pl'.IsPolicy ∧ ∀ start stop, range = some (start, stop) → stop = start + count := by
  have hrange : ∀ (found : Option Nat) start stop,
      found.map (fun a => (a, a + count)) = some (start, stop) → stop = start + count := by
    rintro (_ | a) start stop he
    · exact nomatch he
    · cases he
      rfl
  cases pl with
  | listed ranges => exact hp.elim
  | firstFit =>
      simp only [Placement.place] at h
      obtain ⟨found, -, h⟩ := Fault.bind_eq_ok.mp h
      cases h
      exact ⟨trivial, hrange found⟩
  | nextFit position =>
      simp only [Placement.place] at h
      split at h
      · cases h
        exact ⟨trivial, nofun⟩
      · obtain ⟨ahead, -, h⟩ := Fault.bind_eq_ok.mp h
        cases ahead with
        | some start =>
            cases h
            exact ⟨trivial, hrange (some start)⟩
        | none =>
            obtain ⟨found, -, h⟩ := Fault.bind_eq_ok.mp h
            cases found with
            | some start =>
                cases h
                exact ⟨trivial, hrange (some start)⟩
            | none =>
                cases h
                exact ⟨trivial, nofun⟩

/-- Marking a run claims its frames, whatever the last one is called. -/
theorem markRun_ok {owner : FrameOwner} {pinned : Bool} {last n : Nat}
    (h : m.markRun owner pinned last i n = .ok m') :
    m.SameTable m' ∧ (∀ x, i ≤ x → x < i + n → ∃ u, m.use? x = some u ∧ u.allocated = false) ∧
      ∀ x, m'.use? x =
        if i ≤ x ∧ x < i + n then some (.claimed owner (x != last) pinned) else m.use? x := by
  induction n generalizing m i with
  | zero =>
      cases h
      refine ⟨.refl _, ?_, ?_⟩
      · intro x hle hlt
        omega
      · intro x
        rw [if_neg (by omega)]
  | succ n ih =>
      obtain ⟨d, hd, hfree, h⟩ := markRun_succ h
      have hput : m.Puts i (Descriptor.claimed owner (i != last) pinned).use
          (m.put i (.claimed owner (i != last) pinned)) := put_frame hd
      rw [claimed_use] at hput
      obtain ⟨htable, hall, huse⟩ := ih h
      refine ⟨hput.toSameTable.trans htable, ?_, ?_⟩
      · intro x hle hlt
        by_cases hx : x = i
        · subst hx
          exact ⟨d.use, use?_of_getElem? (frame_ok hd), hfree⟩
        · obtain ⟨u, hu, ha⟩ := hall x (by omega) (by omega)
          rw [hput.use, if_neg hx] at hu
          exact ⟨u, hu, ha⟩
      · intro x
        rw [huse, hput.use]
        by_cases hx : x = i
        · subst hx
          rw [if_neg (by omega), if_pos rfl, if_pos (by omega)]
        · rw [if_neg hx]
          by_cases hin : i + 1 ≤ x ∧ x < i + 1 + n
          · rw [if_pos hin, if_pos (by omega)]
          · rw [if_neg hin, if_neg (by omega)]

/-- Marking the frames of a range claims them. -/
theorem markRun_claims {owner : FrameOwner} {pinned : Bool} {start stop last : Nat}
    (hlast : Word.sub stop 1 = .ok last)
    (h : m.markRun owner pinned last start (stop - start) = .ok m') :
    m.Claims owner pinned start stop m' := by
  obtain ⟨htable, hfree, huse⟩ := markRun_ok h
  obtain ⟨hpos, rfl⟩ : 1 ≤ stop ∧ last = stop - 1 := by
    unfold Word.sub at hlast
    split at hlast
    · next hle =>
        cases hlast
        exact ⟨hle, rfl⟩
    · exact nomatch hlast
  refine ⟨htable, fun x hle hlt => hfree x hle (by omega), fun x => ?_⟩
  rw [huse]
  by_cases hin : start ≤ x ∧ x < stop
  · rw [if_pos hin, if_pos (by omega)]
  · rw [if_neg hin, if_neg (by omega)]

theorem Claims.trans_alike {owner : FrameOwner} {pinned : Bool} {start stop : Nat}
    (h : m.Claims owner pinned start stop m') (h' : m'.Alike m'') :
    m.Claims owner pinned start stop m'' :=
  ⟨h.toSameTable.trans h'.toSameTable, h.free, fun x => (h'.use x).trans (h.use x)⟩

theorem Alike.trans_claims {owner : FrameOwner} {pinned : Bool} {start stop : Nat}
    (h : m.Alike m') (h' : m'.Claims owner pinned start stop m'') :
    m.Claims owner pinned start stop m'' := by
  refine ⟨h.toSameTable.trans h'.toSameTable, fun x hle hlt => ?_, fun x => ?_⟩
  · rw [← h.use]
    exact h'.free x hle hlt
  · rw [h'.use, h.use]

theorem claimRun_ok {owner : FrameOwner} {count : Nat} {pinned : Bool} {first : Option Nat}
    (h : m.claimRun owner count pinned = .ok (first, m')) :
    (first = none ∧ m.Alike m') ∨
      ∃ start stop, first = some start ∧ m.Claims owner pinned start stop m' ∧
        (m.placement.IsPolicy → stop = start + count) := by
  have searched : ∀ {placement : Placement} {range : Option (Nat × Nat)},
      m.placement.place m.frames count = .ok (range, placement) →
      m.Alike { m with placement } :=
    fun hplace => ⟨⟨rfl, rfl, fun hp => (place_policy hplace hp).1⟩, fun _ => rfl⟩
  cases claimRun_cases h with
  | none _ hplace => exact Or.inl ⟨rfl, searched hplace⟩
  | @kernel start stop _ _ _ _ hplace hlast hmark _
  | @user _ start stop _ _ _ _ hplace hlast hmark _ =>
      refine Or.inr ⟨start, stop, rfl, ?_, fun hp => (place_policy hplace hp).2 start stop rfl⟩
      have hclaims := markRun_claims hlast hmark
      exact ((searched hplace).trans_claims hclaims).trans_alike (alike_of_frames rfl rfl rfl)

/-- A user frame that is claimed also joins the chain, which changes no use. -/
theorem claim_ok {owner : FrameOwner} {count : Nat} {first : Option Nat}
    (h : m.claim owner count = .ok (first, m')) :
    (first = none ∧ m.Alike m') ∨
      ∃ start stop, first = some start ∧ m.Claims owner false start stop m' ∧
        (m.placement.IsPolicy → stop = start + count) := by
  cases claim_cases h with
  | none hrun | kernel hrun => exact claimRun_ok hrun
  | user hrun hpush =>
      rcases claimRun_ok hrun with ⟨hnone, -⟩ | ⟨start, stop, hstart, hclaims, hstop⟩
      · exact nomatch hnone
      · exact Or.inr ⟨start, stop, hstart, hclaims.trans_alike (pushNewest_alike hpush), hstop⟩

/-! ## Releases -/

/-- The run of `count` frames from `i` on is freed: all of it but its last frame was followed by
another of the run. -/
structure FreesRun (m : Coremap) (i count : Nat) (m' : Coremap) : Prop extends SameTable m m' where
  use : ∀ x, m'.use? x = if i ≤ x ∧ x < i + count then some .free else m.use? x
  tail : ∀ x, i ≤ x → x + 1 < i + count → ∃ u, m.use? x = some u ∧ u.tail = true
  last : ∀ x, x + 1 = i + count → ∃ u, m.use? x = some u ∧ u.tail = false

theorem takeWhile_length {α : Type} (p : α → Bool) (l : List α) :
    (∀ k, k < (l.takeWhile p).length → ∃ a, l[k]? = some a ∧ p a = true) ∧
      ∀ a, l[(l.takeWhile p).length]? = some a → p a = false := by
  induction l with
  | nil => exact ⟨fun k hk => absurd hk (Nat.not_lt_zero k), nofun⟩
  | cons hd rest ih =>
      rw [List.takeWhile_cons]
      cases hp : p hd with
      | true =>
          refine ⟨?_, ih.2⟩
          intro k hk
          cases k with
          | zero => exact ⟨hd, rfl, hp⟩
          | succ k => exact ih.1 k (Nat.lt_of_succ_lt_succ hk)
      | false =>
          refine ⟨fun k hk => absurd hk (Nat.not_lt_zero k), ?_⟩
          rintro a ⟨⟩
          exact hp

/-- The frames of the run that starts at `i`, as far as the descriptors say. -/
theorem runLength_spec (m : Coremap) (i : Nat) :
    (∀ x, i ≤ x → x + 1 < i + m.runLength i → ∃ u, m.use? x = some u ∧ u.tail = true) ∧
      ∀ x, x + 1 = i + m.runLength i → ∀ u, m.use? x = some u → u.tail = false := by
  obtain ⟨hall, hend⟩ := takeWhile_length (fun d : Descriptor => d.tail)
    (m.frames.toList.drop i)
  have hat : ∀ k, (m.frames.toList.drop i)[k]? = m.frames[i + k]? := by
    intro k
    rw [List.getElem?_drop, Array.getElem?_toList]
  unfold runLength
  refine ⟨?_, ?_⟩
  · intro x hle hlt
    obtain ⟨d, hd, ht⟩ := hall (x - i) (by omega)
    rw [hat, show i + (x - i) = x by omega] at hd
    exact ⟨d.use, use?_of_getElem? hd, ht⟩
  · intro x hx u hu
    obtain ⟨d, hd, rfl⟩ := Option.map_eq_some_iff.mp hu
    refine hend d ?_
    rw [hat, ← hd]
    congr 1
    omega

theorem putFree_ok (n : Nat) (hn : i + n ≤ m.size) :
    let m' := (List.range' i n).foldl (fun m j => m.put j .free) m
    m.SameTable m' ∧
      ∀ x, m'.use? x = if i ≤ x ∧ x < i + n then some .free else m.use? x := by
  induction n generalizing m i with
  | zero =>
      refine ⟨.refl m, fun x => ?_⟩
      rw [if_neg (by omega)]
      rfl
  | succ n ih =>
      have hput : m.Puts i Descriptor.free.use (m.put i .free) := put_puts (by omega)
      obtain ⟨htable, huse⟩ := @ih (m.put i .free) (i + 1) (by rw [hput.size]; omega)
      rw [List.range'_succ]
      refine ⟨hput.toSameTable.trans htable, fun x => ?_⟩
      show ((List.range' (i + 1) n).foldl _ (m.put i .free)).use? x = _
      rw [huse, hput.use]
      by_cases hx : x = i
      · subst hx
        rw [if_neg (by omega), if_pos rfl, if_pos (by omega)]
        rfl
      · rw [if_neg hx]
        by_cases hin : i + 1 ≤ x ∧ x < i + 1 + n
        · rw [if_pos hin, if_pos (by omega)]
        · rw [if_neg hin, if_neg (by omega)]

theorem freeRun_ok {count : Nat} (h : m.freeRun i = .ok (count, m')) : m.FreesRun i count m' := by
  obtain ⟨rfl, hroom, _, kernelCount, rfl, -, rfl⟩ := freeRun_eq_ok h
  obtain ⟨htable, huse⟩ := putFree_ok (m.runLength i) hroom
  obtain ⟨htail, hlast⟩ := runLength_spec m i
  refine ⟨⟨htable.size, htable.base, htable.policy⟩, huse, htail, ?_⟩
  intro x hx
  have hlt : x < m.frames.size := by
    unfold size at hroom
    omega
  have hu := use?_of_getElem? (Array.getElem?_eq_getElem hlt)
  exact ⟨_, hu, hlast x hx _ hu⟩

/-- All frames stay in their places. -/
theorem release_table {r : Except FrameError Release} (h : m.release i = .ok (r, m')) :
    m.SameTable m' := by
  cases release_cases h with
  | refused => exact .refl m
  | deferred hd => exact (put_frame hd).toSameTable
  | user _ _ _ _ _ _ hunlink hclear =>
      exact (unlink_alike hunlink).toSameTable.trans (clearUser_ok hclear).2.toSameTable
  | kernel _ _ _ _ _ _ hfree => exact (freeRun_ok hfree).toSameTable

/-- What giving up the frames of `space` makes of one frame. -/
def gaveUp (space : Nat) (u : Descriptor) : Descriptor :=
  if u.holdsPageOf space then (if u.inTransit then { u with orphaned := true } else .free) else u

theorem releaseOne_puts {space : Nat} {isFree : Bool}
    (h : m.releaseOne space i = .ok (isFree, m')) :
    ∃ u, m.use? i = some u ∧ m.Puts i (gaveUp space u) m' := by
  cases releaseOne_cases h with
  | @other d hd hother =>
      refine ⟨d.use, use?_of_getElem? (frame_ok hd), .refl m, fun x => ?_⟩
      have hsame : gaveUp space d.use = d.use := if_neg (Bool.eq_false_iff.mp hother)
      rw [hsame]
      split
      · next hx => rw [hx, use?_of_getElem? (frame_ok hd)]
      · rfl
  | @deferred d hd hours htransit =>
      refine ⟨d.use, use?_of_getElem? (frame_ok hd), ?_⟩
      have horphaned : gaveUp space d.use = ({ d with orphaned := true } : Descriptor).use :=
        (if_pos hours).trans (if_pos htransit)
      rw [horphaned]
      exact put_frame hd
  | @freed d _ _ hd hours hstill hunlink hclear =>
      refine ⟨d.use, use?_of_getElem? (frame_ok hd), ?_⟩
      have hfreed : gaveUp space d.use = .free :=
        (if_pos hours).trans (if_neg (Bool.eq_false_iff.mp hstill))
      rw [hfreed]
      exact (unlink_alike hunlink).trans_puts (clearUser_ok hclear).2

/-- Giving up an address space treats every frame alike. -/
theorem releaseSpace_ok {space n : Nat} (h : m.releaseSpace space = .ok (n, m')) :
    m.SameTable m' ∧ ∀ x, m'.use? x = (m.use? x).map (gaveUp space) := by
  -- behind the first `k` frames those are given up and the others as they were
  have key : m.SameTable m' ∧
      ∀ x, m'.use? x = if x < m.size then (m.use? x).map (gaveUp space) else m.use? x := by
    refine Sweep.foldlM_range
      (P := fun k (t : Nat × Coremap) => m.SameTable t.2 ∧
        ∀ x, t.2.use? x = if x < k then (m.use? x).map (gaveUp space) else m.use? x)
      ⟨.refl m, fun x => ?_⟩ ?_ h
    · rw [if_neg (Nat.not_lt_zero x)]
    · rintro k ⟨c, t⟩ ⟨c', t'⟩ - ⟨htable, huse⟩ hone
      obtain ⟨⟨b, v⟩, hv, he⟩ := Fault.bind_eq_ok.mp hone
      cases he
      obtain ⟨u, hu, hput⟩ := releaseOne_puts hv
      refine ⟨htable.trans hput.toSameTable, fun x => ?_⟩
      rw [hput.use]
      by_cases hx : x = k
      · subst hx
        rw [huse, if_neg (Nat.lt_irrefl x)] at hu
        rw [if_pos rfl, if_pos (Nat.lt_succ_self x), hu]
        rfl
      · rw [if_neg hx, huse]
        by_cases hlt : x < k
        · rw [if_pos hlt, if_pos (Nat.lt_succ_of_lt hlt)]
        · rw [if_neg hlt, if_neg (by omega)]
  refine ⟨key.1, fun x => ?_⟩
  rw [key.2]
  split
  · rfl
  · next hx =>
      have hnone : m.use? x = none := by
        cases hu : m.use? x with
        | none => rfl
        | some u => exact absurd (lt_size_of_use? hu) hx
      rw [hnone]
      rfl

theorem setTlbSlot_alike {slot : Option Nat} {r : Except FrameError Unit}
    (h : m.setTlbSlot i slot = .ok (r, m')) : m.Alike m' := by
  cases setTlbSlot_cases h with
  | refused => exact .refl m
  | set hd => exact put_alike hd rfl

end Coremap

end PhysMem
