import Mathlib.Data.List.Nodup
import PhysMem.Proofs.Chain

/-!
# Roles — the few ways a frame can be used

Of all the descriptors that could be written down only a few occur: a frame is free, or one of a run
of the kernel's, or resident, or in transit, that is, being evicted or being filled by a page-in. A
coremap is *sound* when every frame has a role, runs of the kernel's are not cut short, and the
resident frames are those of the chain. Every operation of the coremap keeps it so, and changes the
roles of the frames it is about and of no others.

* **`FrameRole`** lists the roles, **`Coremap.Sound`** is the invariant.
* **`Sound.stays`**, **`Sound.joins`**, **`Sound.leaves`** are the three ways to change one role.
* **`Sound.claim`**, **`Sound.detachOldest`**, **`Sound.release`** and those beside them — what the
  operations do to the roles.
-/

namespace PhysMem

/-- What a frame can be used for. -/
inductive FrameRole where
  | free
  /-- One of a run of the kernel's, with another of the run behind it or not. -/
  | kernel (tail : Bool)
  | resident (page : Page)
  /-- Being filled by a page-in, which pins it, or else being evicted. -/
  | transit (pinned : Bool) (page : Page) (orphaned : Bool)
  deriving DecidableEq, Repr

namespace FrameRole

/-- The use of a frame in this role. -/
def use : FrameRole → Descriptor
  | .free => .free
  | .kernel tail => .claimed .kernel tail false
  | .resident page => .claimed (.user page) false false
  | .transit pinned page orphaned =>
    { Descriptor.claimed (.user page) false pinned with evicting := !pinned, orphaned }

/-- The page in the frame. -/
def page? (r : FrameRole) : Option Page := r.use.page

/-- The role of a frame that was given up: one in transit is orphaned, any other is free. -/
def givenUp : FrameRole → FrameRole
  | .transit pinned page _ => .transit pinned page true
  | .free | .kernel _ | .resident _ => .free

/-- Whether the frame holds a page of `space`. -/
def holdsPageOf (r : FrameRole) (space : Nat) : Bool := r.use.holdsPageOf space

/-- Neither on the chain nor in a run of the kernel's. -/
def IsLoose : FrameRole → Prop
  | .free | .transit .. => True
  | .kernel _ | .resident _ => False

theorem use_inj {r r' : FrameRole} (h : r.use = r'.use) : r = r' := by
  cases r <;> cases r' <;>
    simp [use, Descriptor.free, Descriptor.claimed, FrameOwner.kind, FrameOwner.page?] at h ⊢ <;>
    grind

theorem of_pinned {r : FrameRole} (h : r.use.pinned = true) :
    ∃ page orphaned, r = .transit true page orphaned := by
  cases r with
  | transit pinned page orphaned =>
      have hp : pinned = true := h
      exact ⟨page, orphaned, by rw [hp]⟩
  | free => exact nomatch h
  | kernel tail => exact nomatch h
  | resident page => exact nomatch h

theorem of_evicting {r : FrameRole} (h : r.use.evicting = true) :
    ∃ page orphaned, r = .transit false page orphaned := by
  cases r with
  | transit pinned page orphaned =>
      cases pinned with
      | true => exact nomatch h
      | false => exact ⟨page, orphaned, rfl⟩
  | free => exact nomatch h
  | kernel tail => exact nomatch h
  | resident page => exact nomatch h

theorem of_inTransit {r : FrameRole} (h : r.use.inTransit = true) :
    ∃ pinned page orphaned, r = .transit pinned page orphaned := by
  cases r with
  | transit pinned page orphaned => exact ⟨pinned, page, orphaned, rfl⟩
  | free => exact nomatch h
  | kernel tail => exact nomatch h
  | resident page => exact nomatch h

theorem of_free {r : FrameRole} (h : r.use.allocated = false) : r = .free := by
  cases r with
  | free => rfl
  | kernel tail => exact nomatch h
  | resident page => exact nomatch h
  | transit pinned page orphaned => exact nomatch h

end FrameRole

namespace Coremap

/-- Frame `i` is in this role. -/
def HasRole (m : Coremap) (i : Nat) (r : FrameRole) : Prop := m.use? i = some r.use

/-- Every frame has a role, a kernel frame with another of its run behind it is followed by a kernel
frame, and the frames of the chain are the resident ones. -/
structure Sound (m : Coremap) : Prop where
  policy : m.placement.IsPolicy
  role : ∀ i u, m.use? i = some u → ∃ r : FrameRole, u = r.use
  run : ∀ i, m.HasRole i (.kernel true) → ∃ tail, m.HasRole (i + 1) (.kernel tail)
  chain : ∃ l, m.Linked l ∧ ∀ i, i ∈ l ↔ ∃ page, m.HasRole i (.resident page)

variable {m m' m₁ : Coremap} {i x : Nat} {r s : FrameRole} {page : Page}

theorem HasRole.unique (h : m.HasRole i r) (h' : m.HasRole i s) : r = s :=
  FrameRole.use_inj (Option.some.inj (h.symm.trans h'))

/-- The descriptor of a frame whose role is known. -/
theorem HasRole.frame (h : m.HasRole i r) : ∃ d, m.frame i = .ok d ∧ d.use = r.use := by
  obtain ⟨d, hd, huse⟩ := Option.map_eq_some_iff.mp h
  refine ⟨d, ?_, huse⟩
  unfold Coremap.frame
  rw [hd]

theorem Sound.hasRole {u : Descriptor} (hm : m.Sound) (h : m.use? i = some u) :
    ∃ r : FrameRole, m.HasRole i r ∧ u = r.use := by
  obtain ⟨r, rfl⟩ := hm.role i u h
  exact ⟨r, h, rfl⟩

theorem Puts.role_self (h : m.Puts i r.use m') : m'.HasRole i r := by
  unfold HasRole
  rw [h.use, if_pos rfl]

theorem Puts.role_other (h : m.Puts i r.use m') (hx : x ≠ i) :
    m'.HasRole x s ↔ m.HasRole x s := by
  unfold HasRole
  rw [h.use, if_neg hx]

theorem Alike.role (h : m.Alike m') : m'.HasRole x r ↔ m.HasRole x r := by
  unfold HasRole
  rw [h.use]

/-! ## One role changes -/

theorem Sound.of_alike (hm : m.Sound) (h : m.Alike m') (hl : m.SameLinks m') : m'.Sound := by
  refine ⟨h.policy hm.policy, ?_, ?_, ?_⟩
  · intro x u hu
    rw [h.use] at hu
    exact hm.role x u hu
  · intro x hx
    obtain ⟨tail, ht⟩ := hm.run x (h.role.mp hx)
    exact ⟨tail, h.role.mpr ht⟩
  · obtain ⟨l, hlinked, hmem⟩ := hm.chain
    refine ⟨l, hlinked.of_sameLinks hl, fun x => (hmem x).trans ?_⟩
    exact exists_congr fun _ => h.role.symm

/-- All but the chain is sound when one frame that is not the kernel's changes its role for another
such. -/
theorem Sound.role_run (hm : m.Sound) (h : m.HasRole i r) (hput : m.Puts i s.use m')
    (hr : ∀ tail, r ≠ .kernel tail) (hr' : ∀ tail, s ≠ .kernel tail) :
    (∀ x u, m'.use? x = some u → ∃ r : FrameRole, u = r.use) ∧
      ∀ x, m'.HasRole x (.kernel true) → ∃ tail, m'.HasRole (x + 1) (.kernel tail) := by
  refine ⟨?_, ?_⟩
  · intro x u hu
    rw [hput.use] at hu
    split at hu
    · exact ⟨s, (Option.some.inj hu).symm⟩
    · exact hm.role x u hu
  · intro x hx
    by_cases hxi : x = i
    · subst hxi
      exact absurd (hput.role_self.unique hx) (hr' true)
    · obtain ⟨tail, ht⟩ := hm.run x ((hput.role_other hxi).mp hx)
      by_cases hxi' : x + 1 = i
      · rw [hxi'] at ht
        exact absurd (h.unique ht) (hr tail)
      · exact ⟨tail, (hput.role_other hxi').mpr ht⟩

theorem FrameRole.IsLoose.not_kernel {r : FrameRole} (h : r.IsLoose) (tail : Bool) :
    r ≠ .kernel tail := by
  rintro rfl
  exact h

/-- **A frame off the chain stays off it.** -/
theorem Sound.stays (hm : m.Sound) (h : m.HasRole i r) (hr : r.IsLoose)
    (hput : m.Puts i s.use m') (hr' : s.IsLoose) (hl : m.SameLinks m') : m'.Sound := by
  obtain ⟨hrole, hrun⟩ := hm.role_run h hput (FrameRole.IsLoose.not_kernel hr)
    (FrameRole.IsLoose.not_kernel hr')
  obtain ⟨l, hlinked, hmem⟩ := hm.chain
  refine ⟨hput.policy hm.policy, hrole, hrun, l, hlinked.of_sameLinks hl, fun x => ?_⟩
  rw [hmem x]
  by_cases hx : x = i
  · subst hx
    constructor
    · rintro ⟨page, hp⟩
      rw [h.unique hp] at hr
      exact hr.elim
    · rintro ⟨page, hp⟩
      rw [hput.role_self.unique hp] at hr'
      exact hr'.elim
  · exact exists_congr fun _ => (hput.role_other hx).symm

/-- A frame that is not resident is off the chain, so it names no neighbours. -/
theorem Sound.link_of_loose (hm : m.Sound) (h : m.HasRole i r) (hr : ∀ page, r ≠ .resident page) :
    m.link? i = some (none, none) := by
  obtain ⟨l, hlinked, hmem⟩ := hm.chain
  obtain ⟨d, hd, -⟩ := Option.map_eq_some_iff.mp h
  have hlink : m.link? i = some (d.prev, d.next) := by
    unfold link?
    rw [hd]
    rfl
  rw [hlink, hlinked.off i ?_ _ hlink]
  intro hi
  obtain ⟨page, hp⟩ := (hmem i).mp hi
  exact hr page (h.unique hp)

/-- A frame in transit is off the chain. -/
theorem Sound.not_mem_of_transit {pinned orphaned : Bool} (hm : m.Sound)
    (h : m.HasRole i (.transit pinned page orphaned)) :
    ∃ l, m.Linked l ∧ i ∉ l := by
  obtain ⟨l, hl, hmem⟩ := hm.chain
  refine ⟨l, hl, fun hi => ?_⟩
  obtain ⟨q, hq⟩ := (hmem i).mp hi
  exact nomatch h.unique hq

/-- **A frame joins the chain**, at either end. -/
theorem Sound.joins (hm : m.Sound) (h : m.HasRole i r) (hr : r.IsLoose)
    (hput : m.Puts i (FrameRole.resident page).use m') (hl : m.SameLinks m₁)
    (hpush : m₁.pushNewest i = .ok m' ∨ m₁.pushOldest i = .ok m') : m'.Sound := by
  obtain ⟨hrole, hrun⟩ := hm.role_run h hput (FrameRole.IsLoose.not_kernel hr) nofun
  obtain ⟨l, hlinked, hmem⟩ := hm.chain
  have hi : i ∉ l := by
    intro hi
    obtain ⟨q, hq⟩ := (hmem i).mp hi
    rw [h.unique hq] at hr
    exact hr
  have hresident : ∀ x, (x = i ∨ x ∈ l) ↔ ∃ q, m'.HasRole x (.resident q) := by
    intro x
    by_cases hx : x = i
    · subst hx
      exact ⟨fun _ => ⟨page, hput.role_self⟩, fun _ => Or.inl rfl⟩
    · rw [hmem x]
      constructor
      · rintro (he | ⟨q, hq⟩)
        · exact absurd he hx
        · exact ⟨q, (hput.role_other hx).mpr hq⟩
      · rintro ⟨q, hq⟩
        exact Or.inr ⟨q, (hput.role_other hx).mp hq⟩
  refine ⟨hput.policy hm.policy, hrole, hrun, ?_⟩
  rcases hpush with hpush | hpush
  · refine ⟨_, (hlinked.of_sameLinks hl).pushNewest hi hpush, fun x => ?_⟩
    rw [← hresident x, List.mem_append, List.mem_singleton, or_comm]
  · refine ⟨_, (hlinked.of_sameLinks hl).pushOldest hi hpush, fun x => ?_⟩
    rw [← hresident x, List.mem_cons]

/-- **A frame leaves the chain.** -/
theorem Sound.leaves (hm : m.Sound) (h : m.HasRole i (.resident page))
    (hput : m.Puts i s.use m') (hr' : s.IsLoose) (hunlink : m.unlink i = .ok m₁)
    (hl : m₁.SameLinks m') : m'.Sound := by
  obtain ⟨hrole, hrun⟩ := hm.role_run h hput nofun (FrameRole.IsLoose.not_kernel hr')
  obtain ⟨l, hlinked, hmem⟩ := hm.chain
  obtain ⟨older, newer, rfl, hlinked'⟩ := hlinked.unlink hunlink
  refine ⟨hput.policy hm.policy, hrole, hrun, _, hlinked'.of_sameLinks hl, fun x => ?_⟩
  have hi : i ∉ older ++ newer := by
    have hnd := hlinked.nodup
    rw [List.nodup_middle, List.nodup_cons] at hnd
    exact hnd.1
  by_cases hx : x = i
  · subst hx
    constructor
    · exact fun hmem => absurd hmem hi
    · rintro ⟨q, hq⟩
      rw [hput.role_self.unique hq] at hr'
      exact hr'.elim
  · have hall := hmem x
    rw [List.mem_append, List.mem_cons, or_left_comm] at hall
    rw [List.mem_append]
    constructor
    · intro hin
      obtain ⟨q, hq⟩ := hall.mp (Or.inr hin)
      exact ⟨q, (hput.role_other hx).mpr hq⟩
    · rintro ⟨q, hq⟩
      exact (hall.mpr ⟨q, (hput.role_other hx).mp hq⟩).resolve_left hx

/-! ## Frames in transit -/

/-- A frame that names no neighbours is cleared without a trace on the chain. -/
theorem clearUser_sameLinks (h : m.clearUser i = .ok m') (hl : m.link? i = some (none, none)) :
    m.SameLinks m' := by
  obtain ⟨d, count, hd, -, -, rfl⟩ := clearUser_eq_ok h
  rw [link?_of_frame hd] at hl
  obtain ⟨hprev, hnext⟩ := Prod.mk.inj (Option.some.inj hl)
  have hput : m.SameLinks (m.put i .free) := put_sameLinks hd hprev.symm hnext.symm
  exact hput.trans (sameLinks_of_frames rfl rfl rfl)

/-- A frame that was in transit is resident again, or free if it was orphaned. -/
theorem Sound.comesBack {pinned orphaned onChain : Bool} (hm : m.Sound)
    (h : m.HasRole i (.transit pinned page orphaned)) (hchain : onChain = !orphaned)
    (hput : m.Puts i (if orphaned then FrameRole.free else .resident page).use m')
    (hl : m.SameLinks m₁) (hend : if onChain then
      m₁.pushNewest i = .ok m' ∨ m₁.pushOldest i = .ok m' else m₁.clearUser i = .ok m') :
    m'.Sound := by
  cases orphaned with
  | true =>
      subst hchain
      refine hm.stays h trivial hput trivial (hl.trans (clearUser_sameLinks hend ?_))
      rw [hl.link]
      exact hm.link_of_loose h nofun
  | false =>
      subst hchain
      exact hm.joins h trivial hput hl hend

theorem unpinned_sameLinks {d : Descriptor} (hd : m.frame i = .ok d) :
    m.SameLinks (m.put i { d with pinned := false }) := put_sameLinks hd rfl rfl

theorem unmarked_sameLinks {d : Descriptor} {evictingCount : Nat} (hd : m.frame i = .ok d) :
    m.SameLinks { m.put i { d with evicting := false } with evictingCount } := by
  have hput : m.SameLinks (m.put i { d with evicting := false }) := put_sameLinks hd rfl rfl
  exact hput.trans (sameLinks_of_frames rfl rfl rfl)

/-- A page-in puts its frame on the chain, or frees it if it was orphaned. -/
theorem Sound.unpin {onChain : Bool} (hm : m.Sound) (h : m.unpin i = .ok (onChain, m')) :
    m'.Sound ∧ ∃ page orphaned, m.HasRole i (.transit true page orphaned) ∧
      onChain = !orphaned ∧
      m.Puts i (if orphaned then FrameRole.free else .resident page).use m' := by
  obtain ⟨u, hu, hpin, hchain, hput⟩ := unpin_ok h
  obtain ⟨r, hr, rfl⟩ := hm.hasRole hu
  obtain ⟨page, orphaned, rfl⟩ := FrameRole.of_pinned hpin
  have hput' : m.Puts i (if orphaned then FrameRole.free else .resident page).use m' := by
    cases orphaned <;> exact hput
  refine ⟨?_, page, orphaned, hr, hchain, hput'⟩
  cases unpin_cases h with
  | freed hd _ _ hclear => exact hm.comesBack hr hchain hput' (unpinned_sameLinks hd) hclear
  | linked hd _ _ hpush =>
      exact hm.comesBack hr hchain hput' (unpinned_sameLinks hd) (Or.inl hpush)

/-- A page-in that failed frees its frame. -/
theorem Sound.discardPinned (hm : m.Sound) (h : m.discardPinned i = .ok m') :
    m'.Sound ∧ ∃ page orphaned, m.HasRole i (.transit true page orphaned) ∧
      m.Puts i FrameRole.free.use m' := by
  obtain ⟨⟨u, hu, hpin⟩, hput⟩ := discardPinned_ok h
  obtain ⟨r, hr, rfl⟩ := hm.hasRole hu
  obtain ⟨page, orphaned, rfl⟩ := FrameRole.of_pinned hpin
  refine ⟨?_, page, orphaned, hr, hput⟩
  obtain ⟨d, -, -, hclear⟩ := discardPinned_eq_ok h
  exact hm.stays (s := .free) hr trivial hput trivial
    (clearUser_sameLinks hclear (hm.link_of_loose hr nofun))

/-- The oldest resident frame leaves the chain to be evicted. -/
theorem Sound.detachOldest (hm : m.Sound) (h : m.detachOldest = .ok (some (i, page), m')) :
    m'.Sound ∧ m.HasRole i (.resident page) ∧
      m.Puts i (FrameRole.transit false page false).use m' := by
  obtain ⟨hold, u, hu, hpage, hput⟩ := detachOldest_ok h
  obtain ⟨l, hlinked, hmem⟩ := hm.chain
  have hi : i ∈ l := by
    rw [hlinked.oldest] at hold
    exact List.mem_of_head? hold
  obtain ⟨page', hr⟩ := (hmem i).mp hi
  obtain rfl : (FrameRole.resident page').use = u := Option.some.inj (hr.symm.trans hu)
  obtain rfl : page' = page := Option.some.inj hpage
  have hput' : m.Puts i (FrameRole.transit false page' false).use m' := hput
  refine ⟨?_, hr, hput'⟩
  cases detachOldest_cases h with
  | @detached _ _ _ m₂ d _ hunlink hd =>
      refine hm.leaves (s := .transit false page' false) hr hput' trivial hunlink ?_
      have hflag : m₂.SameLinks (m₂.put i { d with evicting := true }) := put_sameLinks hd rfl rfl
      exact hflag.trans (sameLinks_of_frames rfl rfl rfl)

/-- An eviction given up puts its frame back, or frees it if it was orphaned. -/
theorem Sound.abortEviction {onChain : Bool} (hm : m.Sound)
    (h : m.abortEviction i = .ok (onChain, m')) :
    m'.Sound ∧ ∃ page orphaned, m.HasRole i (.transit false page orphaned) ∧
      onChain = !orphaned ∧
      m.Puts i (if orphaned then FrameRole.free else .resident page).use m' := by
  obtain ⟨u, hu, hevict, hchain, hput⟩ := abortEviction_ok h
  obtain ⟨r, hr, rfl⟩ := hm.hasRole hu
  obtain ⟨page, orphaned, rfl⟩ := FrameRole.of_evicting hevict
  have hput' : m.Puts i (if orphaned then FrameRole.free else .resident page).use m' := by
    cases orphaned <;> exact hput
  refine ⟨?_, page, orphaned, hr, hchain, hput'⟩
  cases abortEviction_cases h with
  | freed hd _ _ _ hclear => exact hm.comesBack hr hchain hput' (unmarked_sameLinks hd) hclear
  | linked hd _ _ _ hpush =>
      exact hm.comesBack hr hchain hput' (unmarked_sameLinks hd) (Or.inr hpush)

/-- An eviction frees its frame in the end. -/
theorem Sound.finishEviction {orphaned : Bool} (hm : m.Sound)
    (h : m.finishEviction i = .ok (orphaned, m')) :
    m'.Sound ∧ ∃ page, m.HasRole i (.transit false page orphaned) ∧
      m.Puts i FrameRole.free.use m' := by
  obtain ⟨⟨u, hu, hevict, horphan⟩, hput⟩ := finishEviction_ok h
  obtain ⟨r, hr, rfl⟩ := hm.hasRole hu
  obtain ⟨page, orphaned', rfl⟩ := FrameRole.of_evicting hevict
  obtain rfl : orphaned = orphaned' := horphan
  refine ⟨?_, page, hr, hput⟩
  obtain ⟨d, evictingCount, -, -, -, -, hclear⟩ := finishEviction_eq_ok h
  have hcount : m.SameLinks { m with evictingCount } := sameLinks_of_frames rfl rfl rfl
  refine hm.stays (s := .free) hr trivial hput trivial
    (hcount.trans (clearUser_sameLinks hclear ?_))
  rw [hcount.link]
  exact hm.link_of_loose hr nofun

/-! ## Claims -/

/-- Frames that are marked as claimed name no neighbours. -/
theorem markRun_links {owner : FrameOwner} {pinned : Bool} {last n : Nat}
    (h : m.markRun owner pinned last i n = .ok m') :
    m'.oldest = m.oldest ∧ m'.newest = m.newest ∧
      ∀ x, m'.link? x = if i ≤ x ∧ x < i + n then some (none, none) else m.link? x := by
  induction n generalizing m i with
  | zero =>
      cases h
      refine ⟨rfl, rfl, fun x => ?_⟩
      rw [if_neg (by omega)]
  | succ n ih =>
      obtain ⟨d, hd, -, h⟩ := markRun_succ h
      have hput := link?_put (d := .claimed owner (i != last) pinned) (lt_size_of_frame hd)
      obtain ⟨hold, hnew, hlink⟩ := ih h
      refine ⟨hold, hnew, fun x => ?_⟩
      rw [hlink, hput]
      by_cases hx : x = i
      · subst hx
        rw [if_neg (by omega), if_pos rfl, if_pos (by omega)]
        rfl
      · rw [if_neg hx]
        by_cases hin : i + 1 ≤ x ∧ x < i + 1 + n
        · rw [if_pos hin, if_pos (by omega)]
        · rw [if_neg hin, if_neg (by omega)]

/-- A claim finds its frames off the chain and leaves them there. -/
theorem Sound.claimRun_sameLinks {owner : FrameOwner} {count : Nat} {pinned : Bool}
    {first : Option Nat} (hm : m.Sound) (h : m.claimRun owner count pinned = .ok (first, m')) :
    m.SameLinks m' := by
  have marked : ∀ {placement : Placement} {m₁ : Coremap} {last start n : Nat},
      ({ m with placement } : Coremap).markRun owner pinned last start n = .ok m₁ →
      m.SameLinks m₁ := by
    intro placement m₁ last start n hmark
    obtain ⟨-, hfree, -⟩ := markRun_ok hmark
    obtain ⟨hold, hnew, hlink⟩ := markRun_links hmark
    refine ⟨hold, hnew, fun x => ?_⟩
    rw [hlink]
    split
    · next hin =>
        obtain ⟨u, hu, halloc⟩ := hfree x hin.1 hin.2
        obtain ⟨r, hr, rfl⟩ := hm.hasRole (i := x) hu
        obtain rfl := FrameRole.of_free halloc
        exact (hm.link_of_loose hr nofun).symm
    · rfl
  cases claimRun_cases h with
  | none => exact sameLinks_of_frames rfl rfl rfl
  | kernel _ _ hmark => exact (marked hmark).trans (sameLinks_of_frames rfl rfl rfl)
  | user _ _ hmark => exact (marked hmark).trans (sameLinks_of_frames rfl rfl rfl)

/-- One user frame that is claimed was free. -/
theorem Sound.claimRun_user {pinned : Bool} {first : Option Nat} (hm : m.Sound)
    (h : m.claimRun (.user page) 1 pinned = .ok (first, m')) :
    (first = none ∧ m.Alike m') ∨
      ∃ i, first = some i ∧ m.HasRole i .free ∧ m.Puts i
        (if pinned then FrameRole.transit true page false else .resident page).use m' := by
  rcases claimRun_ok h with halike | ⟨start, stop, rfl, hclaims, hstop⟩
  · exact Or.inl halike
  · obtain rfl := hstop hm.policy
    refine Or.inr ⟨start, rfl, ?_, hclaims.toSameTable, fun x => ?_⟩
    · obtain ⟨u, hu, halloc⟩ := hclaims.free start (Nat.le_refl _) (Nat.lt_succ_self _)
      obtain ⟨r, hr, rfl⟩ := hm.hasRole hu
      rw [← FrameRole.of_free halloc]
      exact hr
    · rw [hclaims.use]
      by_cases hx : x = start
      · subst hx
        rw [if_pos ⟨Nat.le_refl _, Nat.lt_succ_self _⟩, if_pos rfl, Nat.add_sub_cancel,
          bne_self_eq_false]
        cases pinned <;> rfl
      · rw [if_neg (by omega), if_neg hx]

/-- A page-in claims a free frame and pins it. -/
theorem Sound.claimPinned {first : Option Nat} (hm : m.Sound)
    (h : m.claimPinned page = .ok (first, m')) :
    m'.Sound ∧ ((first = none ∧ m.Alike m') ∨ ∃ i, first = some i ∧ m.HasRole i .free ∧
      m.Puts i (FrameRole.transit true page false).use m') := by
  have hlinks : m.SameLinks m' := hm.claimRun_sameLinks h
  rcases hm.claimRun_user h with ⟨rfl, halike⟩ | ⟨i, rfl, hr, hput⟩
  · exact ⟨hm.of_alike halike hlinks, Or.inl ⟨rfl, halike⟩⟩
  · exact ⟨hm.stays (s := .transit true page false) hr trivial hput trivial hlinks,
      Or.inr ⟨i, rfl, hr, hput⟩⟩

/-- A run of the kernel's is claimed from free frames. -/
theorem Sound.claimRun_kernel {count : Nat} {first : Option Nat} (hm : m.Sound)
    (h : m.claimRun .kernel count false = .ok (first, m')) :
    m'.Sound ∧ m.SameTable m' ∧ ∀ x, m'.use? x = m.use? x ∨
      m.HasRole x .free ∧ ∃ tail, m'.HasRole x (.kernel tail) := by
  have hlinks : m.SameLinks m' := hm.claimRun_sameLinks h
  rcases claimRun_ok h with ⟨-, halike⟩ | ⟨start, stop, rfl, hclaims, -⟩
  · exact ⟨hm.of_alike halike hlinks, halike.toSameTable, fun x => Or.inl (halike.use x)⟩
  · have hin : ∀ x, start ≤ x → x < stop →
        m.HasRole x .free ∧ m'.HasRole x (.kernel (x != stop - 1)) := by
      intro x hle hlt
      obtain ⟨u, hu, halloc⟩ := hclaims.free x hle hlt
      obtain ⟨r, hr, rfl⟩ := hm.hasRole hu
      obtain rfl := FrameRole.of_free halloc
      refine ⟨hr, ?_⟩
      unfold HasRole
      rw [hclaims.use, if_pos ⟨hle, hlt⟩]
      rfl
    have hout : ∀ x, ¬ (start ≤ x ∧ x < stop) → m'.use? x = m.use? x := by
      intro x hx
      rw [hclaims.use, if_neg hx]
    refine ⟨⟨hclaims.policy hm.policy, ?_, ?_, ?_⟩, hclaims.toSameTable, ?_⟩
    · intro x u hu
      by_cases hx : start ≤ x ∧ x < stop
      · exact ⟨_, Option.some.inj (hu.symm.trans (hin x hx.1 hx.2).2)⟩
      · rw [hout x hx] at hu
        exact hm.role x u hu
    · intro x hx
      by_cases hxin : start ≤ x ∧ x < stop
      · -- only the last frame of the run has no other behind it
        have htail := (hin x hxin.1 hxin.2).2.unique hx
        have hne : x ≠ stop - 1 := by
          rintro rfl
          simp at htail
        exact ⟨_, (hin (x + 1) (by omega) (by omega)).2⟩
      · unfold HasRole at hx
        rw [hout x hxin] at hx
        obtain ⟨tail, ht⟩ := hm.run x hx
        refine ⟨tail, ?_⟩
        unfold HasRole
        rw [hout]
        · exact ht
        · intro hnext
          exact nomatch (hin (x + 1) hnext.1 hnext.2).1.unique ht
    · obtain ⟨l, hlinked, hmem⟩ := hm.chain
      refine ⟨l, hlinked.of_sameLinks hlinks, fun x => (hmem x).trans ?_⟩
      by_cases hx : start ≤ x ∧ x < stop
      · constructor
        · rintro ⟨q, hq⟩
          exact nomatch (hin x hx.1 hx.2).1.unique hq
        · rintro ⟨q, hq⟩
          exact nomatch (hin x hx.1 hx.2).2.unique hq
      · unfold HasRole
        rw [hout x hx]
    · intro x
      by_cases hx : start ≤ x ∧ x < stop
      · exact Or.inr ⟨(hin x hx.1 hx.2).1, _, (hin x hx.1 hx.2).2⟩
      · exact Or.inl (hout x hx)

/-- Frames that are claimed for an owner were free, and a user frame joins the chain. -/
theorem Sound.claim {owner : FrameOwner} {count : Nat} {first : Option Nat} (hm : m.Sound)
    (hcount : owner = .kernel ∨ count = 1) (h : m.claim owner count = .ok (first, m')) :
    m'.Sound ∧ m.SameTable m' ∧ ∀ x, m'.use? x = m.use? x ∨ m.HasRole x .free ∧
      ((∃ tail, m'.HasRole x (.kernel tail)) ∨
        ∃ page, owner = .user page ∧ m'.HasRole x (.resident page)) := by
  cases claim_cases h with
  | none hrun =>
      obtain ⟨-, halike⟩ | ⟨start, stop, hsome, -⟩ := claimRun_ok hrun
      · exact ⟨hm.of_alike halike (hm.claimRun_sameLinks hrun), halike.toSameTable,
          fun x => Or.inl (halike.use x)⟩
      · exact nomatch hsome
  | kernel hrun =>
      obtain ⟨hsound, htable, huse⟩ := hm.claimRun_kernel hrun
      exact ⟨hsound, htable, fun x => (huse x).imp id fun hx => ⟨hx.1, Or.inl hx.2⟩⟩
  | @user page i _ _ hrun hpush =>
      obtain rfl := hcount.resolve_left nofun
      have hlinks := hm.claimRun_sameLinks hrun
      obtain ⟨hnone, -⟩ | ⟨i', hi, hr, hput⟩ := hm.claimRun_user hrun
      · exact nomatch hnone
      · cases hi
        have hput' : m.Puts i (FrameRole.resident page).use m' :=
          hput.trans_alike (pushNewest_alike hpush)
        refine ⟨hm.joins hr trivial hput' hlinks (Or.inl hpush), hput'.toSameTable, fun x => ?_⟩
        by_cases hx : x = i
        · subst hx
          exact Or.inr ⟨hr, Or.inr ⟨page, rfl, hput'.role_self⟩⟩
        · refine Or.inl ?_
          rw [hput'.use, if_neg hx]

/-! ## Releases -/

/-- Frames that name no neighbours are freed without a trace on the chain. -/
theorem putFree_sameLinks (n : Nat) (hn : i + n ≤ m.size)
    (hl : ∀ x, i ≤ x → x < i + n → m.link? x = some (none, none)) :
    m.SameLinks ((List.range' i n).foldl (fun m j => m.put j .free) m) := by
  induction n generalizing m i with
  | zero => exact .refl m
  | succ n ih =>
      have hput := link?_put (m := m) (i := i) (d := .free) (by omega)
      have hfirst : m.SameLinks (m.put i .free) := by
        refine ⟨rfl, rfl, fun x => ?_⟩
        rw [hput]
        split
        · next hx => rw [hx, hl i (Nat.le_refl _) (by omega)]; rfl
        · rfl
      rw [List.range'_succ]
      refine hfirst.trans (ih ?_ ?_)
      · have : (m.put i .free).size = m.size := Array.size_setIfInBounds
        omega
      · intro x hle hlt
        rw [hfirst.link]
        exact hl x (by omega) (by omega)

/-- A run that starts with a kernel frame has kernel frames only. -/
theorem Sound.freesRun_kernel {count : Nat} {tail : Bool} (hm : m.Sound)
    (h : m.HasRole i (.kernel tail)) (hrun : m.FreesRun i count m') (k : Nat) (hk : k < count) :
    ∃ tail, m.HasRole (i + k) (.kernel tail) := by
  induction k with
  | zero => exact ⟨tail, h⟩
  | succ k ih =>
      obtain ⟨t, ht⟩ := ih (by omega)
      obtain ⟨u, hu, htail⟩ := hrun.tail (i + k) (by omega) (by omega)
      obtain rfl : (FrameRole.kernel t).use = u := Option.some.inj (ht.symm.trans hu)
      obtain rfl : t = true := htail
      exact hm.run (i + k) ht

/-- A run of the kernel's is freed without a trace on the chain. -/
theorem Sound.freeRun_sameLinks {count : Nat} {tail : Bool} (hm : m.Sound)
    (hi : m.HasRole i (.kernel tail)) (h : m.freeRun i = .ok (count, m')) : m.SameLinks m' := by
  have hrun := freeRun_ok h
  obtain ⟨rfl, hroom, _, kernelCount, rfl, -, rfl⟩ := freeRun_eq_ok h
  refine (putFree_sameLinks (m.runLength i) hroom ?_).trans (sameLinks_of_frames rfl rfl rfl)
  intro x hle hlt
  obtain ⟨t, ht⟩ := hm.freesRun_kernel hi hrun (x - i) (by omega)
  rw [Nat.add_sub_cancel' hle] at ht
  exact hm.link_of_loose ht nofun

/-- A run of the kernel's is freed as a whole. -/
theorem Sound.freeRun {count : Nat} {tail : Bool} (hm : m.Sound)
    (hi : m.HasRole i (.kernel tail)) (hfirst : m.insideRun i = false)
    (h : m.freeRun i = .ok (count, m')) : m'.Sound ∧ ∀ x, m'.use? x = m.use? x ∨
      (∃ tail, m.HasRole x (.kernel tail)) ∧ m'.HasRole x .free := by
  have hrun := freeRun_ok h
  have hin : ∀ x, i ≤ x → x < i + count →
      (∃ tail, m.HasRole x (.kernel tail)) ∧ m'.HasRole x .free := by
    intro x hle hlt
    refine ⟨?_, ?_⟩
    · have := hm.freesRun_kernel hi hrun (x - i) (by omega)
      rw [Nat.add_sub_cancel' hle] at this
      exact this
    · unfold HasRole
      rw [hrun.use, if_pos ⟨hle, hlt⟩]
      rfl
  have hout : ∀ x, ¬ (i ≤ x ∧ x < i + count) → m'.use? x = m.use? x := by
    intro x hx
    rw [hrun.use, if_neg hx]
  have hlinks := hm.freeRun_sameLinks hi h
  refine ⟨⟨hrun.policy hm.policy, ?_, ?_, ?_⟩, ?_⟩
  · intro x u hu
    by_cases hx : i ≤ x ∧ x < i + count
    · exact ⟨_, Option.some.inj (hu.symm.trans (hin x hx.1 hx.2).2)⟩
    · rw [hout x hx] at hu
      exact hm.role x u hu
  · intro x hx
    by_cases hxin : i ≤ x ∧ x < i + count
    · exact nomatch (hin x hxin.1 hxin.2).2.unique hx
    · unfold HasRole at hx
      rw [hout x hxin] at hx
      obtain ⟨t, ht⟩ := hm.run x hx
      refine ⟨t, ?_⟩
      unfold HasRole
      rw [hout]
      · exact ht
      · -- the run does not begin inside another
        intro hnext
        obtain rfl : i = x + 1 := by omega
        unfold insideRun at hfirst
        obtain ⟨d, hd, hu⟩ := Option.map_eq_some_iff.mp hx
        simp only [hd, Option.map_some, Option.getD_some] at hfirst
        have htail : d.use.tail = true := by rw [hu]; rfl
        rw [show d.use.tail = d.tail from rfl, hfirst] at htail
        exact nomatch htail
  · obtain ⟨l, hlinked, hmem⟩ := hm.chain
    refine ⟨l, hlinked.of_sameLinks hlinks, fun x => (hmem x).trans ?_⟩
    by_cases hx : i ≤ x ∧ x < i + count
    · obtain ⟨⟨t, ht⟩, hfree⟩ := hin x hx.1 hx.2
      constructor
      · rintro ⟨q, hq⟩
        exact nomatch ht.unique hq
      · rintro ⟨q, hq⟩
        exact nomatch hfree.unique hq
    · unfold HasRole
      rw [hout x hx]
  · intro x
    by_cases hx : i ≤ x ∧ x < i + count
    · exact Or.inr (hin x hx.1 hx.2)
    · exact Or.inl (hout x hx)

/-- A resident frame that is given up leaves the chain and is free. -/
theorem Sound.unlink_clear {m₂ : Coremap} (hm : m.Sound) (h : m.HasRole i (.resident page))
    (hunlink : m.unlink i = .ok m₁) (hclear : m₁.clearUser i = .ok m₂) :
    m₂.Sound ∧ m.Puts i FrameRole.free.use m₂ := by
  have hput : m.Puts i FrameRole.free.use m₂ :=
    (unlink_alike hunlink).trans_puts (clearUser_ok hclear).2
  refine ⟨hm.leaves (s := .free) h hput trivial hunlink (clearUser_sameLinks hclear ?_), hput⟩
  obtain ⟨l, hlinked, hmem⟩ := hm.chain
  obtain ⟨older, newer, rfl, hlinked'⟩ := hlinked.unlink hunlink
  have hi : i ∉ older ++ newer := by
    have hnd := hlinked.nodup
    rw [List.nodup_middle, List.nodup_cons] at hnd
    exact hnd.1
  obtain ⟨⟨u, hu, -⟩, -⟩ := clearUser_ok hclear
  obtain ⟨d, hd, -⟩ := Option.map_eq_some_iff.mp hu
  have hlink : m₁.link? i = some (d.prev, d.next) := by
    unfold link?
    rw [hd]
    rfl
  rw [hlink, hlinked'.off i hi _ hlink]

/-- A frame in transit that is given up is orphaned. -/
theorem Sound.orphan {d : Descriptor} (hm : m.Sound) (hd : m.frame i = .ok d)
    (hr : m.HasRole i r) (htransit : d.inTransit = true) :
    (m.put i { d with orphaned := true }).Sound ∧
      m.Puts i r.givenUp.use (m.put i { d with orphaned := true }) := by
  have huse : d.use = r.use := Option.some.inj ((use?_of_getElem? (frame_ok hd)).symm.trans hr)
  have hin : r.use.inTransit = true := by
    rw [← huse]
    exact htransit
  obtain ⟨pinned, page, orphaned, rfl⟩ := FrameRole.of_inTransit hin
  have hsame : ({ d with orphaned := true } : Descriptor).use =
      (FrameRole.transit pinned page true).use := by
    show { d.use with orphaned := true } = _
    rw [huse]
    rfl
  have hput : m.Puts i (FrameRole.transit pinned page true).use
      (m.put i { d with orphaned := true }) := by
    rw [← hsame]
    exact put_frame hd
  exact ⟨hm.stays hr trivial hput trivial (put_sameLinks hd rfl rfl), hput⟩

/-- A user frame at rest is resident. -/
theorem Sound.resident_of_user {d : Descriptor} (hm : m.Sound) (hd : m.frame i = .ok d)
    (huser : d.isUser = true) (hstill : d.inTransit = false) :
    ∃ page, m.HasRole i (.resident page) := by
  obtain ⟨r, hr, huse⟩ := hm.hasRole (use?_of_getElem? (frame_ok hd))
  have hu : r.use.isUser = true := by
    rw [← huse]
    exact huser
  have hin : r.use.inTransit = false := by
    rw [← huse]
    exact hstill
  cases r with
  | free => exact nomatch hu
  | kernel tail => exact nomatch hu
  | resident page => exact ⟨page, hr⟩
  | transit pinned page orphaned => cases pinned <;> exact nomatch hin

/-- A frame at rest that is taken off the chain and freed was resident. -/
theorem Sound.resident_of_cleared {d : Descriptor} {m₂ : Coremap} (hm : m.Sound)
    (hd : m.frame i = .ok d) (hstill : d.inTransit = false) (hunlink : m.unlink i = .ok m₁)
    (hclear : m₁.clearUser i = .ok m₂) : ∃ page, m.HasRole i (.resident page) := by
  obtain ⟨⟨u, hu, -, huser⟩, -⟩ := clearUser_ok hclear
  rw [(unlink_alike hunlink).use, use?_of_getElem? (frame_ok hd)] at hu
  obtain rfl := Option.some.inj hu
  exact hm.resident_of_user hd huser hstill

/-- A frame in use that holds no page is one of the kernel's. -/
theorem Sound.kernel_of_frame {d : Descriptor} (hm : m.Sound) (hd : m.frame i = .ok d)
    (halloc : d.allocated = true) (hkernel : d.isUser = false) :
    ∃ tail, m.HasRole i (.kernel tail) := by
  obtain ⟨r, hr, huse⟩ := hm.hasRole (use?_of_getElem? (frame_ok hd))
  have ha : r.use.allocated = true := by
    rw [← huse]
    exact halloc
  have hu : r.use.isUser = false := by
    rw [← huse]
    exact hkernel
  cases r with
  | free => exact nomatch ha
  | kernel tail => exact ⟨tail, hr⟩
  | resident page => exact nomatch hu
  | transit pinned page orphaned => exact nomatch hu

/-- **A release gives up one frame**, or a run of the kernel's. -/
theorem Sound.release {answer : Except FrameError Release} (hm : m.Sound)
    (h : m.release i = .ok (answer, m')) : m'.Sound ∧
      ∀ x r, m.HasRole x r → m'.HasRole x r ∨ m'.HasRole x r.givenUp := by
  have of_puts : ∀ {role : FrameRole}, m.HasRole i role → m.Puts i role.givenUp.use m' →
      ∀ x r, m.HasRole x r → m'.HasRole x r ∨ m'.HasRole x r.givenUp := by
    intro role hrole hput x r hr
    by_cases hx : x = i
    · subst hx
      rw [hr.unique hrole]
      exact Or.inr hput.role_self
    · exact Or.inl ((hput.role_other hx).mpr hr)
  cases release_cases h with
  | refused => exact ⟨hm, fun x r hr => Or.inl hr⟩
  | deferred hd _ _ _ htransit =>
      obtain ⟨role, hrole, -⟩ := hm.hasRole (use?_of_getElem? (frame_ok hd))
      obtain ⟨hsound, hput⟩ := hm.orphan hd hrole htransit
      exact ⟨hsound, of_puts hrole hput⟩
  | user hd _ _ _ hstill huser hunlink hclear =>
      obtain ⟨page, hres⟩ := hm.resident_of_user hd huser hstill
      obtain ⟨hsound, hput⟩ := hm.unlink_clear hres hunlink hclear
      exact ⟨hsound, of_puts hres hput⟩
  | kernel hd halloc hfirst _ _ hkernel hfree =>
      obtain ⟨tail, ht⟩ := hm.kernel_of_frame hd halloc hkernel
      obtain ⟨hsound, hall⟩ := hm.freeRun ht hfirst hfree
      refine ⟨hsound, fun x r hr => ?_⟩
      rcases hall x with hx | ⟨⟨t, hx⟩, hx'⟩
      · exact Or.inl (hx.trans hr)
      · rw [hr.unique hx]
        exact Or.inr hx'

theorem freeRun_pos {count : Nat} (h : m.freeRun i = .ok (count, m')) : 0 < count := by
  obtain ⟨rfl, -⟩ := freeRun_eq_ok h
  exact Nat.succ_pos _

/-- What a release comes to, and when. It is refused for a frame that is free, that stands inside a
run, or that was orphaned before. -/
theorem Sound.release_role {answer : Except FrameError Release} (hm : m.Sound)
    (h : m.release i = .ok (answer, m')) : ∃ r, m.HasRole i r ∧
      ((r = .free ∨ m.insideRun i = true ∨ r.use.orphaned = true) ∧ m' = m ∧
          (∃ address, m.frameAddress i = .ok address ∧ answer = .error (.invalidAddress address)) ∨
        m.insideRun i = false ∧
          ((∃ pinned page, r = .transit pinned page false ∧ answer = .ok .deferred ∧
              m.Puts i r.givenUp.use m') ∨
            (∃ page, r = .resident page ∧ answer = .ok (.freed 1) ∧ m.Puts i r.givenUp.use m') ∨
            ∃ tail count, r = .kernel tail ∧ answer = .ok (.freed count) ∧ 0 < count ∧
              m.FreesRun i count m')) := by
  cases release_cases h with
  | refused hd hwhy haddress =>
      obtain ⟨r, hr, huse⟩ := hm.hasRole (use?_of_getElem? (frame_ok hd))
      refine ⟨r, hr, Or.inl ⟨?_, rfl, _, haddress, rfl⟩⟩
      rw [← huse]
      exact hwhy.imp (fun hfree => FrameRole.of_free (huse ▸ hfree)) id
  | deferred hd _ hfirst ho htransit =>
      obtain ⟨r, hr, huse⟩ := hm.hasRole (use?_of_getElem? (frame_ok hd))
      obtain ⟨-, hput⟩ := hm.orphan hd hr htransit
      have hin : r.use.inTransit = true := by
        rw [← huse]
        exact htransit
      obtain ⟨pinned, page, orphaned, rfl⟩ := FrameRole.of_inTransit hin
      obtain rfl : orphaned = false := (congrArg Descriptor.orphaned huse).symm.trans ho
      exact ⟨_, hr, Or.inr ⟨hfirst, Or.inl ⟨pinned, page, rfl, rfl, hput⟩⟩⟩
  | user hd _ hfirst _ hstill huser hunlink hclear =>
      obtain ⟨page, hres⟩ := hm.resident_of_user hd huser hstill
      exact ⟨_, hres, Or.inr ⟨hfirst, Or.inr (Or.inl
        ⟨page, rfl, rfl, (hm.unlink_clear hres hunlink hclear).2⟩)⟩⟩
  | kernel hd halloc hfirst _ _ hkernel hfree =>
      obtain ⟨tail, ht⟩ := hm.kernel_of_frame hd halloc hkernel
      exact ⟨_, ht, Or.inr ⟨hfirst, Or.inr (Or.inr
        ⟨tail, _, rfl, rfl, freeRun_pos hfree, freeRun_ok hfree⟩)⟩⟩

theorem insideRun_succ {j : Nat} :
    m.insideRun (j + 1) = true ↔ ∃ u, m.use? j = some u ∧ u.tail = true := by
  show ((m.frames[j]?).map (·.tail)).getD false = true ↔ _
  unfold use?
  cases m.frames[j]? with
  | none => simp
  | some d => simp [Descriptor.use]

/-- A frame with one of its run before it is the kernel's. -/
theorem Sound.kernel_of_insideRun (hm : m.Sound) (h : m.insideRun i = true) :
    ∃ tail, m.HasRole i (.kernel tail) := by
  cases i with
  | zero => exact nomatch h
  | succ j =>
      obtain ⟨u, hu, htail⟩ := insideRun_succ.mp h
      obtain ⟨r, hr, rfl⟩ := hm.hasRole hu
      cases r with
      | kernel tail =>
          obtain rfl : tail = true := htail
          exact hm.run j hr
      | free => exact nomatch htail
      | resident page => exact nomatch htail
      | transit pinned page orphaned => exact nomatch htail

/-- The role of a frame after its address space was given up. -/
def roleAfter (space : Nat) (r : FrameRole) : FrameRole :=
  if r.holdsPageOf space then r.givenUp else r

/-- A frame of the address space is given up. -/
theorem roleAfter_of_space {space : Nat} {r : FrameRole} {page : Page} (hr : r.page? = some page)
    (hspace : page.space = space) : roleAfter space r = r.givenUp := by
  have hours : r.holdsPageOf space = true := by
    unfold FrameRole.page? at hr
    unfold FrameRole.holdsPageOf Descriptor.holdsPageOf
    rw [hr]
    exact beq_iff_eq.mpr hspace
  unfold roleAfter
  rw [if_pos hours]

theorem gaveUp_use (space : Nat) (r : FrameRole) :
    gaveUp space r.use = (roleAfter space r).use := by
  unfold gaveUp roleAfter FrameRole.holdsPageOf
  split
  · cases r with
    | transit pinned page orphaned => cases pinned <;> rfl
    | free => rfl
    | kernel tail => rfl
    | resident page => rfl
  · rfl

/-- **A teardown gives up every frame** that holds a page of the address space. -/
theorem Sound.releaseSpace {space n : Nat} (hm : m.Sound)
    (h : m.releaseSpace space = .ok (n, m')) : m'.Sound ∧
      ∀ x r, m.HasRole x r → m'.HasRole x (roleAfter space r) := by
  refine ⟨?_, ?_⟩
  · refine Sweep.foldlM_range (P := fun _ (t : Nat × Coremap) => t.2.Sound) hm ?_ h
    rintro k ⟨c, t⟩ ⟨c', t'⟩ - ht hone
    obtain ⟨⟨b, v⟩, hv, he⟩ := Fault.bind_eq_ok.mp hone
    cases he
    cases releaseOne_cases hv with
    | other => exact ht
    | deferred hd _ htransit =>
        obtain ⟨r, hr, -⟩ := Sound.hasRole ht (use?_of_getElem? (frame_ok hd))
        exact (Sound.orphan ht hd hr htransit).1
    | freed hd _ hstill hunlink hclear =>
        obtain ⟨page, hres⟩ := Sound.resident_of_cleared ht hd hstill hunlink hclear
        exact (Sound.unlink_clear ht hres hunlink hclear).1
  · intro x r hr
    have huse := (releaseSpace_ok h).2 x
    rw [hr] at huse
    unfold HasRole
    rw [huse, Option.map_some, gaveUp_use]

/-! ## TLB slots and new tables -/

theorem setTlbSlot_sameLinks {slot : Option Nat} {r : Except FrameError Unit}
    (h : m.setTlbSlot i slot = .ok (r, m')) : m.SameLinks m' := by
  cases setTlbSlot_cases h with
  | refused => exact .refl m
  | set hd => exact put_sameLinks hd rfl rfl

theorem Sound.setTlbSlot {slot : Option Nat} {r : Except FrameError Unit} (hm : m.Sound)
    (h : m.setTlbSlot i slot = .ok (r, m')) : m'.Sound :=
  hm.of_alike (setTlbSlot_alike h) (setTlbSlot_sameLinks h)

/-- A new table is sound, and all its frames are free. -/
theorem create_sound {count base : Nat} {policy : PlacementPolicy}
    (h : create count base (.ofPolicy policy) = .ok m) :
    m.Sound ∧ ∀ x r, m.HasRole x r → r = .free := by
  unfold create at h
  split at h
  · have he := (Except.ok.inj h).symm
    have hfree : ∀ (x : Nat) d, m.frames[x]? = some d → d = .free := by
      intro x d hd
      rw [he] at hd
      obtain ⟨hx, hget⟩ := Array.getElem?_eq_some_iff.mp hd
      rw [← hget, Array.getElem_replicate]
    have hrole : ∀ x r, m.HasRole x r → r = .free := by
      intro x r hr
      obtain ⟨d, hd, hu⟩ := Option.map_eq_some_iff.mp hr
      rw [hfree x d hd] at hu
      exact FrameRole.use_inj hu.symm
    refine ⟨⟨?_, ?_, ?_, [], ⟨.nil, ?_, ?_, ?_, ?_⟩, ?_⟩, hrole⟩
    · rw [he]
      cases policy <;> trivial
    · intro x u hu
      obtain ⟨d, hd, rfl⟩ := Option.map_eq_some_iff.mp hu
      rw [hfree x d hd]
      exact ⟨.free, rfl⟩
    · intro x hx
      exact nomatch hrole x _ hx
    · rw [he]
      rfl
    · rw [he]
      rfl
    · intro older i newer hl
      exact absurd hl.symm (by simp)
    · intro x _ link hlink
      obtain ⟨d, hd, rfl⟩ := Option.map_eq_some_iff.mp hlink
      rw [hfree x d hd]
      rfl
    · intro x
      refine ⟨fun hx => (List.not_mem_nil hx).elim, ?_⟩
      rintro ⟨page, hp⟩
      exact nomatch hrole x _ hp
  · exact nomatch h

end Coremap

end PhysMem
