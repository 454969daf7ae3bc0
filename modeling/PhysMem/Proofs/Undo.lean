import PhysMem.Proofs.Queue
import PhysMem.Proofs.SlotMap

/-!
# Undoing — what is taken back leaves no trace

An operation that fails takes back what it has done so far: it releases the slot that it reserved,
lets go of the slot that it held, puts the frame that it detached back and gives the frame that it
claimed free. Each of these steps undoes the one before it in every field of every descriptor and in
every bit, not just in what an observer would ask for.

* **`SlotMap.Sound.ext`** and **`Linked.ext`** say by what a slot map and a coremap are known.
* **`release_undoes_reserve`**, **`settle_undoes_hold`**, **`abort_undoes_detach`** and
  **`discard_undoes_claim`** are the four ways back.
* **`SlotMap.Fills`** and **`Coremap.Evicts`** are what an eviction that succeeds does to either.
-/

namespace PhysMem

namespace SlotMap

variable {m m' m₁ m₂ : SlotMap} {slot x : Nat} {page q : Page} {b : Bool}

/-- Both maps have as many slots and as much room for their bits. -/
structure SameShape (m m' : SlotMap) : Prop where
  used : m'.used.room = m.used.room
  busy : m'.busy.room = m.busy.room
  orphaned : m'.orphaned.room = m.orphaned.room
  capacity : m'.capacity = m.capacity

theorem SameShape.trans (h : m.SameShape m') (h' : m'.SameShape m₁) : m.SameShape m₁ :=
  ⟨h'.used.trans h.used, h'.busy.trans h.busy, h'.orphaned.trans h.orphaned,
    h'.capacity.trans h.capacity⟩

theorem SameShape.symm (h : m.SameShape m') : m'.SameShape m :=
  ⟨h.used.symm, h.busy.symm, h.orphaned.symm, h.capacity.symm⟩

/-- **A sound map is known by the view of its slots**, its shape and its count. -/
theorem Sound.ext (hm : m.Sound) (hm' : m'.Sound) (hshape : m.SameShape m')
    (hcount : m'.count = m.count) (hstate : ∀ x, m'.state? x = m.state? x) : m' = m := by
  have howner : ∀ x, m'.owner x = m.owner x := by
    intro x
    rw [owner_eq_map_state?, owner_eq_map_state?, hstate]
  have hbits : ∀ x, m'.orphaned.bit x = m.orphaned.bit x ∧ m'.busy.bit x = m.busy.bit x := by
    intro x
    cases hs : m.state? x with
    | some entry =>
        obtain ⟨page, s⟩ := entry
        have hs' := (hstate x).trans hs
        exact ⟨Bool.eq_iff_iff.mpr ((orphaned_bit_iff hs').trans (orphaned_bit_iff hs).symm),
          Bool.eq_iff_iff.mpr ((busy_bit_iff hm' hs').trans (busy_bit_iff hm hs).symm)⟩
    | none =>
        -- a slot without a page has no bit set
        have clear : ∀ {n : SlotMap}, n.Sound → n.state? x = none →
            n.orphaned.bit x = false ∧ n.busy.bit x = false := by
          intro n hn hnone
          have hused : n.used.bit x = false := by
            rw [hn.used_eq, state?_eq_none.mp hnone]
            rfl
          have hbusy : n.busy.bit x = false :=
            Bool.eq_false_iff.mpr fun h => Bool.eq_false_iff.mp hused (hn.used_of_busy x h)
          exact ⟨Bool.eq_false_iff.mpr fun h =>
            Bool.eq_false_iff.mp hbusy (hn.busy_of_orphaned x h), hbusy⟩
        obtain ⟨ho, hb⟩ := clear hm hs
        obtain ⟨ho', hb'⟩ := clear hm' ((hstate x).trans hs)
        exact ⟨ho'.trans ho.symm, hb'.trans hb.symm⟩
  have hused : m'.used = m.used := by
    refine Bits.ext_bit hshape.used fun x => ?_
    rw [hm'.used_eq, hm.used_eq, howner]
  have hbusy : m'.busy = m.busy := Bits.ext_bit hshape.busy fun x => (hbits x).2
  have horphaned : m'.orphaned = m.orphaned := Bits.ext_bit hshape.orphaned fun x => (hbits x).1
  have howners : m'.owners = m.owners := by
    refine Array.ext hshape.capacity fun x hx' hx => ?_
    have := howner x
    unfold owner at this
    rwa [Array.getElem?_eq_getElem hx', Array.getElem?_eq_getElem hx] at this
  cases m
  cases m'
  simp_all

/-! ## What stays of the shape and the count -/

theorem putOwner_shape {o : Option Page} (h : m.putOwner slot o = .ok m') :
    m.SameShape m' ∧ m'.count = m.count := by
  obtain ⟨-, rfl⟩ := putOwner_eq_ok h
  exact ⟨⟨rfl, rfl, rfl, Array.size_setIfInBounds⟩, rfl⟩

/-- Clearing a used slot takes one off the count, clearing a free one takes nothing off. -/
theorem clear_shape (h : m.clear slot = .ok m') :
    m.SameShape m' ∧ m'.count + (m.used.bit slot).toNat = m.count := by
  cases clear_cases h with
  | @used _ _ _ count _ hwas hused hcount hbusy horphaned hput =>
      obtain ⟨hshape, hsame⟩ := putOwner_shape hput
      have hless : count + 1 = m.count := by
        unfold Word.sub at hcount
        split at hcount
        · cases hcount
          omega
        · exact nomatch hcount
      rw [Bits.bit_of_get hwas]
      exact ⟨⟨hshape.used.trans (Bits.bit_of_set hused).1,
        hshape.busy.trans (Bits.bit_of_set hbusy).1,
        hshape.orphaned.trans (Bits.bit_of_set horphaned).1, hshape.capacity⟩,
        (congrArg (· + 1) hsame).trans hless⟩
  | free hwas hbusy horphaned hput =>
      obtain ⟨hshape, hsame⟩ := putOwner_shape hput
      rw [Bits.bit_of_get hwas]
      exact ⟨⟨hshape.used, hshape.busy.trans (Bits.bit_of_set hbusy).1,
        hshape.orphaned.trans (Bits.bit_of_set horphaned).1, hshape.capacity⟩, hsame⟩

/-- A reservation adds one to the count. -/
theorem reserve_shape (h : m.reserve page = .ok (.ok slot, m')) :
    m.SameShape m' ∧ m'.count = m.count + 1 := by
  cases reserve_cases h with
  | @reserved _ count _ _ m₁ _ _ hused hbusy hput hadd =>
      obtain ⟨hshape, hsame⟩ := putOwner_shape hput
      have hmore : count = m₁.count + 1 := Word.eq_of_add hadd
      exact ⟨⟨hshape.used.trans (Bits.bit_of_set hused).1,
        hshape.busy.trans (Bits.bit_of_set hbusy).1, hshape.orphaned, hshape.capacity⟩,
        hmore.trans (congrArg (· + 1) hsame)⟩

/-- Marking a slot busy or idle touches no other part of the map. -/
theorem hold_shape (h : m.hold slot page = .ok (true, m')) :
    m.SameShape m' ∧ m'.count = m.count := by
  cases hold_cases h with
  | held _ _ hset => exact ⟨⟨rfl, (Bits.bit_of_set hset).1, rfl, rfl⟩, rfl⟩

theorem settle_shape (h : m.settle slot page = .ok (true, m')) :
    m.SameShape m' ∧ m'.count = m.count := by
  cases settle_cases h with
  | live _ _ hset => exact ⟨⟨rfl, (Bits.bit_of_set hset).1, rfl, rfl⟩, rfl⟩

/-- The transfer of a slot that is not orphaned ends with the slot idle. -/
theorem settle_live {s : SlotState} {live : Bool} (hm : m.Sound)
    (hs : m.state? slot = some (page, s)) (hne : s ≠ .orphaned)
    (h : m.settle slot page = .ok (live, m')) :
    live = true ∧ m.Sets slot (some (page, .idle)) m' := by
  rcases settle_ok hm h with ⟨hother, -⟩ | ⟨horphan, -⟩ | ⟨-, hlive, hset⟩
  · exact absurd (owner_of_state? hs) hother
  · cases hs.symm.trans horphan
    exact absurd rfl hne
  · exact ⟨hlive, hset⟩

/-! ## Ways back -/

/-- **Releasing the slot that was reserved** leaves the map as it was. -/
theorem release_undoes_reserve (hm : m.Sound) (h : m.reserve page = .ok (.ok slot, m₁))
    (h' : m₁.releaseIfOwned slot page = .ok (b, m₂)) : m₂ = m := by
  obtain ⟨hfree, hset⟩ := reserve_ok hm h
  obtain ⟨hshape, hmore⟩ := reserve_shape h
  have howner : m₁.owner slot = some page := owner_of_state? hset.self
  cases releaseIfOwned_cases h' with
  | other hother => exact absurd howner hother
  | cleared _ hclear =>
      have hset' := clear_ok hset.sound hclear
      obtain ⟨hshape', hless⟩ := clear_shape hclear
      have hused : m₁.used.bit slot = true := by
        rw [hset.sound.used_eq, howner]
        rfl
      rw [hused, Bool.toNat_true] at hless
      refine hm.ext hset'.sound (hshape.trans hshape') ?_ fun x => ?_
      · omega
      · by_cases hx : x = slot
        · rw [hx, hset'.self, hfree]
        · rw [hset'.other hx, hset.other hx]

/-- **Letting go of the slot that was held** leaves the map as it was. -/
theorem settle_undoes_hold (hm : m.Sound) (h : m.hold slot page = .ok (true, m₁))
    (h' : m₁.settle slot page = .ok (b, m₂)) : m₂ = m := by
  obtain ⟨hidle, hset⟩ := hold_true hm h
  obtain ⟨rfl, hset'⟩ := settle_live hset.sound hset.self nofun h'
  obtain ⟨hshape, hsame⟩ := hold_shape h
  obtain ⟨hshape', hsame'⟩ := settle_shape h'
  refine hm.ext hset'.sound (hshape.trans hshape') (hsame'.trans hsame) fun x => ?_
  by_cases hx : x = slot
  · rw [hx, hset'.self, hidle]
  · rw [hset'.other hx, hset.other hx]

/-! ## A slot that is filled -/

/-- `m'` is `m` with a slot reserved for the page and its transfer ended. -/
def Fills (m : SlotMap) (page : Page) (slot : Nat) (m' : SlotMap) : Prop :=
  ∃ m₁, m.reserve page = .ok (.ok slot, m₁) ∧ m₁.settle slot page = .ok (true, m')

/-- The slot was free and is the page's and idle. -/
theorem Fills.spec (hm : m.Sound) (h : m.Fills page slot m') :
    m.state? slot = none ∧ m.Sets slot (some (page, .idle)) m' := by
  obtain ⟨m₁, hreserve, hsettle⟩ := h
  obtain ⟨hfree, hset⟩ := reserve_ok hm hreserve
  have hset' := (settle_live hset.sound hset.self nofun hsettle).2
  refine ⟨hfree, hset'.sound, hset'.capacity.trans hset.capacity, fun x => ?_⟩
  by_cases hx : x = slot
  · rw [hx, if_pos rfl, hset'.self]
  · rw [if_neg hx, hset'.other hx, hset.other hx]

theorem Fills.shape (h : m.Fills page slot m') : m.SameShape m' ∧ m'.count = m.count + 1 := by
  obtain ⟨m₁, hreserve, hsettle⟩ := h
  obtain ⟨hshape, hmore⟩ := reserve_shape hreserve
  obtain ⟨hshape', hsame⟩ := settle_shape hsettle
  exact ⟨hshape.trans hshape', hsame.trans hmore⟩

/-- Which slot is filled does not depend on which slots are busy. -/
theorem Fills.of_busy {busy : Bits} (hroom : busy.room = m.busy.room)
    (h : { m with busy }.Fills page slot m') :
    ∃ busy', m.Fills page slot { m' with busy := busy' } := by
  obtain ⟨m₁, hreserve, hsettle⟩ := h
  cases reserve_cases hreserve with
  | @reserved _ count used set m₂ hfirst hslot hused hset hput hadd =>
      cases settle_cases hsettle with
      | live howner hlive hidle =>
          have hlt : slot < m.busy.room := hroom ▸ Bits.room_of_set hset
          obtain ⟨set', hset'⟩ := Bits.set_eq_ok true hlt
          obtain ⟨idle', hidle'⟩ :=
            Bits.set_eq_ok (b := set') false ((Bits.bit_of_set hset').1 ▸ hlt)
          have hput' : { m with used, busy := set' }.putOwner slot (some page) =
              .ok { m₂ with busy := set' } := by
            obtain ⟨-, rfl⟩ := putOwner_eq_ok hput
            exact if_pos hslot
          exact ⟨idle', { m₂ with busy := set', count },
            reserve_of_firstClear (m := m) hfirst hslot hused hset' hput' hadd,
            settle_of_live howner hlive hidle'⟩

/-- **Letting go of the slot that was held, when another was filled meanwhile,** leaves the map as
if only the other had been filled. -/
theorem Fills.of_held (hm : m.Sound) {held filled : SlotMap}
    (h : m.hold slot page = .ok (true, held)) (hfill : held.Fills q x filled)
    (h' : filled.settle slot page = .ok (b, m')) : m.Fills q x m' := by
  obtain ⟨hidle, hset⟩ := hold_true hm h
  obtain ⟨hfree, hset₁⟩ := hfill.spec hset.sound
  have hne : slot ≠ x := by
    rintro rfl
    exact nomatch hset.self.symm.trans hfree
  obtain ⟨rfl, hset₂⟩ := settle_live hset₁.sound ((hset₁.other hne).trans hset.self) nofun h'
  cases hold_cases h with
  | held _ _ hbusy =>
      obtain ⟨busy', hfill'⟩ := hfill.of_busy (Bits.bit_of_set hbusy).1
      obtain ⟨-, hset'⟩ := hfill'.spec hm
      suffices he : m' = { filled with busy := busy' } from he ▸ hfill'
      obtain ⟨hshape₁, -⟩ := hfill.shape
      obtain ⟨hshape₂, hcount₂⟩ := settle_shape h'
      obtain ⟨hshape, -⟩ := hfill'.shape
      have hheld := (hold_shape h).1
      refine hset'.sound.ext hset₂.sound
        (hshape.symm.trans ((hheld.trans hshape₁).trans hshape₂)) ?_ fun y => ?_
      · exact hcount₂
      · rw [hset₂.state, hset₁.state, hset.state, hset'.state]
        by_cases hy : y = slot
        · rw [if_pos hy, if_neg (hy ▸ hne), hy, hidle]
        · rw [if_neg hy, if_neg hy]

end SlotMap

namespace Coremap

variable {m m' m₁ m₂ : Coremap} {i : Nat} {l : List Nat} {page : Page}

/-! ## The coremap without its chain -/

/-- The descriptor without its neighbours. -/
def alone (d : Descriptor) : Descriptor := { d with prev := none, next := none }

/-- The coremap with all links forgotten. -/
def unlinked (m : Coremap) : Coremap :=
  { m with frames := m.frames.map alone, oldest := none, newest := none }

/-- **A coremap is known by its chain** and by what it is without it. -/
theorem Linked.ext (hl : m.Linked l) (hl' : m'.Linked l) (h : m'.unlinked = m.unlinked) :
    m' = m := by
  have hframes : m'.frames.map alone = m.frames.map alone := congrArg Coremap.frames h
  have hsize : m'.frames.size = m.frames.size := by
    rw [← Array.size_map, hframes, Array.size_map]
  suffices hsame : m'.frames = m.frames by
    have ho := hl'.oldest.trans hl.oldest.symm
    have hn := hl'.newest.trans hl.newest.symm
    cases m
    cases m'
    simp only [unlinked, Coremap.mk.injEq] at h hsame ho hn ⊢
    simp_all
  refine Array.ext hsize fun x hx' hx => ?_
  have halone : alone m'.frames[x] = alone m.frames[x] := by
    have := congrArg (fun a : Array Descriptor => a[x]?) hframes
    simpa [hx', hx] using this
  have hat : m.link? x = some (m.frames[x].prev, m.frames[x].next) := by
    unfold link?
    rw [Array.getElem?_eq_getElem hx]
    rfl
  have hat' : m'.link? x = some (m'.frames[x].prev, m'.frames[x].next) := by
    unfold link?
    rw [Array.getElem?_eq_getElem hx']
    rfl
  -- the list says who the neighbours are
  have hlink : m'.link? x = m.link? x := by
    by_cases hxl : x ∈ l
    · obtain ⟨older, newer, he⟩ := List.append_of_mem hxl
      rw [hl'.link older x newer he, hl.link older x newer he]
    · rw [hat', hl'.off x hxl _ hat', hat, hl.off x hxl _ hat]
  rw [hat', hat] at hlink
  generalize m'.frames[x] = d' at halone hlink
  generalize m.frames[x] = d at halone hlink
  cases d
  cases d'
  simp only [alone, Descriptor.mk.injEq, Option.some.injEq, Prod.mk.injEq] at halone hlink ⊢
  simp_all

/-- A descriptor put where it is. -/
theorem put_self {d : Descriptor} (h : m.frame i = .ok d) : m.put i d = m := by
  have hframes : m.frames.setIfInBounds i d = m.frames := by
    refine Array.ext Array.size_setIfInBounds fun x hx' hx => ?_
    by_cases hxi : i = x
    · subst hxi
      have hd := frame_ok h
      rw [Array.getElem?_eq_getElem hx] at hd
      rw [Array.getElem_setIfInBounds_self]
      exact (Option.some.inj hd).symm
    · exact Array.getElem_setIfInBounds_ne _ hxi
  unfold put
  rw [hframes]

theorem put_put (m : Coremap) (i : Nat) (d e : Descriptor) : (m.put i d).put i e = m.put i e := by
  unfold put
  rw [Array.setIfInBounds_setIfInBounds]

theorem frame_put_self {d : Descriptor} (hi : i < m.size) : (m.put i d).frame i = .ok d := by
  unfold frame put
  rw [Array.getElem?_setIfInBounds_self_of_lt hi]

theorem put_unlinked {d e : Descriptor} (h : m.frame i = .ok d) (he : alone e = alone d) :
    (m.put i e).unlinked = m.unlinked := by
  have hput : m.unlinked.put i (alone d) = m.unlinked := by
    refine put_self ?_
    unfold frame unlinked
    rw [Array.getElem?_map, frame_ok h]
    rfl
  rw [← hput, ← he]
  unfold unlinked put
  rw [Array.map_setIfInBounds]

theorem update_unlinked {f : Descriptor → Descriptor} (h : m.update i f = .ok m')
    (hf : ∀ d, alone (f d) = alone d) : m'.unlinked = m.unlinked := by
  obtain ⟨d, hd, h⟩ := Fault.bind_eq_ok.mp h
  cases h
  exact put_unlinked hd (hf d)

theorem pushNewest_unlinked (h : m.pushNewest i = .ok m') : m'.unlinked = m.unlinked := by
  cases pushNewest_cases h with
  | @behind d _ _ hd _ _ hlink =>
      have hput : (m.put i { d with prev := m.newest }).unlinked = m.unlinked :=
        put_unlinked hd rfl
      exact (update_unlinked hlink fun _ => rfl).trans hput
  | @alone d hd =>
      have hput : (m.put i { d with prev := m.newest }).unlinked = m.unlinked :=
        put_unlinked hd rfl
      exact hput

theorem pushOldest_unlinked (h : m.pushOldest i = .ok m') : m'.unlinked = m.unlinked := by
  cases pushOldest_cases h with
  | @before d _ _ hd _ _ hlink =>
      have hput : (m.put i { d with next := m.oldest }).unlinked = m.unlinked :=
        put_unlinked hd rfl
      exact (update_unlinked hlink fun _ => rfl).trans hput
  | @alone d hd =>
      have hput : (m.put i { d with next := m.oldest }).unlinked = m.unlinked :=
        put_unlinked hd rfl
      exact hput

theorem unlink_unlinked (h : m.unlink i = .ok m') : m'.unlinked = m.unlinked := by
  obtain ⟨d, m₁, hd, hprev, hnext⟩ := unlink_steps h
  have hput : (m.put i { d with prev := none, next := none }).unlinked = m.unlinked :=
    put_unlinked hd rfl
  have h₁ : m₁.unlinked = m.unlinked := by
    cases hp : d.prev with
    | some before =>
        rw [hp] at hprev
        exact (update_unlinked hprev fun _ => rfl).trans hput
    | none =>
        rw [hp] at hprev
        rw [hprev.2]
        exact hput
  cases hn : d.next with
  | some after =>
      rw [hn] at hnext
      exact (update_unlinked hnext fun _ => rfl).trans h₁
  | none =>
      rw [hn] at hnext
      rw [hnext.2]
      exact h₁

/-! ## Ways back -/

/-- **Giving up the eviction of the frame that was detached** leaves the coremap as it was. -/
theorem Sound.abort_undoes_detach {onChain : Bool} (hm : m.Sound)
    (h : m.detachOldest = .ok (some (i, page), m₁))
    (h' : m₁.abortEviction i = .ok (onChain, m₂)) : onChain = true ∧ m₂ = m := by
  obtain ⟨l, hl, -⟩ := hm.chain
  obtain ⟨-, hres, -⟩ := hm.detachOldest h
  cases detachOldest_cases h with
  | @detached _ count _ m₀ d hold hunlink hd _ hadd =>
      have huse : d.use = (FrameRole.resident page).use := by
        have hsame := (unlink_alike hunlink).use i
        rw [use?_of_getElem? (frame_ok hd)] at hsame
        exact Option.some.inj (hsame.trans hres)
      have hevicting : d.evicting = false := congrArg Descriptor.evicting huse
      have horphaned : d.orphaned = false := congrArg Descriptor.orphaned huse
      have hmarked := frame_put_self (d := { d with evicting := true }) (lt_size_of_frame hd)
      cases abortEviction_cases h' with
      | freed hd' _ _ ho =>
          cases hmarked.symm.trans hd'
          exact nomatch horphaned.symm.trans ho
      | @linked _ count' _ hd' _ hsub _ hpush =>
          cases hmarked.symm.trans hd'
          -- without the mark the frame is as it was taken off the chain
          have hback : { (m₀.put i { d with evicting := true }).put i { d with evicting := false }
              with evictingCount := count' } = m₀ := by
            have hcount : count' = m₀.evictingCount := by
              have hmore := eq_of_add hadd
              have hless := eq_of_sub hsub
              dsimp only at hless
              omega
            rw [put_put, ← hevicting, put_self hd, hcount]
          have hpush : m₀.pushOldest i = .ok m₂ := (congrArg (·.pushOldest i) hback).symm.trans hpush
          refine ⟨rfl, hl.ext ?_ ((pushOldest_unlinked hpush).trans (unlink_unlinked hunlink))⟩
          obtain ⟨newer, rfl⟩ : ∃ newer, l = i :: newer := by
            rw [hl.oldest] at hold
            exact List.head?_eq_some_iff.mp hold
          obtain ⟨hl₀, hi⟩ := hl.unlink_erase hunlink
          rw [List.erase_cons_head] at hl₀ hi
          exact hl₀.pushOldest hi hpush

/-- What claiming one user frame does: a free frame is marked. -/
theorem claimPinned_steps (hp : m.placement.IsPolicy)
    (h : m.claimPinned page = .ok (some i, m')) : ∃ d, m.frame i = .ok d ∧ d.allocated = false ∧
      ∃ count, Word.add Word.bits m.userCount 1 = .ok count ∧
      m' = { m.put i (.claimed (.user page) false true) with
        placement := m'.placement, userCount := count } := by
  cases claimRun_cases h with
  | @user _ _ stop last count _ _ hplace hlast hmark hadd =>
      obtain rfl := (place_policy hplace hp).2 i stop rfl
      obtain rfl : last = i := by
        have := eq_of_sub hlast
        omega
      rw [Nat.add_sub_cancel_left] at hmark
      obtain ⟨d, hd, hfree, hmark⟩ := markRun_succ hmark
      cases hmark
      refine ⟨d, hd, hfree, count, hadd, ?_⟩
      rw [bne_self_eq_false]
      rfl

/-- **Giving the frame that was claimed free** leaves the coremap as it was, but for the place where
the next search begins. -/
theorem Exact.discard_undoes_claim (hm : m.Exact) (h : m.claimPinned page = .ok (some i, m₁))
    (h' : m₁.discardPinned i = .ok m₂) : m₂ = { m with placement := m₁.placement } := by
  obtain ⟨d, hd, hfree, count, hcount, he⟩ := claimPinned_steps hm.policy h
  obtain ⟨-, -, -, hclear⟩ := discardPinned_eq_ok h'
  obtain ⟨-, count', -, -, hcount', rfl⟩ := clearUser_eq_ok hclear
  obtain rfl : d = .free := (hm.tidy (frame_ok hd)).free hfree
  have hback : (m.put i (.claimed (.user page) false true)).put i .free = m := by
    rw [put_put, put_self hd]
  have hsame : count' = m.userCount := by
    have hmore := eq_of_add hcount
    have hless := eq_of_sub hcount'
    rw [he] at hless
    dsimp only at hless
    omega
  rw [he, hsame]
  exact congrArg (fun c : Coremap => { c with placement := m₁.placement }) hback

/-! ## A frame that is evicted -/

/-- `m'` is `m` with its oldest frame detached and its eviction ended. -/
def Evicts (m : Coremap) (i : Nat) (page : Page) (m' : Coremap) : Prop :=
  ∃ m₁, m.detachOldest = .ok (some (i, page), m₁) ∧ m₁.finishEviction i = .ok (false, m')

/-- The oldest frame held the page and is free. -/
theorem Evicts.spec (hm : m.Sound) (h : m.Evicts i page m') :
    m.oldest = some i ∧ m.HasRole i (.resident page) ∧ m'.Sound ∧
      m.Puts i FrameRole.free.use m' := by
  obtain ⟨m₁, hdetach, hfinish⟩ := h
  obtain ⟨hm₁, hres, hput⟩ := hm.detachOldest hdetach
  obtain ⟨hm', -, -, hput'⟩ := hm₁.finishEviction hfinish
  exact ⟨(detachOldest_ok hdetach).1, hres, hm', hput.trans hput'⟩

theorem Evicts.exact (hm : m.Exact) (h : m.Evicts i page m') : m'.Exact := by
  obtain ⟨m₁, hdetach, hfinish⟩ := h
  exact (hm.detachOldest hdetach).finishEviction hfinish

end Coremap

end PhysMem
