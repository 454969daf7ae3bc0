import PhysMem.Proofs.Bits
import PhysMem.Proofs.SlotOutcomes
import PhysMem.Proofs.Sweep

/-!
# The slot map through its view

`SlotMap.state?` tells of one slot whether it is used, for which page, and where it stands. Each
operation of the map changes the view at one slot and nowhere else, apart from the sweep of an
address space, which treats all slots alike.

* **`Sound`** ties the bit vectors together: a slot is used when it has a page, busy slots are used
  and orphaned slots are busy.
* **`Sets`** says that one slot takes a new state; the lemma of each operation is stated with it.
* **`swept`** is what a sweep makes of a slot.
-/

namespace PhysMem.SlotMap

/-- The bit vectors of the map agree with each other and with the pages. -/
structure Sound (m : SlotMap) : Prop where
  used_eq : ∀ slot, m.used.bit slot = (m.owner slot).isSome
  used_of_busy : ∀ slot, m.busy.bit slot = true → m.used.bit slot = true
  busy_of_orphaned : ∀ slot, m.orphaned.bit slot = true → m.busy.bit slot = true

/-- `m'` is `m` with slot `slot` in state `s`. -/
structure Sets (m : SlotMap) (slot : Nat) (s : Option (Page × SlotState)) (m' : SlotMap) :
    Prop where
  sound : m'.Sound
  capacity : m'.capacity = m.capacity
  state : ∀ x, m'.state? x = if x = slot then s else m.state? x

theorem Sets.self {m m' : SlotMap} {slot : Nat} {s : Option (Page × SlotState)}
    (h : m.Sets slot s m') : m'.state? slot = s := by
  rw [h.state, if_pos rfl]

theorem Sets.other {m m' : SlotMap} {slot x : Nat} {s : Option (Page × SlotState)}
    (h : m.Sets slot s m') (hx : x ≠ slot) : m'.state? x = m.state? x := by
  rw [h.state, if_neg hx]

/-! ## Reading the view -/

theorem owner_eq_map_state? (m : SlotMap) (slot : Nat) :
    m.owner slot = (m.state? slot).map Prod.fst := by
  unfold state?
  cases m.owner slot <;> rfl

theorem owner_of_state? {m : SlotMap} {slot : Nat} {page : Page} {s : SlotState}
    (h : m.state? slot = some (page, s)) : m.owner slot = some page := by
  rw [owner_eq_map_state?, h]
  rfl

theorem state?_of_owner {m : SlotMap} {slot : Nat} {page : Page} (h : m.owner slot = some page) :
    ∃ s, m.state? slot = some (page, s) := by
  unfold state?
  rw [h]
  exact ⟨_, rfl⟩

theorem state?_eq_none {m : SlotMap} {slot : Nat} : m.state? slot = none ↔ m.owner slot = none := by
  unfold state?
  exact Option.map_eq_none_iff

/-- A slot with a page is a slot of the map. -/
theorem lt_capacity_of_owner {m : SlotMap} {slot : Nat} {page : Page}
    (h : m.owner slot = some page) : slot < m.capacity := by
  unfold owner at h
  cases hs : m.owners[slot]? with
  | none =>
      rw [hs] at h
      exact nomatch h
  | some o => exact (Array.getElem?_eq_some_iff.mp hs).1

theorem isUsed_of_owner {m : SlotMap} {slot : Nat} {page : Page} (hm : m.Sound)
    (h : m.owner slot = some page) : m.isUsed slot = .ok true := by
  have hused : m.used.bit slot = true := by
    rw [hm.used_eq, h]
    rfl
  unfold isUsed
  rw [if_pos (lt_capacity_of_owner h), Bits.get_eq_ok_of_bit hused]

/-- A slot that is found used has a page. -/
theorem owner_of_isUsed {m : SlotMap} {slot : Nat} (hm : m.Sound)
    (h : m.isUsed slot = .ok true) : ∃ page, m.owner slot = some page := by
  unfold isUsed at h
  split at h
  · have hused : (m.owner slot).isSome = true := by
      rw [← hm.used_eq]
      exact Bits.bit_of_get h
    exact Option.isSome_iff_exists.mp hused
  · exact nomatch h

/-- Busy slots are those with a state other than idle. -/
theorem busy_bit_iff {m : SlotMap} {slot : Nat} {page : Page} {s : SlotState} (hm : m.Sound)
    (h : m.state? slot = some (page, s)) : m.busy.bit slot = true ↔ s ≠ .idle := by
  unfold state? at h
  rw [owner_of_state? h] at h
  have hs := congrArg Prod.snd (Option.some.inj h)
  dsimp only at hs
  subst hs
  cases ho : m.orphaned.bit slot with
  | true => simp [hm.busy_of_orphaned slot ho]
  | false => cases m.busy.bit slot <;> simp

theorem orphaned_bit_iff {m : SlotMap} {slot : Nat} {page : Page} {s : SlotState}
    (h : m.state? slot = some (page, s)) : m.orphaned.bit slot = true ↔ s = .orphaned := by
  unfold state? at h
  rw [owner_of_state? h] at h
  have hs := congrArg Prod.snd (Option.some.inj h)
  dsimp only at hs
  subst hs
  cases m.orphaned.bit slot with
  | true => simp
  | false => cases m.busy.bit slot <;> simp

/-- The slots of a map that has just been made are free. -/
theorem empty_spec (n : Nat) :
    (empty n).Sound ∧ (empty n).capacity = n ∧ ∀ x, (empty n).state? x = none := by
  have hbit : ∀ x, (Bits.clear n).bit x = false := (Bits.clear_spec n).2
  have howner : ∀ x, (empty n).owner x = none := by
    intro x
    unfold owner empty
    rw [Array.getElem?_replicate]
    split <;> rfl
  refine ⟨⟨?_, ?_, ?_⟩, Array.size_replicate, ?_⟩
  · intro x
    rw [howner]
    exact hbit x
  · intro x hx
    exact absurd hx (by rw [show (empty n).busy.bit x = false from hbit x]; exact Bool.false_ne_true)
  · intro x hx
    exact absurd hx
      (by rw [show (empty n).orphaned.bit x = false from hbit x]; exact Bool.false_ne_true)
  · intro x
    exact state?_eq_none.mpr (howner x)

/-! ## Changing one slot -/

theorem putOwner_ok {m m' : SlotMap} {slot : Nat} {o : Option Page}
    (h : m.putOwner slot o = .ok m') :
    m'.used = m.used ∧ m'.busy = m.busy ∧ m'.orphaned = m.orphaned ∧ m'.capacity = m.capacity ∧
      ∀ x, m'.owner x = if x = slot then o else m.owner x := by
  obtain ⟨hslot, rfl⟩ := putOwner_eq_ok h
  refine ⟨rfl, rfl, rfl, Array.size_setIfInBounds, fun x => ?_⟩
  unfold owner
  by_cases hx : x = slot
  · subst hx
    rw [if_pos rfl]
    simp only [Array.getElem?_setIfInBounds_self_of_lt hslot]
    rfl
  · rw [if_neg hx]
    simp only [Array.getElem?_setIfInBounds_ne (Ne.symm hx)]

/-- What the bits and the page of each slot come to. -/
theorem Sets.of_bits {m m' : SlotMap} {slot : Nat} (o : Option Page) (busy orphaned : Bool)
    (hm : m.Sound) (hcap : m'.capacity = m.capacity)
    (hused : ∀ x, m'.used.bit x = if x = slot then o.isSome else m.used.bit x)
    (hbusy : ∀ x, m'.busy.bit x = if x = slot then busy else m.busy.bit x)
    (horph : ∀ x, m'.orphaned.bit x = if x = slot then orphaned else m.orphaned.bit x)
    (howner : ∀ x, m'.owner x = if x = slot then o else m.owner x)
    (hbo : busy = true → o.isSome = true) (hob : orphaned = true → busy = true) :
    m.Sets slot (o.map fun page =>
      (page, if orphaned then .orphaned else if busy then .busy else .idle)) m' := by
  refine ⟨⟨?_, ?_, ?_⟩, hcap, ?_⟩
  · intro x
    rw [hused, howner]
    split
    · rfl
    · exact hm.used_eq x
  · intro x hx
    rw [hbusy] at hx
    rw [hused]
    split at hx
    · next he => rw [if_pos he]; exact hbo hx
    · next he => rw [if_neg he]; exact hm.used_of_busy x hx
  · intro x hx
    rw [horph] at hx
    rw [hbusy]
    split at hx
    · next he => rw [if_pos he]; exact hob hx
    · next he => rw [if_neg he]; exact hm.busy_of_orphaned x hx
  · intro x
    unfold state?
    rw [howner, hbusy, horph]
    split <;> rfl

/-- Setting what is there already changes nothing. -/
theorem eq_ite_of_eq {α : Type} {f : Nat → α} {slot : Nat} {v : α} (h : f slot = v) (x : Nat) :
    f x = if x = slot then v else f x := by
  split
  · next he => rw [he, h]
  · rfl

/-- The bits of a slot in use change, and the page stays. -/
theorem Sets.of_owner {m : SlotMap} {busy orphaned : Bits} {slot : Nat} {page : Page}
    (isBusy isOrphan : Bool) (hm : m.Sound) (howner : m.owner slot = some page)
    (hbusy : ∀ x, busy.bit x = if x = slot then isBusy else m.busy.bit x)
    (horphaned : ∀ x, orphaned.bit x = if x = slot then isOrphan else m.orphaned.bit x)
    (hob : isOrphan = true → isBusy = true) :
    m.Sets slot (some (page, if isOrphan then .orphaned else if isBusy then .busy else .idle))
      { m with busy, orphaned } := by
  have hused : m.used.bit slot = true := by
    rw [hm.used_eq, howner]
    rfl
  exact .of_bits (some page) isBusy isOrphan hm rfl (eq_ite_of_eq hused) hbusy horphaned
    (eq_ite_of_eq howner) (fun _ => rfl) hob

/-- A cleared slot is free. -/
theorem clear_ok {m m' : SlotMap} {slot : Nat} (hm : m.Sound) (h : m.clear slot = .ok m') :
    m.Sets slot none m' := by
  cases clear_cases h with
  | used _ hused _ hbusy horphaned hput =>
      obtain ⟨hu, hb, ho, hcap, howner⟩ := putOwner_ok hput
      exact .of_bits none false false hm hcap (hu ▸ (Bits.bit_of_set hused).2)
        (hb ▸ (Bits.bit_of_set hbusy).2) (ho ▸ (Bits.bit_of_set horphaned).2) howner id id
  | free hwas hbusy horphaned hput =>
      obtain ⟨hu, hb, ho, hcap, howner⟩ := putOwner_ok hput
      have hfree : m'.used.bit slot = false := hu ▸ Bits.bit_of_get hwas
      exact .of_bits none false false hm hcap (hu ▸ eq_ite_of_eq hfree)
        (hb ▸ (Bits.bit_of_set hbusy).2) (ho ▸ (Bits.bit_of_set horphaned).2) howner id id

/-- A reserved slot was free, and is busy for the page from the start. -/
theorem reserve_ok {m m' : SlotMap} {slot : Nat} {page : Page} (hm : m.Sound)
    (h : m.reserve page = .ok (.ok slot, m')) :
    m.state? slot = none ∧ m.Sets slot (some (page, .busy)) m' := by
  cases reserve_cases h with
  | @reserved _ _ _ _ m₁ hfirst _ hused hbusy hput _ =>
      obtain ⟨hu, hb, ho, hcap, howner⟩ := putOwner_ok hput
      have hfree : m.used.bit slot = false := (Bits.firstClear_bit hfirst).2
      have hnone : m.owner slot = none := by
        rw [hm.used_eq] at hfree
        exact Option.not_isSome_iff_eq_none.mp (Bool.eq_false_iff.mp hfree)
      have hidle : m.busy.bit slot = false :=
        Bool.eq_false_iff.mpr fun hset => Bool.eq_false_iff.mp hfree (hm.used_of_busy slot hset)
      have hlive : m.orphaned.bit slot = false :=
        Bool.eq_false_iff.mpr fun hset =>
          Bool.eq_false_iff.mp hidle (hm.busy_of_orphaned slot hset)
      have hlive : m₁.orphaned.bit slot = false := ho ▸ hlive
      exact ⟨state?_eq_none.mpr hnone,
        .of_bits (some page) true false hm hcap (hu ▸ (Bits.bit_of_set hused).2)
          (hb ▸ (Bits.bit_of_set hbusy).2) (ho ▸ eq_ite_of_eq hlive) howner (fun _ => rfl)
          (fun _ => rfl)⟩

/-- A reservation that fails leaves the map alone. -/
theorem reserve_error {m m' : SlotMap} {page : Page} {e : SwapError}
    (h : m.reserve page = .ok (.error e, m')) : m' = m ∧ e = .swapFull := by
  cases reserve_cases h with
  | full => exact ⟨rfl, rfl⟩

/-- A slot in use that is not busy is idle. -/
theorem state?_idle_of_get {m : SlotMap} {slot : Nat} {page : Page} (hm : m.Sound)
    (howner : m.owner slot = some page) (h : m.busy.get slot = .ok false) :
    m.state? slot = some (page, .idle) := by
  obtain ⟨s, hs⟩ := state?_of_owner howner
  by_cases hidle : s = .idle
  · rw [hs, hidle]
  · exact absurd (Bits.bit_of_get h) (Bool.eq_false_iff.mp · ((busy_bit_iff hm hs).mpr hidle))

/-- A slot that is held was idle, and is busy now. -/
theorem hold_true {m m' : SlotMap} {slot : Nat} {page : Page} (hm : m.Sound)
    (h : m.hold slot page = .ok (true, m')) :
    m.state? slot = some (page, .idle) ∧ m.Sets slot (some (page, .busy)) m' := by
  cases hold_cases h with
  | held howner hidle hset =>
      have hlive : m.orphaned.bit slot = false :=
        Bool.eq_false_iff.mpr fun hb =>
          Bool.eq_false_iff.mp (Bits.bit_of_get hidle) (hm.busy_of_orphaned slot hb)
      exact ⟨state?_idle_of_get hm howner hidle,
        .of_owner true false hm howner (Bits.bit_of_set hset).2 (eq_ite_of_eq hlive) nofun⟩

theorem hold_false {m m' : SlotMap} {slot : Nat} {page : Page}
    (h : m.hold slot page = .ok (false, m')) : m' = m := by
  cases hold_cases h with
  | other | busy => rfl

/-- An idle slot can be held for its page. -/
theorem hold_of_idle {m m' : SlotMap} {slot : Nat} {page : Page} {b : Bool} (hm : m.Sound)
    (hs : m.state? slot = some (page, .idle)) (h : m.hold slot page = .ok (b, m')) : b = true := by
  cases hold_cases h with
  | other hother => exact absurd (owner_of_state? hs) hother
  | busy _ hbusy => exact absurd rfl ((busy_bit_iff hm hs).mp (Bits.bit_of_get hbusy))
  | held => rfl

/-- A transfer ends: a slot of another page stays as it is, an orphaned one is freed, and any other
is idle. -/
theorem settle_ok {m m' : SlotMap} {slot : Nat} {page : Page} {live : Bool} (hm : m.Sound)
    (h : m.settle slot page = .ok (live, m')) :
    (m.owner slot ≠ some page ∧ live = false ∧ m' = m) ∨
      (m.state? slot = some (page, .orphaned) ∧ live = false ∧ m.Sets slot none m') ∨
      ((∃ s, m.state? slot = some (page, s) ∧ s ≠ .orphaned) ∧ live = true ∧
        m.Sets slot (some (page, .idle)) m') := by
  cases settle_cases h with
  | other hother => exact Or.inl ⟨hother, rfl, rfl⟩
  | orphaned howner horphaned hclear =>
      obtain ⟨s, hs⟩ := state?_of_owner howner
      obtain rfl : s = .orphaned := (orphaned_bit_iff hs).mp (Bits.bit_of_get horphaned)
      exact Or.inr (Or.inl ⟨hs, rfl, clear_ok hm hclear⟩)
  | live howner hlive hset =>
      obtain ⟨s, hs⟩ := state?_of_owner howner
      have hlive := Bits.bit_of_get hlive
      refine Or.inr (Or.inr ⟨⟨s, hs, fun he => ?_⟩, rfl,
        .of_owner false false hm howner (Bits.bit_of_set hset).2 (eq_ite_of_eq hlive) id⟩)
      exact Bool.eq_false_iff.mp hlive ((orphaned_bit_iff hs).mpr he)

/-- A slot that was settled and is live is the page's and idle. -/
theorem state?_of_settle {m m' : SlotMap} {slot : Nat} {page : Page} (hm : m.Sound)
    (h : m.settle slot page = .ok (true, m')) : m'.state? slot = some (page, .idle) := by
  rcases settle_ok hm h with ⟨-, hdead, -⟩ | ⟨-, hdead, -⟩ | ⟨-, -, hset⟩
  · exact nomatch hdead
  · exact nomatch hdead
  · exact hset.self

/-- A slot that was settled and is live is not busy. -/
theorem isBusy_of_settle {m m' : SlotMap} {slot : Nat} {page : Page}
    (h : m.settle slot page = .ok (true, m')) : m'.isBusy slot = .ok false := by
  cases settle_cases h with
  | live howner _ hset =>
      have hslot : slot < m.capacity := lt_capacity_of_owner howner
      exact (if_pos hslot).trans (Bits.get_of_set hset)

/-- A guarded release frees the slot if it is still the page's, and nothing else. -/
theorem releaseIfOwned_ok {m m' : SlotMap} {slot : Nat} {page : Page} {b : Bool} (hm : m.Sound)
    (h : m.releaseIfOwned slot page = .ok (b, m')) :
    (m.owner slot ≠ some page ∧ b = false ∧ m' = m) ∨
      (m.owner slot = some page ∧ b = true ∧ m.Sets slot none m') := by
  cases releaseIfOwned_cases h with
  | other hother => exact Or.inl ⟨hother, rfl, rfl⟩
  | cleared howner hclear => exact Or.inr ⟨howner, rfl, clear_ok hm hclear⟩

/-- A bare release frees the slot, whoever has it. -/
theorem release_ok {m m' : SlotMap} {slot : Nat} (hm : m.Sound)
    (h : m.release slot = .ok (.ok (), m')) : m.Sets slot none m' := by
  cases release_cases h with
  | cleared _ hclear => exact clear_ok hm hclear

theorem release_error {m m' : SlotMap} {slot : Nat} {e : SwapError}
    (h : m.release slot = .ok (.error e, m')) : m' = m ∧ m.capacity ≤ slot := by
  cases release_cases h with
  | outside hslot => exact ⟨rfl, hslot⟩

/-! ## The sweep of an address space -/

/-- What a sweep of `space` makes of a slot: an idle one of its pages is freed, a busy one
orphaned. -/
def swept (space : Nat) : Option (Page × SlotState) → Option (Page × SlotState)
  | none => none
  | some (page, s) =>
      if page.space ≠ space then some (page, s)
      else if s = .idle then none
      else some (page, .orphaned)

theorem swept_other {space : Nat} {page : Page} {s : SlotState} (h : page.space ≠ space) :
    swept space (some (page, s)) = some (page, s) := if_pos h

theorem swept_idle {space : Nat} {page : Page} (h : page.space = space) :
    swept space (some (page, .idle)) = none := (if_neg (not_not_intro h)).trans (if_pos rfl)

theorem swept_busy {space : Nat} {page : Page} {s : SlotState} (h : page.space = space)
    (hs : s ≠ .idle) : swept space (some (page, s)) = some (page, .orphaned) :=
  (if_neg (not_not_intro h)).trans (if_neg hs)

/-- What a sweep leaves in use it leaves alone, or it has orphaned it. -/
theorem swept_eq_some {space : Nat} {page : Page} {s : SlotState}
    {entry : Option (Page × SlotState)} (h : swept space entry = some (page, s)) :
    page.space ≠ space ∧ entry = some (page, s) ∨
      page.space = space ∧ s = .orphaned ∧ ∃ t, t ≠ .idle ∧ entry = some (page, t) := by
  cases entry with
  | none => exact nomatch h
  | some entry =>
      obtain ⟨q, t⟩ := entry
      by_cases hspace : q.space = space
      · by_cases hidle : t = .idle
        · subst hidle
          rw [swept_idle hspace] at h
          exact nomatch h
        · rw [swept_busy hspace hidle] at h
          cases h
          exact Or.inr ⟨hspace, rfl, t, hidle, rfl⟩
      · rw [swept_other hspace] at h
        cases h
        exact Or.inl ⟨hspace, rfl⟩

/-- A sweep takes the slot it visits to its swept state. -/
theorem releaseOne_ok {m m' : SlotMap} {space slot : Nat} {b : Bool} (hm : m.Sound)
    (h : m.releaseOne space slot = .ok (b, m')) : m.Sets slot (swept space (m.state? slot)) m' := by
  cases releaseOne_cases h with
  | free hfree =>
      rw [state?_eq_none.mpr hfree]
      exact ⟨hm, rfl, eq_ite_of_eq (state?_eq_none.mpr hfree)⟩
  | other howner hother =>
      obtain ⟨s, hs⟩ := state?_of_owner howner
      rw [hs, swept_other hother]
      exact ⟨hm, rfl, eq_ite_of_eq hs⟩
  | orphaned howner hspace hbusy hset =>
      obtain ⟨s, hs⟩ := state?_of_owner howner
      have hbusy := Bits.bit_of_get hbusy
      rw [hs, swept_busy hspace ((busy_bit_iff hm hs).mp hbusy)]
      exact .of_owner true true hm howner (eq_ite_of_eq hbusy) (Bits.bit_of_set hset).2
        (fun _ => rfl)
  | cleared howner hspace hidle hclear =>
      rw [state?_idle_of_get hm howner hidle, swept_idle hspace]
      exact clear_ok hm hclear

/-- A sweep treats every slot alike. -/
theorem releaseSpace_ok {m m' : SlotMap} {space n : Nat} (hm : m.Sound)
    (h : m.releaseSpace space = .ok (n, m')) :
    m'.Sound ∧ m'.capacity = m.capacity ∧ ∀ x, m'.state? x = swept space (m.state? x) := by
  have hpast : ∀ x, m.capacity ≤ x → m.state? x = none := by
    intro x hx
    refine state?_eq_none.mpr ?_
    cases ho : m.owner x with
    | none => rfl
    | some page => exact absurd (lt_capacity_of_owner ho) (Nat.not_lt.mpr hx)
  -- behind the first `k` slots those are swept and the others as they were
  have key : m'.Sound ∧ m'.capacity = m.capacity ∧
      ∀ x, m'.state? x = if x < m.capacity then swept space (m.state? x) else m.state? x := by
    refine Sweep.foldlM_range
      (P := fun k (t : Nat × SlotMap) => t.2.Sound ∧ t.2.capacity = m.capacity ∧
        ∀ x, t.2.state? x = if x < k then swept space (m.state? x) else m.state? x)
      ⟨hm, rfl, fun x => ?_⟩ ?_ h
    · rw [if_neg (Nat.not_lt_zero x)]
    · rintro k ⟨c, t⟩ ⟨c', t'⟩ - ⟨ht, hcap, hstate⟩ hone
      obtain ⟨⟨b, u⟩, hu, he⟩ := Fault.bind_eq_ok.mp hone
      cases he
      have hset := releaseOne_ok ht hu
      refine ⟨hset.sound, hset.capacity.trans hcap, fun x => ?_⟩
      rw [hset.state]
      by_cases hx : x = k
      · subst hx
        rw [if_pos rfl, if_pos (Nat.lt_succ_self x), hstate, if_neg (Nat.lt_irrefl x)]
      · rw [if_neg hx, hstate]
        by_cases hlt : x < k
        · rw [if_pos hlt, if_pos (Nat.lt_succ_of_lt hlt)]
        · rw [if_neg hlt, if_neg (by omega)]
  obtain ⟨hs, hc, hstate⟩ := key
  refine ⟨hs, hc, fun x => ?_⟩
  rw [hstate]
  split
  · rfl
  · next hx =>
      rw [hpast x (Nat.le_of_not_lt hx)]
      rfl

end PhysMem.SlotMap
