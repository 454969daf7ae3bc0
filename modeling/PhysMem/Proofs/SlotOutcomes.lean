import PhysMem.Swap.SlotMap

/-!
# Slot outcomes — what the operations of the slot map come to

An operation of the slot map asks for the page of a slot, then for a bit, and then sets bits or
clears the slot. Here every operation is opened once, as those of the coremap are: its view has one
case for each way that it goes well, with what it found on that way and the map it ends with.

* **`ClearCases`** — nothing is left of a slot, and the count goes down only if it was used.
* **`ReserveCases`**, **`HoldCases`** and **`SettleCases`** — a transfer begins and ends.
  **`reserve_of_full`**, **`reserve_of_firstClear`** and **`settle_of_live`** go the other way, from
  what is found to the answer.
* **`ReleaseCases`**, **`ReleaseIfOwnedCases`** and **`ReleaseOneCases`** — slots are cleared.
-/

namespace PhysMem.SlotMap

variable {m m' : SlotMap} {slot space : Nat} {page : Page} {b : Bool}

/-- The page of a slot is replaced. -/
theorem putOwner_eq_ok {o : Option Page} (h : m.putOwner slot o = .ok m') :
    slot < m.capacity ∧ m' = { m with owners := m.owners.setIfInBounds slot o } := by
  unfold putOwner at h
  split at h
  · next hslot =>
      cases h
      exact ⟨hslot, rfl⟩
  · exact nomatch h

/-- A used slot is no longer used and counted, a free one stays free. Of either nothing is left. -/
inductive ClearCases (m : SlotMap) (slot : Nat) : SlotMap → Prop
  | used {used busy orphaned : Bits} {count : Nat} {m' : SlotMap}
      (hwas : m.used.get slot = .ok true) (hused : m.used.set slot false = .ok used)
      (hcount : Word.sub m.count 1 = .ok count) (hbusy : m.busy.set slot false = .ok busy)
      (horphaned : m.orphaned.set slot false = .ok orphaned)
      (hput : { m with used, busy, orphaned, count }.putOwner slot none = .ok m') :
      ClearCases m slot m'
  | free {busy orphaned : Bits} {m' : SlotMap} (hwas : m.used.get slot = .ok false)
      (hbusy : m.busy.set slot false = .ok busy)
      (horphaned : m.orphaned.set slot false = .ok orphaned)
      (hput : { m with busy, orphaned }.putOwner slot none = .ok m') : ClearCases m slot m'

theorem clear_cases (h : m.clear slot = .ok m') : ClearCases m slot m' := by
  obtain ⟨wasUsed, hwas, h⟩ := Fault.bind_eq_ok.mp h
  cases wasUsed with
  | true =>
      obtain ⟨used, hused, h⟩ := Fault.bind_eq_ok.mp h
      obtain ⟨count, hcount, h⟩ := Fault.bind_eq_ok.mp h
      obtain ⟨busy, hbusy, h⟩ := Fault.bind_eq_ok.mp h
      obtain ⟨orphaned, horphaned, h⟩ := Fault.bind_eq_ok.mp h
      exact .used hwas hused hcount hbusy horphaned h
  | false =>
      simp only [Bool.false_eq_true, if_false, pure_bind] at h
      obtain ⟨busy, hbusy, h⟩ := Fault.bind_eq_ok.mp h
      obtain ⟨orphaned, horphaned, h⟩ := Fault.bind_eq_ok.mp h
      exact .free hwas hbusy horphaned h

/-! ## Transfers -/

/-- The search finds no slot of the map, or it finds one that is used and busy from now on. -/
inductive ReserveCases (m : SlotMap) (page : Page) : Except SwapError Nat → SlotMap → Prop
  | full (hfull : ∀ slot, m.used.firstClear = some slot → m.capacity ≤ slot) :
      ReserveCases m page (.error .swapFull) m
  | reserved {slot count : Nat} {used busy : Bits} {m₁ : SlotMap}
      (hfirst : m.used.firstClear = some slot) (hslot : slot < m.capacity)
      (hused : m.used.set slot true = .ok used) (hbusy : m.busy.set slot true = .ok busy)
      (hput : { m with used, busy }.putOwner slot (some page) = .ok m₁)
      (hadd : Word.add Word.bits m₁.count 1 = .ok count) :
      ReserveCases m page (.ok slot) { m₁ with count }

theorem reserve_cases {answer : Except SwapError Nat} (h : m.reserve page = .ok (answer, m')) :
    ReserveCases m page answer m' := by
  unfold reserve at h
  split at h
  · next hnone =>
      cases h
      exact .full fun slot hfirst => nomatch hnone.symm.trans hfirst
  · next found hfirst =>
      split at h
      · next hpast =>
          cases h
          refine .full fun slot hslot => ?_
          cases hfirst.symm.trans hslot
          exact hpast
      · next hslot =>
          obtain ⟨used, hused, h⟩ := Fault.bind_eq_ok.mp h
          obtain ⟨busy, hbusy, h⟩ := Fault.bind_eq_ok.mp h
          obtain ⟨m₁, hput, h⟩ := Fault.bind_eq_ok.mp h
          obtain ⟨count, hadd, h⟩ := Fault.bind_eq_ok.mp h
          cases h
          exact .reserved hfirst (Nat.lt_of_not_le hslot) hused hbusy hput hadd

theorem reserve_of_full (hfull : ∀ slot, m.used.firstClear = some slot → m.capacity ≤ slot) :
    m.reserve page = .ok (.error .swapFull, m) := by
  unfold reserve
  cases hfirst : m.used.firstClear with
  | none => rfl
  | some slot => exact if_pos (hfull slot hfirst)

theorem reserve_of_firstClear {m₁ : SlotMap} {used busy : Bits} {count : Nat}
    (hfirst : m.used.firstClear = some slot) (hslot : slot < m.capacity)
    (hused : m.used.set slot true = .ok used) (hbusy : m.busy.set slot true = .ok busy)
    (hput : { m with used, busy }.putOwner slot (some page) = .ok m₁)
    (hadd : Word.add Word.bits m₁.count 1 = .ok count) :
    m.reserve page = .ok (.ok slot, { m₁ with count }) := by
  unfold reserve
  rw [hfirst]
  refine (if_neg (Nat.not_le_of_lt hslot)).trans (Fault.bind_eq_ok.mpr ⟨used, hused, ?_⟩)
  refine Fault.bind_eq_ok.mpr ⟨busy, hbusy, Fault.bind_eq_ok.mpr ⟨m₁, hput, ?_⟩⟩
  exact Fault.bind_eq_ok.mpr ⟨count, hadd, rfl⟩

/-- The slot is another page's or busy already, or it is busy from now on. -/
inductive HoldCases (m : SlotMap) (slot : Nat) (page : Page) : Bool → SlotMap → Prop
  | other (hother : m.owner slot ≠ some page) : HoldCases m slot page false m
  | busy (howner : m.owner slot = some page) (hbusy : m.busy.get slot = .ok true) :
      HoldCases m slot page false m
  | held {busy : Bits} (howner : m.owner slot = some page) (hidle : m.busy.get slot = .ok false)
      (hset : m.busy.set slot true = .ok busy) : HoldCases m slot page true { m with busy }

theorem hold_cases (h : m.hold slot page = .ok (b, m')) : HoldCases m slot page b m' := by
  unfold hold at h
  split at h
  · next hother =>
      cases h
      exact .other hother
  · next howner =>
      have howner : m.owner slot = some page := Decidable.not_not.mp howner
      obtain ⟨isBusy, hget, h⟩ := Fault.bind_eq_ok.mp h
      cases isBusy with
      | true =>
          cases h
          exact .busy howner hget
      | false =>
          obtain ⟨busy, hset, h⟩ := Fault.bind_eq_ok.mp h
          cases h
          exact .held howner hget hset

/-- The slot is another page's, or it was orphaned and is cleared, or it is idle from now on. -/
inductive SettleCases (m : SlotMap) (slot : Nat) (page : Page) : Bool → SlotMap → Prop
  | other (hother : m.owner slot ≠ some page) : SettleCases m slot page false m
  | orphaned {m' : SlotMap} (howner : m.owner slot = some page)
      (horphaned : m.orphaned.get slot = .ok true) (hclear : m.clear slot = .ok m') :
      SettleCases m slot page false m'
  | live {busy : Bits} (howner : m.owner slot = some page)
      (hlive : m.orphaned.get slot = .ok false) (hset : m.busy.set slot false = .ok busy) :
      SettleCases m slot page true { m with busy }

theorem settle_cases (h : m.settle slot page = .ok (b, m')) : SettleCases m slot page b m' := by
  unfold settle at h
  split at h
  · next hother =>
      cases h
      exact .other hother
  · next howner =>
      have howner : m.owner slot = some page := Decidable.not_not.mp howner
      obtain ⟨isOrphan, hget, h⟩ := Fault.bind_eq_ok.mp h
      cases isOrphan with
      | true =>
          obtain ⟨m₁, hclear, h⟩ := Fault.bind_eq_ok.mp h
          cases h
          exact .orphaned howner hget hclear
      | false =>
          obtain ⟨busy, hset, h⟩ := Fault.bind_eq_ok.mp h
          cases h
          exact .live howner hget hset

theorem settle_of_live {busy : Bits} (howner : m.owner slot = some page)
    (hlive : m.orphaned.get slot = .ok false) (hset : m.busy.set slot false = .ok busy) :
    m.settle slot page = .ok (true, { m with busy }) := by
  unfold settle
  rw [if_neg (not_not_intro howner)]
  exact Fault.bind_eq_ok.mpr ⟨false, hlive, Fault.bind_eq_ok.mpr ⟨busy, hset, rfl⟩⟩

/-! ## Releases -/

/-- There is no such slot, or it is cleared. -/
inductive ReleaseCases (m : SlotMap) (slot : Nat) : Except SwapError Unit → SlotMap → Prop
  | outside (hslot : m.capacity ≤ slot) : ReleaseCases m slot (.error (.invalidSlot slot)) m
  | cleared {m' : SlotMap} (hslot : slot < m.capacity) (hclear : m.clear slot = .ok m') :
      ReleaseCases m slot (.ok ()) m'

theorem release_cases {answer : Except SwapError Unit} (h : m.release slot = .ok (answer, m')) :
    ReleaseCases m slot answer m' := by
  unfold release at h
  split at h
  · next hslot =>
      cases h
      exact .outside hslot
  · next hslot =>
      obtain ⟨m₁, hclear, h⟩ := Fault.bind_eq_ok.mp h
      cases h
      exact .cleared (Nat.lt_of_not_le hslot) hclear

/-- The slot is another page's, or it is cleared. -/
inductive ReleaseIfOwnedCases (m : SlotMap) (slot : Nat) (page : Page) : Bool → SlotMap → Prop
  | other (hother : m.owner slot ≠ some page) : ReleaseIfOwnedCases m slot page false m
  | cleared {m' : SlotMap} (howner : m.owner slot = some page) (hclear : m.clear slot = .ok m') :
      ReleaseIfOwnedCases m slot page true m'

theorem releaseIfOwned_cases (h : m.releaseIfOwned slot page = .ok (b, m')) :
    ReleaseIfOwnedCases m slot page b m' := by
  unfold releaseIfOwned at h
  split at h
  · next hother =>
      cases h
      exact .other hother
  · next howner =>
      obtain ⟨m₁, hclear, h⟩ := Fault.bind_eq_ok.mp h
      cases h
      exact .cleared (Decidable.not_not.mp howner) hclear

/-- The slot has no page or that of another address space, or it is busy and is orphaned, or it is
cleared. -/
inductive ReleaseOneCases (m : SlotMap) (space slot : Nat) : Bool → SlotMap → Prop
  | free (hfree : m.owner slot = none) : ReleaseOneCases m space slot false m
  | other {page : Page} (howner : m.owner slot = some page) (hother : page.space ≠ space) :
      ReleaseOneCases m space slot false m
  | orphaned {page : Page} {orphaned : Bits} (howner : m.owner slot = some page)
      (hspace : page.space = space) (hbusy : m.busy.get slot = .ok true)
      (hset : m.orphaned.set slot true = .ok orphaned) :
      ReleaseOneCases m space slot false { m with orphaned }
  | cleared {page : Page} {m' : SlotMap} (howner : m.owner slot = some page)
      (hspace : page.space = space) (hidle : m.busy.get slot = .ok false)
      (hclear : m.clear slot = .ok m') : ReleaseOneCases m space slot true m'

theorem releaseOne_cases (h : m.releaseOne space slot = .ok (b, m')) :
    ReleaseOneCases m space slot b m' := by
  unfold releaseOne at h
  split at h
  · next hfree =>
      cases h
      exact .free hfree
  · next page howner =>
      split at h
      · next hother =>
          cases h
          exact .other howner hother
      · next hspace =>
          have hspace : page.space = space := Decidable.not_not.mp hspace
          obtain ⟨isBusy, hget, h⟩ := Fault.bind_eq_ok.mp h
          cases isBusy with
          | true =>
              obtain ⟨orphaned, hset, h⟩ := Fault.bind_eq_ok.mp h
              cases h
              exact .orphaned howner hspace hget hset
          | false =>
              obtain ⟨m₁, hclear, h⟩ := Fault.bind_eq_ok.mp h
              cases h
              exact .cleared howner hspace hget hclear

end PhysMem.SlotMap
