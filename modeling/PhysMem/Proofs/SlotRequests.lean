import Mathlib.Logic.Relation
import PhysMem.Proofs.Overflow
import PhysMem.Proofs.Undo

/-!
# Slot requests — any sequence of operations on a slot map

A slot map serves six requests, each for any slot number and any page. What one of them does to
the three bit vectors, the pages and the counter keeps these in step with each other, and as long as
they are in step no request stops: every bit that is read or written has a place in its vector,
every page has one in the table, and the counter neither falls below zero nor leaves its word.

* **`Request`** lists the requests, **`perform`** carries one out and **`run`** a list of them.
  **`PerformCases`** says which operation a request comes to.
* **`Coherent`** says that the parts of a map are in step; **`Coherent.perform`** that a request
  keeps them so, and **`Coherent.perform_total`** that it is answered.
* **`Coherent.run_total`** is the same of a whole list.
-/

namespace PhysMem.SlotMap

/-- What is asked of a slot map. -/
inductive Request where
  | reserve (page : Page)
  | hold (slot : Nat) (page : Page)
  | settle (slot : Nat) (page : Page)
  | release (slot : Nat)
  | releaseIfOwned (slot : Nat) (page : Page)
  | releaseSpace (space : Nat)
  deriving DecidableEq, Repr

/-- What a slot map answers. -/
inductive Answer where
  | reserved (answer : Except SwapError Nat)
  /-- Whether the slot is held now. -/
  | held (answer : Bool)
  /-- Whether the slot is still live. -/
  | settled (answer : Bool)
  | released (answer : Except SwapError Unit)
  /-- Whether the slot was the page's. -/
  | owned (answer : Bool)
  | swept (released : Nat)
  deriving DecidableEq

/-- Carries a request out. -/
def perform (m : SlotMap) : Request → Except Fault (Answer × SlotMap)
  | .reserve page => do
    let (answer, m) ← m.reserve page
    return (.reserved answer, m)
  | .hold slot page => do
    let (answer, m) ← m.hold slot page
    return (.held answer, m)
  | .settle slot page => do
    let (answer, m) ← m.settle slot page
    return (.settled answer, m)
  | .release slot => do
    let (answer, m) ← m.release slot
    return (.released answer, m)
  | .releaseIfOwned slot page => do
    let (answer, m) ← m.releaseIfOwned slot page
    return (.owned answer, m)
  | .releaseSpace space => do
    let (released, m) ← m.releaseSpace space
    return (.swept released, m)

/-- Carries requests out, one after the other. -/
def run (m : SlotMap) : List Request → Except Fault (List Answer × SlotMap)
  | [] => .ok ([], m)
  | request :: rest => do
    let (answer, m) ← m.perform request
    let (answers, m) ← m.run rest
    return (answer :: answers, m)

/-- How many slots are used. -/
def usedSlots (m : SlotMap) : Nat := (List.range m.capacity).countP m.used.bit

/-- The parts of the map are in step: the bit vectors agree with each other and with the pages, have
room for all slots, and the counter counts the used ones. -/
structure Coherent (m : SlotMap) : Prop extends Sound m where
  usedRoom : m.capacity ≤ m.used.room
  busyRoom : m.capacity ≤ m.busy.room
  orphanedRoom : m.capacity ≤ m.orphaned.room
  count_eq : m.count = m.usedSlots
  fits : m.capacity < Word.span Word.bits

variable {m m' : SlotMap} {slot space n : Nat} {page : Page} {b : Bool}
  {s : Option (Page × SlotState)} {request : Request} {answer : Answer}

/-! ## Counting slots -/

/-- A property of numbers that changes at one number at most. -/
theorem countP_range_change {p q : Nat → Bool} {k : Nat} (hk : k < n)
    (h : ∀ x, x ≠ k → q x = p x) :
    (List.range n).countP q + (p k).toNat = (List.range n).countP p + (q k).toNat := by
  induction n with
  | zero => exact absurd hk (Nat.not_lt_zero k)
  | succ n ih =>
      have hsucc : ∀ r : Nat → Bool,
          (List.range (n + 1)).countP r = (List.range n).countP r + (r n).toNat := by
        intro r
        rw [List.range_succ, List.countP_append, List.countP_singleton]
        cases r n <;> rfl
      rw [hsucc, hsucc]
      by_cases hkn : k = n
      · subst hkn
        have hsame : (List.range k).countP q = (List.range k).countP p := by
          refine List.countP_congr fun x hx => ?_
          rw [h x (Nat.ne_of_lt (List.mem_range.mp hx))]
        omega
      · rw [h n (Ne.symm hkn)]
        have := ih (by omega)
        omega

theorem Sound.used_bit (hm : m.Sound) (x : Nat) : m.used.bit x = (m.state? x).isSome := by
  rw [hm.used_eq, owner_eq_map_state?, Option.isSome_map]

theorem Coherent.count_le (hm : m.Coherent) : m.count ≤ m.capacity := by
  have hle := List.countP_le_length (p := m.used.bit) (l := List.range m.capacity)
  rw [List.length_range] at hle
  exact hm.count_eq ▸ hle

/-- A used slot is counted. -/
theorem Coherent.count_pos (hm : m.Coherent) (hslot : slot < m.capacity)
    (h : m.used.bit slot = true) : 0 < m.count := by
  rw [hm.count_eq]
  exact List.countP_pos_iff.mpr ⟨slot, List.mem_range.mpr hslot, h⟩

/-- As long as a slot is free there is one more to count. -/
theorem Coherent.count_lt (hm : m.Coherent) (hslot : slot < m.capacity)
    (h : m.used.bit slot = false) : m.count < m.capacity := by
  refine Nat.lt_of_le_of_ne hm.count_le fun he => ?_
  have hall : (List.range m.capacity).countP m.used.bit = (List.range m.capacity).length := by
    rw [List.length_range]
    exact hm.count_eq.symm.trans he
  have hused := List.countP_eq_length.mp hall slot (List.mem_range.mpr hslot)
  exact nomatch h.symm.trans hused

/-- **One slot changes, and the counter with it.** -/
theorem Coherent.of_sets (hm : m.Coherent) (hset : m.Sets slot s m') (hshape : m.SameShape m')
    (hslot : slot < m.capacity)
    (hcount : m'.count + (m.state? slot).isSome.toNat = m.count + s.isSome.toNat) :
    m'.Coherent := by
  have hchange := countP_range_change (p := m.used.bit) (q := m'.used.bit) hslot fun x hx => by
    rw [hset.sound.used_bit, hm.used_bit, hset.other hx]
  rw [hset.sound.used_bit slot, hm.used_bit slot, hset.self] at hchange
  have hcount' : m.count = (List.range m.capacity).countP m.used.bit := hm.count_eq
  refine ⟨hset.sound, ?_, ?_, ?_, ?_, ?_⟩
  · rw [hshape.capacity, hshape.used]
    exact hm.usedRoom
  · rw [hshape.capacity, hshape.busy]
    exact hm.busyRoom
  · rw [hshape.capacity, hshape.orphaned]
    exact hm.orphanedRoom
  · unfold usedSlots
    rw [hshape.capacity]
    omega
  · rw [hshape.capacity]
    exact hm.fits

/-- The parts of a map of free slots are in step. -/
theorem empty_coherent (h : n < Word.span Word.bits) : (empty n).Coherent := by
  obtain ⟨hsound, hcap, -⟩ := empty_spec n
  have hroom : (empty n).capacity ≤ (Bits.clear n).room := by
    rw [hcap]
    exact (Bits.clear_spec n).1
  refine ⟨hsound, hroom, hroom, hroom, ?_, ?_⟩
  · refine (List.countP_eq_zero.mpr fun x _ => ?_).symm
    rw [show (empty n).used.bit x = false from (Bits.clear_spec n).2 x]
    exact Bool.false_ne_true
  · rw [hcap]
    exact h

/-! ## Clearing a slot -/

theorem clear_lt (h : m.clear slot = .ok m') : slot < m.capacity := by
  cases clear_cases h with
  | used _ _ _ _ _ hput | free _ _ _ hput =>
      have hslot := (putOwner_eq_ok hput).1
      exact hslot

theorem Coherent.clear (hm : m.Coherent) (h : m.clear slot = .ok m') : m'.Coherent := by
  obtain ⟨hshape, hcount⟩ := clear_shape h
  refine hm.of_sets (clear_ok hm.toSound h) hshape (clear_lt h) ?_
  rw [← hm.used_bit]
  exact hcount

theorem Coherent.clear_total (hm : m.Coherent) (hslot : slot < m.capacity) :
    ∃ m', m.clear slot = .ok m' := by
  have hget := Bits.get_eq_ok (Nat.lt_of_lt_of_le hslot hm.usedRoom)
  obtain ⟨busy, hbusy⟩ := Bits.set_eq_ok false (Nat.lt_of_lt_of_le hslot hm.busyRoom)
  obtain ⟨orphaned, horph⟩ := Bits.set_eq_ok false (Nat.lt_of_lt_of_le hslot hm.orphanedRoom)
  unfold SlotMap.clear
  rw [hget, hbusy, horph]
  cases hused : m.used.bit slot with
  | true =>
      obtain ⟨used, hclear⟩ := Bits.set_eq_ok false (Nat.lt_of_lt_of_le hslot hm.usedRoom)
      have hsub := Word.sub_eq_ok (Nat.succ_le_of_lt (hm.count_pos hslot hused))
      rw [hclear]
      show ∃ m', (Word.sub m.count 1 >>= _) = .ok m'
      rw [hsub]
      exact ⟨_, if_pos hslot⟩
  | false => exact ⟨_, if_pos hslot⟩

/-! ## Reserving a slot -/

/-- What a search that finds no free slot tells. -/
theorem Coherent.full_of_firstClear (hm : m.Coherent)
    (h : ∀ slot, m.used.firstClear = some slot → m.capacity ≤ slot) {x : Nat}
    (hx : x < m.capacity) : m.used.bit x = true := by
  cases hfound : m.used.firstClear with
  | none => exact Bits.bit_of_firstClear_none hfound (Nat.lt_of_lt_of_le hx hm.usedRoom)
  | some slot => exact Bits.bit_of_lt_firstClear hfound (Nat.lt_of_lt_of_le hx (h slot hfound))

/-- **A reservation takes the lowest free slot**, or there is none and nothing changes. -/
theorem Coherent.reserve_total (hm : m.Coherent) (page : Page) :
    (∃ slot m', m.reserve page = .ok (.ok slot, m') ∧ slot < m.capacity ∧
        m.used.bit slot = false ∧ ∀ x, x < slot → m.used.bit x = true) ∨
      m.reserve page = .ok (.error .swapFull, m) ∧
        ∀ x, x < m.capacity → m.used.bit x = true := by
  by_cases hfull : ∀ slot, m.used.firstClear = some slot → m.capacity ≤ slot
  · exact Or.inr ⟨reserve_of_full hfull, fun x hx => hm.full_of_firstClear hfull hx⟩
  · obtain ⟨slot, hslot⟩ := not_forall.mp hfull
    obtain ⟨hfirst, hslot⟩ := Classical.not_imp.mp hslot
    have hslot : slot < m.capacity := Nat.lt_of_not_le hslot
    have hfree := (Bits.firstClear_bit hfirst).2
    obtain ⟨used, hused⟩ := Bits.set_eq_ok true (Nat.lt_of_lt_of_le hslot hm.usedRoom)
    obtain ⟨busy, hbusy⟩ := Bits.set_eq_ok true (Nat.lt_of_lt_of_le hslot hm.busyRoom)
    have hadd : Word.add Word.bits m.count 1 = .ok (m.count + 1) :=
      Word.add_eq_ok (Nat.lt_of_le_of_lt (hm.count_lt hslot hfree) hm.fits)
    exact Or.inl ⟨slot, _, reserve_of_firstClear hfirst hslot hused hbusy (if_pos hslot) hadd,
      hslot, hfree, fun x hx => Bits.bit_of_lt_firstClear hfirst hx⟩

theorem Coherent.reserve {answer : Except SwapError Nat} (hm : m.Coherent)
    (h : m.reserve page = .ok (answer, m')) : m'.Coherent := by
  cases reserve_cases h with
  | full => exact hm
  | reserved _ hslot =>
      obtain ⟨hfree, hset⟩ := reserve_ok hm.toSound h
      obtain ⟨hshape, hcount⟩ := reserve_shape h
      refine hm.of_sets hset hshape hslot ?_
      rw [hfree]
      exact hcount

/-! ## Transfers -/

theorem Coherent.hold (hm : m.Coherent) (h : m.hold slot page = .ok (b, m')) : m'.Coherent := by
  cases b with
  | false => exact hold_false h ▸ hm
  | true =>
      obtain ⟨hidle, hset⟩ := hold_true hm.toSound h
      obtain ⟨hshape, hcount⟩ := hold_shape h
      refine hm.of_sets hset hshape (lt_capacity_of_owner (owner_of_state? hidle)) ?_
      rw [hidle, hcount]
      rfl

theorem Coherent.hold_total (hm : m.Coherent) (slot : Nat) (page : Page) :
    ∃ b m', m.hold slot page = .ok (b, m') := by
  unfold SlotMap.hold
  split
  · exact ⟨_, _, rfl⟩
  · next ho =>
      have hslot := lt_capacity_of_owner (Decidable.not_not.mp ho)
      obtain ⟨busy, hbusy⟩ := Bits.set_eq_ok true (Nat.lt_of_lt_of_le hslot hm.busyRoom)
      rw [Bits.get_eq_ok (Nat.lt_of_lt_of_le hslot hm.busyRoom), hbusy]
      cases m.busy.bit slot <;> exact ⟨_, _, rfl⟩

theorem Coherent.settle (hm : m.Coherent) (h : m.settle slot page = .ok (b, m')) :
    m'.Coherent := by
  cases settle_cases h with
  | other => exact hm
  | orphaned _ _ hclear => exact hm.clear hclear
  | live howner =>
      obtain ⟨s, hs⟩ := state?_of_owner howner
      obtain ⟨hshape, hcount⟩ := settle_shape h
      rcases settle_ok hm.toSound h with ⟨hother, -⟩ | ⟨-, hdead, -⟩ | ⟨-, -, hset⟩
      · exact absurd howner hother
      · exact nomatch hdead
      · refine hm.of_sets hset hshape (lt_capacity_of_owner howner) ?_
        rw [hs, hcount]
        rfl

theorem Coherent.settle_total (hm : m.Coherent) (slot : Nat) (page : Page) :
    ∃ b m', m.settle slot page = .ok (b, m') := by
  unfold SlotMap.settle
  split
  · exact ⟨_, _, rfl⟩
  · next ho =>
      have hslot := lt_capacity_of_owner (Decidable.not_not.mp ho)
      obtain ⟨busy, hbusy⟩ := Bits.set_eq_ok false (Nat.lt_of_lt_of_le hslot hm.busyRoom)
      obtain ⟨m₁, hclear⟩ := hm.clear_total hslot
      rw [Bits.get_eq_ok (Nat.lt_of_lt_of_le hslot hm.orphanedRoom), hbusy, hclear]
      cases m.orphaned.bit slot <;> exact ⟨_, _, rfl⟩

/-! ## Releases -/

theorem Coherent.release {answer : Except SwapError Unit} (hm : m.Coherent)
    (h : m.release slot = .ok (answer, m')) : m'.Coherent := by
  cases release_cases h with
  | outside => exact hm
  | cleared _ hclear => exact hm.clear hclear

theorem Coherent.release_total (hm : m.Coherent) (slot : Nat) :
    ∃ answer m', m.release slot = .ok (answer, m') := by
  unfold SlotMap.release
  split
  · exact ⟨_, _, rfl⟩
  · next hcap =>
      obtain ⟨m₁, hclear⟩ := hm.clear_total (Nat.lt_of_not_le hcap)
      rw [hclear]
      exact ⟨_, _, rfl⟩

theorem Coherent.releaseIfOwned (hm : m.Coherent)
    (h : m.releaseIfOwned slot page = .ok (b, m')) : m'.Coherent := by
  cases releaseIfOwned_cases h with
  | other => exact hm
  | cleared _ hclear => exact hm.clear hclear

theorem Coherent.releaseIfOwned_total (hm : m.Coherent) (slot : Nat) (page : Page) :
    ∃ b m', m.releaseIfOwned slot page = .ok (b, m') := by
  unfold SlotMap.releaseIfOwned
  split
  · exact ⟨_, _, rfl⟩
  · next ho =>
      obtain ⟨m₁, hclear⟩ := hm.clear_total (lt_capacity_of_owner (Decidable.not_not.mp ho))
      rw [hclear]
      exact ⟨_, _, rfl⟩

/-! ## The sweep of an address space -/

/-- A page of the address space is at rest in the slot. -/
def restsIn (space : Nat) : Option (Page × SlotState) → Bool
  | some (page, .idle) => page.space == space
  | _ => false

theorem restsIn_of_busy {s : SlotState} (hs : s ≠ .idle) :
    restsIn space (some (page, s)) = false := by
  cases s with
  | idle => exact absurd rfl hs
  | busy => rfl
  | orphaned => rfl

/-- A sweep clears the slot it visits if a page of the address space is at rest there. -/
theorem Coherent.releaseOne (hm : m.Coherent) (h : m.releaseOne space slot = .ok (b, m')) :
    m'.Coherent ∧ b = restsIn space (m.state? slot) := by
  cases releaseOne_cases h with
  | free hfree =>
      rw [state?_eq_none.mpr hfree]
      exact ⟨hm, rfl⟩
  | other howner hother =>
      obtain ⟨s, hs⟩ := state?_of_owner howner
      rw [hs]
      refine ⟨hm, ?_⟩
      cases s with
      | idle => exact (beq_eq_false_iff_ne.mpr hother).symm
      | busy => rfl
      | orphaned => rfl
  | orphaned howner hspace hbusy hset =>
      obtain ⟨s, hs⟩ := state?_of_owner howner
      have hne : s ≠ .idle := (busy_bit_iff hm.toSound hs).mp (Bits.bit_of_get hbusy)
      have hsets := releaseOne_ok hm.toSound h
      rw [hs, swept_busy hspace hne] at hsets
      rw [hs]
      refine ⟨hm.of_sets hsets ⟨rfl, rfl, (Bits.bit_of_set hset).1, rfl⟩
        (lt_capacity_of_owner howner) ?_, (restsIn_of_busy hne).symm⟩
      rw [hs]
      rfl
  | cleared howner hspace hidle hclear =>
      rw [state?_idle_of_get hm.toSound howner hidle]
      exact ⟨hm.clear hclear, (beq_iff_eq.mpr hspace).symm⟩

theorem Coherent.releaseOne_total (hm : m.Coherent) (space slot : Nat) :
    ∃ b m', m.releaseOne space slot = .ok (b, m') := by
  unfold SlotMap.releaseOne
  cases ho : m.owner slot with
  | none => exact ⟨_, _, rfl⟩
  | some page =>
      dsimp only
      split
      · exact ⟨_, _, rfl⟩
      · have hslot := lt_capacity_of_owner ho
        obtain ⟨orphaned, horph⟩ := Bits.set_eq_ok true (Nat.lt_of_lt_of_le hslot hm.orphanedRoom)
        obtain ⟨m₁, hclear⟩ := hm.clear_total hslot
        rw [Bits.get_eq_ok (Nat.lt_of_lt_of_le hslot hm.busyRoom), horph, hclear]
        cases m.busy.bit slot <;> exact ⟨_, _, rfl⟩

/-- Behind the first `k` slots: so many have been cleared, and the others are as they were. -/
structure SweptTo (m : SlotMap) (space k : Nat) (t : Nat × SlotMap) : Prop where
  coherent : t.2.Coherent
  capacity : t.2.capacity = m.capacity
  cleared : t.1 = (List.range k).countP fun x => restsIn space (m.state? x)
  rest : ∀ x, k ≤ x → t.2.state? x = m.state? x

/-- One more slot is visited. -/
theorem SweptTo.next {k : Nat} {t t' : Nat × SlotMap} (h : m.SweptTo space k t)
    (hone : (do
      let (cleared, m) ← t.2.releaseOne space k
      return (if cleared then t.1 + 1 else t.1, m)) = Except.ok t') :
    m.SweptTo space (k + 1) t' := by
  obtain ⟨⟨b, u⟩, hu, he⟩ := Fault.bind_eq_ok.mp hone
  cases he
  obtain ⟨hcoherent, rfl⟩ := h.coherent.releaseOne hu
  have hset := releaseOne_ok h.coherent.toSound hu
  refine ⟨hcoherent, hset.capacity.trans h.capacity, ?_, fun x hx => ?_⟩
  · rw [List.range_succ, List.countP_append, List.countP_singleton, h.rest k (Nat.le_refl k),
      h.cleared]
    cases restsIn space (m.state? k) <;> rfl
  · rw [hset.other (by omega)]
    exact h.rest x (by omega)

theorem Coherent.releaseSpace (hm : m.Coherent) (h : m.releaseSpace space = .ok (n, m')) :
    m'.Coherent ∧
      n = (List.range m.capacity).countP fun x => restsIn space (m.state? x) := by
  have hend := Sweep.foldlM_range (P := m.SweptTo space) ⟨hm, rfl, rfl, fun _ _ => rfl⟩
    (fun k t t' _ ht hone => ht.next hone) h
  exact ⟨hend.coherent, hend.cleared⟩

theorem Coherent.releaseSpace_total (hm : m.Coherent) (space : Nat) :
    ∃ n m', m.releaseSpace space = .ok (n, m') := by
  have hover : Fault.OnlyOverflows True (m.releaseSpace space) := by
    refine Sweep.onlyOverflows (P := m.SweptTo space) ⟨hm, rfl, rfl, fun _ _ => rfl⟩
      fun k t _ ht => ⟨.bind (.of_ok ?_) fun _ _ => .ok _, fun t' hone => ht.next hone⟩
    obtain ⟨b, u, hu⟩ := ht.coherent.releaseOne_total space k
    exact ⟨_, hu⟩
  obtain ⟨⟨n, m'⟩, h⟩ := hover.exists_ok trivial
  exact ⟨n, m', h⟩

/-! ## One request -/

/-- Which operation a request comes to. -/
inductive PerformCases (m m' : SlotMap) : Request → Answer → Prop
  | reserve (page : Page) (answer : Except SwapError Nat)
      (h : m.reserve page = .ok (answer, m')) : PerformCases m m' (.reserve page) (.reserved answer)
  | hold (slot : Nat) (page : Page) (isHeld : Bool) (h : m.hold slot page = .ok (isHeld, m')) :
      PerformCases m m' (.hold slot page) (.held isHeld)
  | settle (slot : Nat) (page : Page) (isLive : Bool)
      (h : m.settle slot page = .ok (isLive, m')) :
      PerformCases m m' (.settle slot page) (.settled isLive)
  | release (slot : Nat) (answer : Except SwapError Unit)
      (h : m.release slot = .ok (answer, m')) : PerformCases m m' (.release slot) (.released answer)
  | releaseIfOwned (slot : Nat) (page : Page) (isOwned : Bool)
      (h : m.releaseIfOwned slot page = .ok (isOwned, m')) :
      PerformCases m m' (.releaseIfOwned slot page) (.owned isOwned)
  | releaseSpace (space released : Nat) (h : m.releaseSpace space = .ok (released, m')) :
      PerformCases m m' (.releaseSpace space) (.swept released)

theorem perform_cases (h : m.perform request = .ok (answer, m')) :
    PerformCases m m' request answer := by
  cases request with
  | reserve page =>
      obtain ⟨⟨a, m₁⟩, h₁, h⟩ := Fault.bind_eq_ok.mp h
      cases h
      exact .reserve page a h₁
  | hold slot page =>
      obtain ⟨⟨a, m₁⟩, h₁, h⟩ := Fault.bind_eq_ok.mp h
      cases h
      exact .hold slot page a h₁
  | settle slot page =>
      obtain ⟨⟨a, m₁⟩, h₁, h⟩ := Fault.bind_eq_ok.mp h
      cases h
      exact .settle slot page a h₁
  | release slot =>
      obtain ⟨⟨a, m₁⟩, h₁, h⟩ := Fault.bind_eq_ok.mp h
      cases h
      exact .release slot a h₁
  | releaseIfOwned slot page =>
      obtain ⟨⟨a, m₁⟩, h₁, h⟩ := Fault.bind_eq_ok.mp h
      cases h
      exact .releaseIfOwned slot page a h₁
  | releaseSpace space =>
      obtain ⟨⟨a, m₁⟩, h₁, h⟩ := Fault.bind_eq_ok.mp h
      cases h
      exact .releaseSpace space a h₁

/-- **A request keeps the parts of a map in step.** -/
theorem Coherent.perform (hm : m.Coherent) (h : m.perform request = .ok (answer, m')) :
    m'.Coherent := by
  cases perform_cases h with
  | reserve page answer h₁ => exact hm.reserve h₁
  | hold slot page isHeld h₁ => exact hm.hold h₁
  | settle slot page isLive h₁ => exact hm.settle h₁
  | release slot answer h₁ => exact hm.release h₁
  | releaseIfOwned slot page isOwned h₁ => exact hm.releaseIfOwned h₁
  | releaseSpace space released h₁ => exact (hm.releaseSpace h₁).1

/-- **Every request is answered**, whatever slot it names. -/
theorem Coherent.perform_total (hm : m.Coherent) (request : Request) :
    ∃ answer m', m.perform request = .ok (answer, m') := by
  have answered : ∀ {α : Type} {x : Except Fault (α × SlotMap)} {f : α → Answer},
      (∃ a m', x = .ok (a, m')) →
        ∃ answer m', (x >>= fun r => .ok (f r.1, r.2)) = .ok (answer, m') := by
    rintro α x f ⟨a, m', rfl⟩
    exact ⟨f a, m', rfl⟩
  cases request with
  | reserve page =>
      refine answered ?_
      rcases hm.reserve_total page with ⟨slot, m', h, -⟩ | ⟨h, -⟩
      · exact ⟨_, _, h⟩
      · exact ⟨_, _, h⟩
  | hold slot page => exact answered (hm.hold_total slot page)
  | settle slot page => exact answered (hm.settle_total slot page)
  | release slot => exact answered (hm.release_total slot)
  | releaseIfOwned slot page => exact answered (hm.releaseIfOwned_total slot page)
  | releaseSpace space => exact answered (hm.releaseSpace_total space)

/-! ## The shape of a map -/

theorem SameShape.refl (m : SlotMap) : m.SameShape m := ⟨rfl, rfl, rfl, rfl⟩

theorem releaseOne_shape (h : m.releaseOne space slot = .ok (b, m')) : m.SameShape m' := by
  cases releaseOne_cases h with
  | free | other => exact .refl m
  | orphaned _ _ _ hset => exact ⟨rfl, rfl, (Bits.bit_of_set hset).1, rfl⟩
  | cleared _ _ _ hclear => exact (clear_shape hclear).1

theorem releaseSpace_shape (h : m.releaseSpace space = .ok (n, m')) : m.SameShape m' := by
  refine Sweep.foldlM_range (P := fun _ (t : Nat × SlotMap) => m.SameShape t.2) (.refl m)
    (fun k t t' _ ht hone => ?_) h
  obtain ⟨⟨b, u⟩, hu, he⟩ := Fault.bind_eq_ok.mp hone
  cases he
  exact ht.trans (releaseOne_shape hu)

/-- No request changes how many slots there are. -/
theorem perform_shape (h : m.perform request = .ok (answer, m')) : m.SameShape m' := by
  cases perform_cases h with
  | reserve page answer h₁ =>
      cases reserve_cases h₁ with
      | full => exact .refl m
      | reserved => exact (reserve_shape h₁).1
  | hold slot page isHeld h₁ =>
      cases hold_cases h₁ with
      | other | busy => exact .refl m
      | held => exact (hold_shape h₁).1
  | settle slot page isLive h₁ =>
      cases settle_cases h₁ with
      | other => exact .refl m
      | orphaned _ _ hclear => exact (clear_shape hclear).1
      | live => exact (settle_shape h₁).1
  | release slot answer h₁ =>
      cases release_cases h₁ with
      | outside => exact .refl m
      | cleared _ hclear => exact (clear_shape hclear).1
  | releaseIfOwned slot page isOwned h₁ =>
      cases releaseIfOwned_cases h₁ with
      | other => exact .refl m
      | cleared _ hclear => exact (clear_shape hclear).1
  | releaseSpace space released h₁ => exact releaseSpace_shape h₁

/-! ## Sequences of requests -/

/-- Requests lead from one map to the other. -/
def Evolves : SlotMap → SlotMap → Prop :=
  Relation.ReflTransGen fun m m' => ∃ request answer, m.perform request = .ok (answer, m')

/-- What every request keeps, evolution keeps. -/
theorem Evolves.coherent (hm : m.Coherent) (h : m.Evolves m') : m'.Coherent := by
  induction h with
  | refl => exact hm
  | tail _ hone ih =>
      obtain ⟨request, answer, hperform⟩ := hone
      exact ih.perform hperform

/-- **Every list of requests is carried out**, and keeps the parts of the map in step. -/
theorem Coherent.run_total (hm : m.Coherent) (requests : List Request) :
    ∃ answers m', m.run requests = .ok (answers, m') ∧ m'.Coherent ∧ m.SameShape m' := by
  induction requests generalizing m with
  | nil => exact ⟨[], m, rfl, hm, .refl m⟩
  | cons request rest ih =>
      obtain ⟨answer, m₁, h₁⟩ := hm.perform_total request
      obtain ⟨answers, m', h', hm', hshape⟩ := ih (hm.perform h₁)
      refine ⟨answer :: answers, m', Fault.bind_eq_ok.mpr ⟨_, h₁, ?_⟩, hm',
        (perform_shape h₁).trans hshape⟩
      exact Fault.bind_eq_ok.mpr ⟨_, h', rfl⟩

end PhysMem.SlotMap
