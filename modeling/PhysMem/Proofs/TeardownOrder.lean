import PhysMem.Proofs.GivingUp
import PhysMem.Proofs.SlotRequests

/-!
# Teardowns in any order — address spaces that do not meet

A teardown sweeps the frames and the slots in the order of their numbers. The order does not show:
the frames could as well have been released one by one, the frames and the slots of other address
spaces are left alone, and two address spaces can be torn down either way round. A second teardown of
the same address space finds nothing to do.

* **`Exact.releaseSpace_eq_releaseEach`** compares the sweep with single releases.
* **`Exact.releaseSpace_comm`** and **`SlotMap.Coherent.releaseSpace_comm`** are the two ways round.
* **`teardowns_in_any_order`** puts frames and slots together.
-/

namespace PhysMem

namespace Coremap

variable {m m' a b : Coremap} {i n space other : Nat} {d : Descriptor} {order : List Nat}

/-! ## Frames -/

theorem mem_keptBy : i ∈ m.keptBy space ↔ m.keeps space i = true := by
  unfold keptBy
  rw [List.mem_filter, List.mem_range]
  refine and_iff_right_of_imp fun hkept => ?_
  obtain ⟨d, hd, -⟩ := keeps_eq_true.mp hkept
  exact lt_size_of_frame hd

/-- **A sweep leaves what single releases leave**, in any order, and counts the frames that they
freed. -/
theorem Exact.releaseSpace_eq_releaseEach (hm : m.Exact) (horder : order.Perm (m.keptBy space)) :
    ∃ answers m', m.releaseEach order = .ok (answers, m') ∧
      m.releaseSpace space = .ok (answers.count (.ok (.freed 1)), m') ∧
      ∀ answer ∈ answers, answer = .ok (.freed 1) ∨ answer = .ok .deferred := by
  have hnodup : order.Nodup := horder.nodup_iff.mpr (List.nodup_range.filter _)
  have hmem : ∀ i, i ∈ order ↔ m.keeps space i = true := fun i =>
    horder.mem_iff.trans mem_keptBy
  obtain ⟨m', heach, hgives⟩ := hm.releaseEach hnodup fun i hi => (hmem i).mp hi
  obtain ⟨n, m₁, hsweep⟩ := hm.releaseSpace_total space
  obtain ⟨hgives₁, rfl⟩ := hm.releaseSpace_givesUp hsweep
  have hset : (fun i => decide (i ∈ order)) = m.keeps space := by
    funext i
    rw [Bool.eq_iff_iff, decide_eq_true_eq]
    exact hmem i
  rw [hset] at hgives
  obtain rfl := hgives.unique hgives₁
  refine ⟨_, m', heach, ?_, ?_⟩
  · have hcount : m.freedBy space = (order.map fun i =>
        (.ok (m.parting i) : Except FrameError Release)).count (.ok (.freed 1)) := by
      unfold freedBy List.count
      rw [← horder.countP_eq, List.countP_map]
      refine List.countP_congr fun i _ => ?_
      simp
    rw [hsweep, hcount]
  · intro answer hanswer
    obtain ⟨i, -, rfl⟩ := List.mem_map.mp hanswer
    rcases m.parting_cases i with hfreed | hdeferred
    · exact Or.inl (congrArg Except.ok hfreed)
    · exact Or.inr (congrArg Except.ok hdeferred)

/-- Frames that hold no page of the address space keep their descriptors but for their neighbours,
and their order on the chain. -/
theorem Exact.releaseSpace_others (hm : m.Exact) (h : m.releaseSpace space = .ok (n, m')) :
    (∀ (i : Nat) d, m.frames[i]? = some d → d.holdsPageOf space = false →
      ∃ d', m'.frames[i]? = some d' ∧ alone d' = alone d) ∧
    m'.chain = m.chain.filter fun i => !m.holds space i := by
  refine ⟨fun i d hd hother => ?_,
    (hm.toSound.releaseSpace_requeue hm.toSound.linked_chain h).chain⟩
  have hstays : m.keeps space i = false := by
    unfold Coremap.keeps
    rw [hd]
    show (d.holdsPageOf space && !d.orphaned) = false
    rw [hother, Bool.false_and]
  have hsame := (hm.releaseSpace_givesUp h).1.frame_of_stays hstays
  rw [alone?_of_getElem? hd] at hsame
  exact Option.map_eq_some_iff.mp hsame

/-- A frame is kept by one address space. -/
theorem keeps_apart (hne : other ≠ space) (h : m.keeps space i = true) :
    m.keeps other i = false := by
  obtain ⟨d, hd, hkept⟩ := keeps_eq_true.mp h
  have hholds := ((Bool.and_eq_true _ _).mp hkept).1
  unfold Coremap.keeps
  rw [frame_ok hd]
  show (d.holdsPageOf other && !d.orphaned) = false
  unfold Descriptor.holdsPageOf at hholds ⊢
  cases hp : d.page with
  | none => rfl
  | some page =>
      rw [hp] at hholds
      have hspace : page.space = space := beq_iff_eq.mp hholds
      show (page.space == other && !d.orphaned) = false
      rw [hspace, beq_eq_false_iff_ne.mpr (Ne.symm hne), Bool.false_and]

/-- **Two address spaces give up their frames in either order.** -/
theorem Exact.releaseSpace_comm (hm : m.Exact) (hne : other ≠ space) :
    ∃ a b c, m.releaseSpace space = .ok (m.freedBy space, a) ∧
      a.releaseSpace other = .ok (m.freedBy other, c) ∧
      m.releaseSpace other = .ok (m.freedBy other, b) ∧
      b.releaseSpace space = .ok (m.freedBy space, c) := by
  -- what is left when both are gone, the other one last
  have both : ∀ {space other}, other ≠ space → ∃ a c,
      m.releaseSpace space = .ok (m.freedBy space, a) ∧
      a.releaseSpace other = .ok (m.freedBy other, c) ∧
      m.GivesUp (fun i => m.keeps space i || m.keeps other i) c := by
    intro space other hne
    obtain ⟨n, a, ha⟩ := hm.releaseSpace_total space
    obtain ⟨hgives, rfl⟩ := hm.releaseSpace_givesUp ha
    obtain ⟨k, c, hc⟩ := hgives.exact.releaseSpace_total other
    obtain ⟨hgives', rfl⟩ := hgives.exact.releaseSpace_givesUp hc
    have hspared : ∀ i, m.keeps other i = true → m.keeps space i = false :=
      fun i hi => keeps_apart (Ne.symm hne) hi
    obtain ⟨hkeeps, hfreed⟩ := hgives.keeps_same hspared
    refine ⟨a, c, ha, hfreed ▸ hc, ?_⟩
    rw [hkeeps] at hgives'
    exact hgives.trans hgives'
  obtain ⟨a, c, ha, hc, hgives⟩ := both hne
  obtain ⟨b, c', hb, hc', hgives'⟩ := both (Ne.symm hne)
  have hset : (fun i => m.keeps other i || m.keeps space i) =
      fun i => m.keeps space i || m.keeps other i := funext fun i => Bool.or_comm _ _
  rw [hset] at hgives'
  obtain rfl := hgives.unique hgives'
  exact ⟨a, b, c, ha, hc, hb, hc'⟩

/-- **An address space gives up its frames once.** -/
theorem Exact.releaseSpace_again (hm : m.Exact) (h : m.releaseSpace space = .ok (n, m')) :
    m'.releaseSpace space = .ok (0, m') := by
  obtain ⟨hgives, -⟩ := hm.releaseSpace_givesUp h
  have hnone : m'.keeps space = fun _ => false := by
    funext i
    rw [hgives.keeps, Bool.and_not_self]
  have hfreed : m'.freedBy space = 0 := by
    unfold freedBy keptBy
    rw [hnone, List.filter_false]
    rfl
  have hsame : m'.GivesUp (m'.keeps space) m' := hnone ▸ GivesUp.refl hgives.exact
  rw [hgives.exact.releaseSpace_of_givesUp hsame, hfreed]

end Coremap

/-! ## Slots -/

namespace SlotMap

variable {m m' : SlotMap} {n slot space other : Nat} {s : Option (Page × SlotState)}

/-- **A map whose parts are in step is known** by its shape and the view of its slots. -/
theorem Coherent.ext (hm : m.Coherent) (hm' : m'.Coherent) (hshape : m.SameShape m')
    (hstate : ∀ x, m'.state? x = m.state? x) : m' = m := by
  refine hm.toSound.ext hm'.toSound hshape ?_ hstate
  rw [hm'.count_eq, hm.count_eq]
  unfold usedSlots
  rw [hshape.capacity]
  refine List.countP_congr fun x _ => ?_
  rw [hm'.toSound.used_bit, hm.toSound.used_bit, hstate]

/-- How many slots a teardown of the address space clears. -/
def clearedBy (m : SlotMap) (space : Nat) : Nat :=
  (List.range m.capacity).countP fun x => restsIn space (m.state? x)

/-- Two sweeps make the same of a slot, whichever comes first. -/
theorem swept_comm (hne : other ≠ space) (s : Option (Page × SlotState)) :
    swept other (swept space s) = swept space (swept other s) := by
  cases s with
  | none => rfl
  | some entry =>
      obtain ⟨page, s⟩ := entry
      by_cases hspace : page.space = space
      · have hother : page.space ≠ other := fun h => hne (h.symm.trans hspace)
        rw [swept_other hother]
        by_cases hs : s = .idle
        · subst hs
          rw [swept_idle hspace]
          rfl
        · rw [swept_busy hspace hs, swept_other hother]
      · rw [swept_other hspace]
        cases hs : swept other (some (page, s)) with
        | none => rfl
        | some entry =>
            obtain ⟨q, t⟩ := entry
            rcases swept_eq_some hs with ⟨-, he⟩ | ⟨-, rfl, t, -, he⟩
            · cases he
              rw [swept_other hspace]
            · cases he
              rw [swept_other hspace]

/-- What an address space has at rest in a slot stays there when another is swept. -/
theorem restsIn_swept (hne : other ≠ space) (s : Option (Page × SlotState)) :
    restsIn other (swept space s) = restsIn other s := by
  cases s with
  | none => rfl
  | some entry =>
      obtain ⟨page, s⟩ := entry
      by_cases hspace : page.space = space
      · have hother : (page.space == other) = false :=
          beq_eq_false_iff_ne.mpr fun h => hne (h.symm.trans hspace)
        by_cases hs : s = .idle
        · subst hs
          rw [swept_idle hspace]
          exact hother.symm
        · rw [swept_busy hspace hs, restsIn_of_busy hs]
          rfl
      · rw [swept_other hspace]

/-- A sweep leaves nothing for another of the same address space. -/
theorem swept_again (space : Nat) (s : Option (Page × SlotState)) :
    swept space (swept space s) = swept space s ∧ restsIn space (swept space s) = false := by
  cases s with
  | none => exact ⟨rfl, rfl⟩
  | some entry =>
      obtain ⟨page, s⟩ := entry
      by_cases hspace : page.space = space
      · by_cases hs : s = .idle
        · subst hs
          rw [swept_idle hspace]
          exact ⟨rfl, rfl⟩
        · rw [swept_busy hspace hs]
          exact ⟨swept_busy hspace nofun, rfl⟩
      · rw [swept_other hspace]
        refine ⟨swept_other hspace, ?_⟩
        cases s with
        | idle => exact beq_eq_false_iff_ne.mpr hspace
        | busy => rfl
        | orphaned => rfl

/-- **Two address spaces clear their slots in either order.** -/
theorem Coherent.releaseSpace_comm (hm : m.Coherent) (hne : other ≠ space) :
    ∃ a b c, m.releaseSpace space = .ok (m.clearedBy space, a) ∧
      a.releaseSpace other = .ok (m.clearedBy other, c) ∧
      m.releaseSpace other = .ok (m.clearedBy other, b) ∧
      b.releaseSpace space = .ok (m.clearedBy space, c) := by
  -- what is left when both are swept, the other one last
  have both : ∀ {space other}, other ≠ space → ∃ a c,
      m.releaseSpace space = .ok (m.clearedBy space, a) ∧
      a.releaseSpace other = .ok (m.clearedBy other, c) ∧ c.Coherent ∧ m.SameShape c ∧
      ∀ x, c.state? x = swept other (swept space (m.state? x)) := by
    intro space other hne
    obtain ⟨n, a, ha⟩ := hm.releaseSpace_total space
    obtain ⟨hcoherent, rfl⟩ := hm.releaseSpace ha
    obtain ⟨k, c, hc⟩ := hcoherent.releaseSpace_total other
    obtain ⟨hcoherent', rfl⟩ := hcoherent.releaseSpace hc
    obtain ⟨-, hcap, hstate⟩ := releaseSpace_ok hm.toSound ha
    obtain ⟨-, -, hstate'⟩ := releaseSpace_ok hcoherent.toSound hc
    have hcleared : a.clearedBy other = m.clearedBy other := by
      unfold clearedBy
      rw [hcap]
      exact List.countP_congr fun x _ => by rw [hstate, restsIn_swept hne]
    refine ⟨a, c, ha, hcleared ▸ hc, hcoherent',
      (releaseSpace_shape ha).trans (releaseSpace_shape hc), fun x => ?_⟩
    rw [hstate', hstate]
  obtain ⟨a, c, ha, hc, hcoherent, hshape, hstate⟩ := both hne
  obtain ⟨b, c', hb, hc', hcoherent', hshape', hstate'⟩ := both (Ne.symm hne)
  obtain rfl := hcoherent.ext hcoherent' (hshape.symm.trans hshape') fun x => by
    rw [hstate', hstate, swept_comm hne]
  exact ⟨a, b, c', ha, hc, hb, hc'⟩

/-- **An address space clears its slots once.** -/
theorem Coherent.releaseSpace_again (hm : m.Coherent) (h : m.releaseSpace space = .ok (n, m')) :
    m'.releaseSpace space = .ok (0, m') := by
  obtain ⟨hcoherent, -⟩ := hm.releaseSpace h
  obtain ⟨-, -, hstate⟩ := releaseSpace_ok hm.toSound h
  obtain ⟨k, c, hc⟩ := hcoherent.releaseSpace_total space
  obtain ⟨hcoherent', rfl⟩ := hcoherent.releaseSpace hc
  obtain ⟨-, -, hstate'⟩ := releaseSpace_ok hcoherent.toSound hc
  have hnone : (List.range m'.capacity).countP (fun x => restsIn space (m'.state? x)) = 0 := by
    refine List.countP_eq_zero.mpr fun x _ => ?_
    rw [hstate, (swept_again space _).2]
    exact Bool.false_ne_true
  obtain rfl := hcoherent.ext hcoherent' (releaseSpace_shape hc) fun x => by
    rw [hstate', hstate, (swept_again space _).1]
  rw [hc, hnone]

end SlotMap

/-! ## The result -/

/-- A teardown of `space` is over at once: it frees `frames` frames, clears `slots` slots and leaves
`n`. -/
def Memory.TearsDownTo (m : Memory) (space frames slots : Nat) (n : Memory) : Prop :=
  Task.tearDown m space =
    .ok (Task.finish n [.tornDown frames slots space] (.tornDown frames slots))

theorem Memory.tearsDownTo {m : Memory} {space frames cleared : Nat} {coremap : Coremap}
    {slots : SlotMap} (hframes : m.coremap.releaseSpace space = .ok (frames, coremap))
    (hslots : m.swap.slots.releaseSpace space = .ok (cleared, slots)) :
    m.TearsDownTo space frames cleared ({ m with coremap }.putSlots slots) :=
  Fault.bind_eq_ok.mpr ⟨_, hframes, Fault.bind_eq_ok.mpr ⟨_, hslots, rfl⟩⟩

/-- **Teardowns in any order.** Of a coremap and a slot map that are reached, whatever is under way,
a teardown of an address space makes what releases of the frames that it still keeps make, in any
order, and counts the frames that these free. It leaves the frames of others their descriptors, but
for the neighbours, and their order on the chain. Two address spaces are torn down with the same
outcome either way round, and a second teardown of the same address space changes nothing. -/
theorem teardowns_in_any_order {count base slots : Nat} {policy : PlacementPolicy}
    {start : Coremap} {past : List Coremap.Event} {requests : List SlotMap.Request}
    {answers : List SlotMap.Answer} {m : Memory}
    (hnew : Coremap.create count base (.ofPolicy policy) = .ok start)
    (hframes : start.Reaches past m.coremap) (hslots : slots < Word.span Word.bits)
    (hrun : (SlotMap.empty slots).run requests = .ok (answers, m.swap.slots)) (space : Nat) :
    (∀ order : List Nat, order.Perm (m.coremap.keptBy space) → ∃ answers coremap,
      m.coremap.releaseEach order = .ok (answers, coremap) ∧
      m.coremap.releaseSpace space = .ok (answers.count (.ok (.freed 1)), coremap) ∧
      ∀ answer ∈ answers, answer = .ok (.freed 1) ∨ answer = .ok .deferred) ∧
    (∀ n coremap, m.coremap.releaseSpace space = .ok (n, coremap) →
      (∀ (i : Nat) d, m.coremap.frames[i]? = some d → d.holdsPageOf space = false →
        ∃ d', coremap.frames[i]? = some d' ∧ Coremap.alone d' = Coremap.alone d) ∧
      coremap.chain = m.coremap.chain.filter fun i => !m.coremap.holds space i) ∧
    (∀ other, other ≠ space → ∃ frames cleared frames' cleared' a b c,
      m.TearsDownTo space frames cleared a ∧ a.TearsDownTo other frames' cleared' c ∧
      m.TearsDownTo other frames' cleared' b ∧ b.TearsDownTo space frames cleared c) ∧
    ∃ frames cleared a, m.TearsDownTo space frames cleared a ∧ a.TearsDownTo space 0 0 a := by
  obtain ⟨hexact, -, -⟩ := hframes.exact hnew
  have hcoherent : m.swap.slots.Coherent := by
    obtain ⟨_, _, hrun', hcoherent, -⟩ := (SlotMap.empty_coherent hslots).run_total requests
    cases hrun.symm.trans hrun'
    exact hcoherent
  refine ⟨fun order horder => hexact.releaseSpace_eq_releaseEach horder,
    fun n coremap h => hexact.releaseSpace_others h, fun other hne => ?_, ?_⟩
  · obtain ⟨ca, cb, cc, ha, hac, hb, hbc⟩ := hexact.releaseSpace_comm hne
    obtain ⟨sa, sb, sc, ha', hac', hb', hbc'⟩ := hcoherent.releaseSpace_comm hne
    exact ⟨_, _, _, _, _, _, _, Memory.tearsDownTo ha ha', Memory.tearsDownTo hac hac',
      Memory.tearsDownTo hb hb', Memory.tearsDownTo hbc hbc'⟩
  · obtain ⟨n, ca, ha⟩ := hexact.releaseSpace_total space
    obtain ⟨k, sa, ha'⟩ := hcoherent.releaseSpace_total space
    exact ⟨n, k, _, Memory.tearsDownTo ha ha',
      Memory.tearsDownTo (hexact.releaseSpace_again ha) (hcoherent.releaseSpace_again ha')⟩

/-- Five free frames. -/
def fiveFrames : Coremap where
  frames := Array.replicate 5 .free
  base := Address.frameSize
  placement := .firstFit

/-- Of address space 1 one page is resident, one is being filled and one is orphaned on its way out;
one slot is idle, one busy and one orphaned. A page of address space 2 and a kernel frame lie between
them. -/
theorem teardowns_in_any_order_of_a_mix :
    ∃ (past : List Coremap.Event) (m : Memory) (answers : List SlotMap.Answer),
      fiveFrames.Reaches past m.coremap ∧
      (SlotMap.empty 4).run [.reserve ⟨1, 0⟩, .releaseSpace 1, .reserve ⟨1, 5⟩, .settle 1 ⟨1, 5⟩,
        .reserve ⟨1, 6⟩, .reserve ⟨2, 0⟩, .settle 3 ⟨2, 0⟩] = .ok (answers, m.swap.slots) ∧
      m.coremap.keptBy 1 = [1, 4] ∧
      (∃ coremap, m.coremap.releaseEach [4, 1] = .ok ([.ok .deferred, .ok (.freed 1)], coremap) ∧
        m.coremap.releaseSpace 1 = .ok (1, coremap)) ∧
      ∃ frames cleared frames' cleared' a b c,
        m.TearsDownTo 1 frames cleared a ∧ a.TearsDownTo 2 frames' cleared' c ∧
        m.TearsDownTo 2 frames' cleared' b ∧ b.TearsDownTo 1 frames cleared c := by
  have hevents : (fiveFrames.follow [.release 0, .detachOldest, .claimPinned ⟨1, 2⟩,
      .claim .kernel 1, .claim (.user ⟨2, 0⟩) 1, .claim (.user ⟨1, 1⟩) 1,
      .claim (.user ⟨1, 0⟩) 1]).map (fun r => (r.2.keptBy 1,
        (r.2.releaseEach [4, 1]).toOption.map (·.1))) =
      some ([1, 4], some [.ok .deferred, .ok (.freed 1)]) := by
    decide +kernel
  obtain ⟨⟨past, coremap⟩, hfollow, he⟩ := Option.map_eq_some_iff.mp hevents
  obtain ⟨hkept, hanswers⟩ := Prod.mk.inj he
  have hreaches := Coremap.reaches_of_follow hfollow
  have hnew : Coremap.create 5 Address.frameSize (.ofPolicy .firstFit) = .ok fiveFrames := rfl
  obtain ⟨answers, slots, hrun, -, -⟩ := (SlotMap.empty_coherent (n := 4) (by decide)).run_total
    [.reserve ⟨1, 0⟩, .releaseSpace 1, .reserve ⟨1, 5⟩, .settle 1 ⟨1, 5⟩, .reserve ⟨1, 6⟩,
      .reserve ⟨2, 0⟩, .settle 3 ⟨2, 0⟩]
  let m : Memory := (Memory.create coremap (SwapArea.ofBlock
    { kind := .swap, name := "disk", size := 32, drive := .blank 32 } {})).putSlots slots
  obtain ⟨horder, -, htwo, -⟩ := teardowns_in_any_order (m := m) hnew hreaches (by decide) hrun 1
  obtain ⟨given, coremap', heach, hsweep, -⟩ := horder [4, 1]
    (hkept.symm ▸ List.Perm.swap 1 4 [])
  have heach' : coremap.releaseEach [4, 1] = .ok (given, coremap') := heach
  rw [heach'] at hanswers
  obtain rfl := Option.some.inj hanswers
  exact ⟨past, m, answers, hreaches, hrun, hkept, ⟨coremap', heach, hsweep⟩, htwo 2 (by decide)⟩

end PhysMem
