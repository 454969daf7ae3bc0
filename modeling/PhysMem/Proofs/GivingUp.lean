import PhysMem.Proofs.Atomicity
import PhysMem.Proofs.PlainQueue

/-!
# Giving frames up — a set of frames, whatever the order

A frame that its owner gives up is free at once or orphaned on its way. What becomes of it depends on
its own descriptor only, and what becomes of the chain is that frames are deleted from it; so many
frames given up one after the other leave the coremap that the set of them determines, down to the
links and the counters.

* **`Exact.ext`** says by what a coremap with exact counters is known.
* **`GivesUp`** is what giving up a set of frames makes of a coremap. **`GivesUp.unique`** says that
  it makes one coremap of it, **`GivesUp.trans`** that sets add up.
* **`Exact.release_givesUp`** and **`Exact.releaseOne_eq`** are the steps: a release gives up one
  frame, and a sweep releases the frames that it visits.
* **`Exact.releaseEach`** and **`Exact.releaseSpace_givesUp`** — releases in any order, and a sweep.
-/

namespace PhysMem

/-- The descriptor of a frame that is given up: one in transit is orphaned, any other is free. -/
def Descriptor.givenUp (d : Descriptor) : Descriptor :=
  if d.inTransit then { d with orphaned := true } else .free

/-- The frame holds a page of the address space, which has not given it up yet. -/
def Descriptor.isKeptBy (d : Descriptor) (space : Nat) : Bool := d.holdsPageOf space && !d.orphaned

/-- What it comes to when a frame that holds a page is released. -/
def Descriptor.parting (d : Descriptor) : Coremap.Release :=
  if d.inTransit then .deferred else .freed 1

theorem Descriptor.givenUp_givenUp (d : Descriptor) : d.givenUp.givenUp = d.givenUp := by
  unfold Descriptor.givenUp
  cases h : d.inTransit with
  | true =>
      have hin : ({ d with orphaned := true } : Descriptor).inTransit = true := h
      rw [if_pos rfl, if_pos hin]
  | false => rfl

/-- A frame that was given up is kept by nobody. -/
theorem Descriptor.isKeptBy_givenUp (d : Descriptor) (space : Nat) :
    d.givenUp.isKeptBy space = false := by
  unfold Descriptor.givenUp
  split
  · exact Bool.and_false _
  · rfl

namespace Coremap

/-- The address space keeps frame `i`. -/
def keeps (m : Coremap) (space i : Nat) : Bool :=
  ((m.frames[i]?).map (·.isKeptBy space)).getD false

/-- The frames that the address space keeps. -/
def keptBy (m : Coremap) (space : Nat) : List Nat := (List.range m.size).filter (m.keeps space)

/-- Releases frames, one after the other. -/
def releaseEach (m : Coremap) :
    List Nat → Except Fault (List (Except FrameError Release) × Coremap)
  | [] => .ok ([], m)
  | i :: rest => do
    let (answer, m) ← m.release i
    let (answers, m) ← m.releaseEach rest
    return (answer :: answers, m)

/-- The descriptor of frame `i` without its neighbours. -/
def alone? (m : Coremap) (i : Nat) : Option Descriptor := (m.frames[i]?).map alone

variable {m m' m₁ t u : Coremap} {i space : Nat} {d : Descriptor} {gone gone' : Nat → Bool}
  {page : Page}

/-! ## By what a coremap is known -/

theorem alone?_of_getElem? (h : m.frames[i]? = some d) : m.alone? i = some (alone d) := by
  unfold alone?
  rw [h]
  rfl

theorem use?_eq_alone? (m : Coremap) (i : Nat) : m.use? i = (m.alone? i).map Descriptor.use := by
  unfold use? alone?
  rw [Option.map_map]
  rfl

theorem alone?_of_unlinked (h : m'.unlinked = m.unlinked) (i : Nat) : m'.alone? i = m.alone? i := by
  have hframes : m'.frames.map alone = m.frames.map alone := congrArg Coremap.frames h
  have hi := congrArg (·[i]?) hframes
  simpa [alone?] using hi

theorem alone?_put (hi : i < m.size) (x : Nat) :
    (m.put i d).alone? x = if x = i then some (alone d) else m.alone? x := by
  unfold alone? put
  by_cases hx : x = i
  · subst hx
    rw [if_pos rfl, Array.getElem?_setIfInBounds_self_of_lt hi]
    rfl
  · rw [if_neg hx, Array.getElem?_setIfInBounds_ne (Ne.symm hx)]

/-- **A coremap with exact counters is known** by its base, its placement, its chain and the
descriptors without their neighbours. -/
theorem Exact.ext (hm : m.Exact) (hm' : m'.Exact) (hbase : m'.base = m.base)
    (hplacement : m'.placement = m.placement) (hchain : m'.chain = m.chain)
    (hframe : ∀ i, m'.alone? i = m.alone? i) : m' = m := by
  have hframes : m'.frames.map alone = m.frames.map alone := by
    refine Array.ext_getElem? fun i => ?_
    rw [Array.getElem?_map, Array.getElem?_map]
    exact hframe i
  have hsize : m'.size = m.size := by
    have := congrArg Array.size hframes
    rwa [Array.size_map, Array.size_map] at this
  have halike : m.Alike m' := by
    refine ⟨⟨hsize, hbase, fun hp => hplacement ▸ hp⟩, fun i => ?_⟩
    rw [use?_eq_alone?, use?_eq_alone?, hframe]
  have hkernel : m'.kernelCount = m.kernelCount :=
    hm'.counted.kernel.symm.trans ((halike.countFrames fun _ => rfl).trans hm.counted.kernel)
  have huser : m'.userCount = m.userCount :=
    hm'.counted.user.symm.trans ((halike.countFrames fun _ => rfl).trans hm.counted.user)
  have hevicting : m'.evictingCount = m.evictingCount :=
    hm'.counted.evicting.symm.trans ((halike.countFrames fun _ => rfl).trans hm.counted.evicting)
  refine hm.toSound.linked_chain.ext (hchain ▸ hm'.toSound.linked_chain) ?_
  unfold unlinked
  rw [hframes, hbase, hplacement, hkernel, huser, hevicting]

/-! ## Giving up a set of frames -/

/-- What giving up the frames of `gone` makes of a coremap. -/
structure GivesUp (m : Coremap) (gone : Nat → Bool) (m' : Coremap) : Prop
    extends SameTable m m' where
  exact : m'.Exact
  placement : m'.placement = m.placement
  chain : m'.chain = m.chain.filter fun i => !gone i
  frame : ∀ i, m'.alone? i = (m.alone? i).map fun d => if gone i then d.givenUp else d

theorem GivesUp.refl (hm : m.Exact) : m.GivesUp (fun _ => false) m :=
  ⟨.refl m, hm, rfl, (List.filter_true m.chain).symm, fun _ => Option.map_id'.symm⟩

/-- **Giving up a set of frames has one outcome.** -/
theorem GivesUp.unique (h : m.GivesUp gone t) (h' : m.GivesUp gone u) : t = u :=
  h'.exact.ext h.exact (h.base.trans h'.base.symm) (h.placement.trans h'.placement.symm)
    (h.chain.trans h'.chain.symm) fun i => (h.frame i).trans (h'.frame i).symm

/-- **One set after the other** is both sets at once. -/
theorem GivesUp.trans (h : m.GivesUp gone t) (h' : t.GivesUp gone' u) :
    m.GivesUp (fun i => gone i || gone' i) u := by
  refine ⟨h.toSameTable.trans h'.toSameTable, h'.exact, h'.placement.trans h.placement, ?_,
    fun i => ?_⟩
  · rw [h'.chain, h.chain, List.filter_filter]
    refine List.filter_congr fun i _ => ?_
    cases gone i <;> cases gone' i <;> rfl
  · rw [h'.frame, h.frame, Option.map_map]
    congr 1
    funext d
    cases gone i <;> cases gone' i <;> first | rfl | exact d.givenUp_givenUp

theorem GivesUp.frame_of_gone (h : m.GivesUp gone t) (hi : gone i = true) :
    t.alone? i = (m.alone? i).map Descriptor.givenUp := by
  rw [h.frame]
  simp only [hi, if_true]

theorem GivesUp.frame_of_stays (h : m.GivesUp gone t) (hi : gone i = false) :
    t.alone? i = m.alone? i := by
  rw [h.frame]
  simp only [hi, Bool.false_eq_true, if_false]
  exact Option.map_id'

theorem keeps_eq_alone? (m : Coremap) (space i : Nat) :
    m.keeps space i = ((m.alone? i).map (·.isKeptBy space)).getD false := by
  unfold keeps alone?
  rw [Option.map_map]
  rfl

/-- An address space keeps what it kept and did not give up. -/
theorem GivesUp.keeps (h : m.GivesUp gone t) (space i : Nat) :
    t.keeps space i = (m.keeps space i && !gone i) := by
  rw [keeps_eq_alone?, keeps_eq_alone?]
  cases hi : gone i with
  | false => rw [h.frame_of_stays hi, Bool.not_false, Bool.and_true]
  | true =>
      rw [h.frame_of_gone hi, Bool.not_true, Bool.and_false, Option.map_map]
      cases m.alone? i with
      | none => rfl
      | some d => exact d.isKeptBy_givenUp space

/-- What it comes to when frame `i` is released. -/
def parting (m : Coremap) (i : Nat) : Release := ((m.frames[i]?).map (·.parting)).getD .deferred

theorem parting_cases (m : Coremap) (i : Nat) :
    m.parting i = .freed 1 ∨ m.parting i = .deferred := by
  unfold parting
  cases m.frames[i]? with
  | none => exact Or.inr rfl
  | some d =>
      show d.parting = _ ∨ d.parting = _
      unfold Descriptor.parting
      split
      · exact Or.inr rfl
      · exact Or.inl rfl

theorem GivesUp.parting (h : m.GivesUp gone t) (hi : gone i = false) :
    t.parting i = m.parting i := by
  have hsame : ∀ c : Coremap, c.parting i = ((c.alone? i).map (·.parting)).getD .deferred := by
    intro c
    unfold Coremap.parting alone?
    rw [Option.map_map]
    rfl
  rw [hsame, hsame, h.frame_of_stays hi]

/-- How many frames are free when the address space has given up all that it keeps. -/
def freedBy (m : Coremap) (space : Nat) : Nat :=
  (m.keptBy space).countP fun i => m.parting i == .freed 1

/-- Frames that an address space does not keep are given up without it. -/
theorem GivesUp.keeps_same (h : m.GivesUp gone t)
    (hno : ∀ i, m.keeps space i = true → gone i = false) :
    t.keeps space = m.keeps space ∧ t.freedBy space = m.freedBy space := by
  have hkeeps : t.keeps space = m.keeps space := by
    funext i
    rw [h.keeps]
    cases hkept : m.keeps space i with
    | false => rfl
    | true => rw [hno i hkept, Bool.not_false, Bool.and_true]
  refine ⟨hkeeps, ?_⟩
  unfold freedBy keptBy
  rw [h.size, hkeeps]
  refine List.countP_congr fun i hi => ?_
  rw [h.parting (hno i (List.mem_filter.mp hi).2)]

/-! ## One frame -/

/-- A frame that an address space keeps is a user frame, and not orphaned. -/
theorem Sound.user_of_kept (hm : m.Sound) (hd : m.frame i = .ok d)
    (hkept : d.isKeptBy space = true) :
    (d.allocated = true ∧ d.isUser = true) ∧ d.orphaned = false ∧ m.insideRun i = false := by
  obtain ⟨hholds, hopen⟩ := (Bool.and_eq_true _ _).mp hkept
  obtain ⟨r, hr, huse⟩ := hm.hasRole (use?_of_getElem? (frame_ok hd))
  have hours : r.use.holdsPageOf space = true := by
    rw [← huse]
    exact hholds
  refine ⟨?_, by simpa using hopen, Bool.eq_false_iff.mpr fun hinside => ?_⟩
  · show d.use.allocated = true ∧ d.use.isUser = true
    rw [huse]
    cases r with
    | free => exact nomatch hours
    | kernel tail => exact nomatch hours
    | resident page => exact ⟨rfl, rfl⟩
    | transit pinned page orphaned => exact ⟨rfl, rfl⟩
  · obtain ⟨tail, hk⟩ := hm.kernel_of_insideRun hinside
    rw [hr.unique hk] at hours
    exact nomatch hours

/-- A release of a frame that an address space keeps is served. -/
theorem Sound.release_eq (hm : m.Sound) (hd : m.frame i = .ok d) (hkept : d.isKeptBy space = true) :
    m.release i =
      if d.inTransit then .ok (.ok .deferred, m.put i { d with orphaned := true })
      else do
        let m ← m.unlink i
        let m ← m.clearUser i
        return (.ok (.freed 1), m) := by
  obtain ⟨⟨halloc, huser⟩, hopen, hfirst⟩ := hm.user_of_kept hd hkept
  unfold Coremap.release
  rw [hd]
  show (if (!d.allocated || m.insideRun i || d.orphaned) = true then _ else _) = _
  rw [halloc, hfirst, hopen, if_neg (by decide)]
  show (if d.inTransit = true then _ else if d.isUser = true then _ else _) = _
  rw [huser, if_pos rfl]
  rfl

/-- **A sweep releases the frames that it visits**, as far as the address space keeps them. -/
theorem Exact.releaseOne_eq (hm : m.Exact) (hd : m.frame i = .ok d) :
    m.releaseOne space i =
      if d.isKeptBy space then do
        let (answer, m) ← m.release i
        return (answer == .ok (.freed 1), m)
      else .ok (false, m) := by
  unfold Coremap.releaseOne
  rw [hd]
  show (if (!d.holdsPageOf space) = true then _ else if d.inTransit = true then _ else _) = _
  cases hkept : d.isKeptBy space with
  | true =>
      have hholds : d.holdsPageOf space = true := ((Bool.and_eq_true _ _).mp hkept).1
      rw [hm.toSound.release_eq hd hkept, hholds, if_neg (by decide), if_pos rfl]
      cases d.inTransit with
      | true => rfl
      | false =>
          cases m.unlink i with
          | error fault => rfl
          | ok m₁ =>
              show (m₁.clearUser i >>= _) = ((m₁.clearUser i >>= _) >>= _)
              cases m₁.clearUser i <;> rfl
  | false =>
      show _ = Except.ok (false, m)
      cases hholds : d.holdsPageOf space with
      | false => rfl
      | true =>
          -- a frame that was orphaned before is marked once more
          have horphan : d.orphaned = true := by
            unfold Descriptor.isKeptBy at hkept
            rw [hholds] at hkept
            simpa using hkept
          have hin : d.inTransit = true :=
            (Bool.or_eq_true _ _).mpr ((hm.tidy (frame_ok hd)).orphaned horphan)
          have hsame : ({ d with orphaned := true } : Descriptor) = d := by
            cases d
            cases horphan
            rfl
          rw [if_neg (by decide), if_pos hin, hsame, put_self hd]
          rfl

/-- A frame in transit is orphaned where it is. -/
theorem Exact.orphan_givesUp (hm : m.Exact) (hd : m.frame i = .ok d) (hin : d.inTransit = true) :
    m.GivesUp (· == i) (m.put i { d with orphaned := true }) := by
  have hlt := lt_size_of_frame hd
  have hl := hm.toSound.linked_chain
  have hi : i ∉ m.chain := by
    intro hmem
    obtain ⟨page, hres⟩ := (hm.toSound.mem_linked hl).mp hmem
    obtain ⟨d', hd', huse⟩ := hres.frame
    cases hd.symm.trans hd'
    exact nomatch hin.symm.trans (congrArg Descriptor.inTransit huse : d.use.inTransit = _)
  refine ⟨(put_puts hlt).toSameTable, hm.orphan hd hin, rfl, ?_, fun x => ?_⟩
  · have hsame : m.SameLinks (m.put i { d with orphaned := true }) := put_sameLinks hd rfl rfl
    rw [(hl.of_sameLinks hsame).chain]
    refine (List.filter_eq_self.mpr fun x hx => ?_).symm
    rw [Bool.not_eq_true', beq_eq_false_iff_ne]
    rintro rfl
    exact hi hx
  · rw [alone?_put hlt]
    by_cases hx : x = i
    · subst hx
      have hgiven : (alone d).givenUp = alone { d with orphaned := true } := if_pos hin
      simp only [if_true, beq_self_eq_true, alone?_of_getElem? (frame_ok hd), Option.map_some,
        hgiven]
    · simp only [if_neg hx, beq_eq_false_iff_ne.mpr hx, Bool.false_eq_true, if_false]
      exact Option.map_id'.symm

/-- A resident frame is free and off the chain. -/
theorem Exact.clear_givesUp (hm : m.Exact) (hd : m.frame i = .ok d) (hstill : d.inTransit = false)
    (hr : m.HasRole i (.resident page)) (hunlink : m.unlink i = .ok m₁)
    (hclear : m₁.clearUser i = .ok m') : m.GivesUp (· == i) m' := by
  have hl := hm.toSound.linked_chain
  refine ⟨(unlink_alike hunlink).toSameTable.trans (clearUser_ok hclear).2.toSameTable,
    hm.unlink_clear hr hunlink hclear,
    (clearUser_placement hclear).trans (unlink_placement hunlink), ?_, fun x => ?_⟩
  · rw [(hl.unlink_clear hunlink hclear).chain, hl.nodup.erase_eq_filter]
    rfl
  · obtain ⟨d₁, userCount, hd₁, -, -, rfl⟩ := clearUser_eq_ok hclear
    show (m₁.put i .free).alone? x = _
    rw [alone?_put (lt_size_of_frame hd₁), alone?_of_unlinked (unlink_unlinked hunlink)]
    by_cases hx : x = i
    · subst hx
      have hgiven : (alone d).givenUp = .free := if_neg (Bool.eq_false_iff.mp hstill)
      simp only [if_true, beq_self_eq_true, alone?_of_getElem? (frame_ok hd), Option.map_some,
        hgiven]
      rfl
    · simp only [if_neg hx, beq_eq_false_iff_ne.mpr hx, Bool.false_eq_true, if_false]
      exact Option.map_id'.symm

theorem keeps_eq_true : m.keeps space i = true ↔
    ∃ d, m.frame i = .ok d ∧ d.isKeptBy space = true := by
  unfold keeps frame
  cases m.frames[i]? with
  | none => simp
  | some d => simp

/-- **A release gives up one frame.** -/
theorem Exact.release_givesUp (hm : m.Exact) (hkept : m.keeps space i = true) :
    ∃ m', m.release i = .ok (.ok (m.parting i), m') ∧ m.GivesUp (· == i) m' := by
  obtain ⟨d, hd, hkept⟩ := keeps_eq_true.mp hkept
  have hparting : m.parting i = d.parting := by
    unfold Coremap.parting
    rw [frame_ok hd]
    rfl
  rw [hparting, hm.toSound.release_eq hd hkept]
  unfold Descriptor.parting
  cases hin : d.inTransit with
  | true => exact ⟨_, rfl, hm.orphan_givesUp hd hin⟩
  | false =>
      obtain ⟨⟨-, huser⟩, -⟩ := hm.toSound.user_of_kept hd hkept
      obtain ⟨page, hr⟩ := hm.toSound.resident_of_user hd huser hin
      obtain ⟨m₁, hunlink⟩ := (hm.toSound.unlink_onlyOverflows hr).exists_ok trivial
      obtain ⟨m₂, hclear⟩ := (hm.clear_unlinked_onlyOverflows hr hunlink).exists_ok trivial
      refine ⟨m₂, ?_, hm.clear_givesUp hd hin hr hunlink hclear⟩
      rw [if_neg Bool.false_ne_true, hunlink]
      show (m₁.clearUser i >>= _) = _
      rw [hclear]
      rfl

/-! ## Releases in any order -/

/-- **Releases give up the frames that they name**, each once. -/
theorem Exact.releaseEach {order : List Nat} (hm : m.Exact) (hnodup : order.Nodup)
    (hkept : ∀ i ∈ order, m.keeps space i = true) :
    ∃ m', m.releaseEach order = .ok (order.map fun i => .ok (m.parting i), m') ∧
      m.GivesUp (fun i => decide (i ∈ order)) m' := by
  induction order generalizing m with
  | nil => exact ⟨m, rfl, .refl hm⟩
  | cons i rest ih =>
      obtain ⟨hi, hrest⟩ := List.nodup_cons.mp hnodup
      obtain ⟨m₁, hrelease, hone⟩ := hm.release_givesUp (hkept i List.mem_cons_self)
      have hstays : ∀ x ∈ rest, (x == i) = false := fun x hx =>
        beq_eq_false_iff_ne.mpr fun he => hi (he ▸ hx)
      obtain ⟨m', heach, hgives⟩ := ih hone.exact hrest fun x hx => by
        rw [hone.keeps, hkept x (List.mem_cons_of_mem i hx), hstays x hx]
        rfl
      have hsame : (rest.map fun x => (.ok (m₁.parting x) : Except FrameError Release)) =
          rest.map fun x => .ok (m.parting x) :=
        List.map_congr_left fun x hx => by rw [hone.parting (hstays x hx)]
      refine ⟨m', Fault.bind_eq_ok.mpr ⟨_, hrelease, Fault.bind_eq_ok.mpr ⟨_, heach, ?_⟩⟩, ?_⟩
      · rw [hsame]
        rfl
      · have hall : (fun x => (x == i) || decide (x ∈ rest)) = fun x => decide (x ∈ i :: rest) := by
          funext x
          rw [Bool.eq_iff_iff]
          simp
        rw [← hall]
        exact hone.trans hgives

/-- Behind the first `k` frames: those that the address space kept are given up, and so many of them
are free. -/
structure SweptTo (m : Coremap) (space k : Nat) (t : Nat × Coremap) : Prop where
  givesUp : m.GivesUp (fun i => decide (i < k) && m.keeps space i) t.2
  freed : t.1 = ((List.range k).filter (m.keeps space)).countP fun i => m.parting i == .freed 1

/-- One more frame is visited. -/
theorem SweptTo.next {k : Nat} {t t' : Nat × Coremap} (h : m.SweptTo space k t) (hk : k < m.size)
    (hone : (do
      let (isFree, m) ← t.2.releaseOne space k
      return (if isFree then t.1 + 1 else t.1, m)) = Except.ok t') :
    m.SweptTo space (k + 1) t' := by
  obtain ⟨⟨isFree, u⟩, hu, he⟩ := Fault.bind_eq_ok.mp hone
  cases he
  obtain ⟨d, hd⟩ := frame_total (h.givesUp.size.symm ▸ hk : k < t.2.size)
  have hnot : (decide (k < k) && m.keeps space k) = false := by simp
  have hkeeps : t.2.keeps space k = m.keeps space k := by
    rw [h.givesUp.keeps, hnot, Bool.not_false, Bool.and_true]
  have hkept : t.2.keeps space k = d.isKeptBy space := by
    unfold Coremap.keeps
    rw [frame_ok hd]
    rfl
  rw [h.givesUp.exact.releaseOne_eq hd, ← hkept, hkeeps] at hu
  have hset : ∀ i, (decide (i < k + 1) && m.keeps space i) =
      (decide (i < k) && m.keeps space i || (i == k) && m.keeps space k) := by
    intro i
    by_cases hi : i = k
    · subst hi
      simp
    · have hlt : i < k + 1 ↔ i < k := by omega
      simp [hlt, hi]
  cases hmine : m.keeps space k with
  | false =>
      rw [hmine] at hu
      cases hu
      refine ⟨?_, ?_⟩
      · simpa only [hset, hmine, Bool.and_false, Bool.or_false] using h.givesUp
      · rw [List.range_succ, List.filter_append, List.filter_singleton, hmine]
        simpa using h.freed
  | true =>
      rw [hmine, if_pos rfl] at hu
      obtain ⟨v, hrelease, hgives⟩ := h.givesUp.exact.release_givesUp (hkeeps.trans hmine)
      rw [hrelease] at hu
      cases hu
      refine ⟨?_, ?_⟩
      · simpa only [hset, hmine, Bool.and_true] using h.givesUp.trans hgives
      · rw [h.givesUp.parting hnot, List.range_succ, List.filter_append, List.filter_singleton,
          hmine, List.countP_append, ← h.freed, cond_true, List.countP_singleton]
        by_cases hfree : m.parting k = .freed 1
        · rw [hfree]
          rfl
        · rw [if_neg (by simpa using hfree), if_neg (by simpa using hfree)]
          rfl

/-- **A sweep gives up the frames that the address space keeps**, and counts those that are free
then. -/
theorem Exact.releaseSpace_givesUp {n : Nat} (hm : m.Exact)
    (h : m.releaseSpace space = .ok (n, m')) :
    m.GivesUp (m.keeps space) m' ∧ n = m.freedBy space := by
  have hstart : m.SweptTo space 0 (0, m) := ⟨by simpa using GivesUp.refl hm, rfl⟩
  have hend := Sweep.foldlM_range (P := m.SweptTo space) hstart
    (fun k t t' hk ht hone => ht.next hk hone) h
  refine ⟨?_, hend.freed⟩
  have hall : (fun i => decide (i < m.size) && m.keeps space i) = m.keeps space := by
    funext i
    cases hkept : m.keeps space i with
    | false => rw [Bool.and_false]
    | true =>
        obtain ⟨d, hd, -⟩ := keeps_eq_true.mp hkept
        rw [Bool.and_true, decide_eq_true (lt_size_of_frame hd)]
  rw [← hall]
  exact hend.givesUp

theorem Exact.releaseSpace_total (hm : m.Exact) (space : Nat) :
    ∃ n m', m.releaseSpace space = .ok (n, m') := by
  have hone : Fault.OnlyOverflows True (m.releaseSpace space) := hm.releaseSpace_onlyOverflows
  obtain ⟨⟨n, m'⟩, h⟩ := hone.exists_ok trivial
  exact ⟨n, m', h⟩

/-- A coremap whose frames were given up is the one that the sweep leaves. -/
theorem Exact.releaseSpace_of_givesUp (hm : m.Exact) (h : m.GivesUp (m.keeps space) m') :
    m.releaseSpace space = .ok (m.freedBy space, m') := by
  obtain ⟨n, m₁, hsweep⟩ := hm.releaseSpace_total space
  obtain ⟨hgives, rfl⟩ := hm.releaseSpace_givesUp hsweep
  rw [hsweep, hgives.unique h]

end Coremap

end PhysMem
