import PhysMem.Proofs.PartialMap
import PhysMem.Proofs.TeardownOrder

/-!
# Orphans — what a sweep cannot clear ends with its transfer

A sweep of an address space clears the slots where its pages are at rest. A slot with a transfer under
way stays, orphaned, and from then on it can only go: nothing takes it up again, no later sweep clears
it, and whoever ends the transfer frees it.

* **`OrphansOnly`** is what a sweep establishes: all that the address space has in use is orphaned.
* **`Request.Ends`** lists the requests that free an orphan. As long as the address space reserves
  nothing a slot stays its page's exactly if the request is none of them (**`Acts.eq_some_iff`**), and
  so for any list of requests (**`Coherent.run_eq_some_iff`**).
* **`Orphan`** is what an orphaned slot answers.
* **`orphans_end_with_their_transfer`** — all of it, from a sweep in any state on.
-/

namespace PhysMem.SlotMap

variable {m m' : SlotMap} {n slot x space : Nat} {page : Page} {s : SlotState}
  {f g : Nat → Option (Page × SlotState)} {request : Request} {answer : Answer}
  {later : List Request} {answers : List Answer}

/-- All that the address space has in use is orphaned. -/
def OrphansOnly (space : Nat) (f : Nat → Option (Page × SlotState)) : Prop :=
  ∀ x page s, page.space = space → f x = some (page, s) → s = .orphaned

theorem orphansOnly_swept (space : Nat) (f : Nat → Option (Page × SlotState)) :
    OrphansOnly space fun x => swept space (f x) := by
  intro x page s hspace hs
  rcases swept_eq_some hs with ⟨hother, -⟩ | ⟨-, horphaned, -⟩
  · exact absurd hspace hother
  · exact horphaned

/-- What frees an orphaned slot of `page`: the page's own end of the transfer, or a bare release. -/
inductive Request.Ends (slot : Nat) (page : Page) : Request → Prop
  | settle : Ends slot page (.settle slot page)
  | releaseIfOwned : Ends slot page (.releaseIfOwned slot page)
  | release : Ends slot page (.release slot)

/-! ## One request -/

/-- A slot stays as it is, and the request is none that ends what it holds. -/
theorem eq_some_of_same (h : request.Ends slot page → f slot ≠ some (page, s)) :
    f slot = some (page, s) ↔ f slot = some (page, s) ∧ ¬ request.Ends slot page :=
  ⟨fun hs => ⟨hs, fun hends => h hends hs⟩, And.left⟩

/-- A slot is freed, by a request that ends what it holds and nothing in other slots. -/
theorem eq_some_of_freed (hself : ∀ s, f x = some (page, s) → request.Ends x page)
    (hother : request.Ends slot page → slot = x) :
    Function.update f x none slot = some (page, s) ↔
      f slot = some (page, s) ∧ ¬ request.Ends slot page := by
  by_cases hx : slot = x
  · subst hx
    rw [Function.update_self]
    exact ⟨nofun, fun h => absurd (hself s h.1) h.2⟩
  · rw [Function.update_of_ne hx]
    exact eq_some_of_same fun hends => absurd (hother hends) hx

/-- A slot that is not the page's is another page's afterwards. -/
theorem eq_some_of_taken {taker : Page} {t : SlotState} (htaker : taker ≠ page)
    (hbefore : ∀ s, f x ≠ some (page, s)) (hends : ¬ request.Ends slot page) :
    Function.update f x (some (taker, t)) slot = some (page, s) ↔
      f slot = some (page, s) ∧ ¬ request.Ends slot page := by
  by_cases hx : slot = x
  · subst hx
    rw [Function.update_self]
    refine ⟨fun h => ?_, fun h => absurd h.1 (hbefore s)⟩
    cases h
    exact absurd rfl htaker
  · rw [Function.update_of_ne hx]
    exact eq_some_of_same fun h => absurd h hends

/-- **A request only ends what the address space has in use**, unless it reserves a slot for it. -/
theorem Acts.eq_some_iff (h : Acts n f request answer g) (hpast : ∀ x, n ≤ x → f x = none)
    (hf : OrphansOnly space f) (hrequest : ∀ page, request = .reserve page → page.space ≠ space)
    (hspace : page.space = space) :
    g slot = some (page, s) ↔ f slot = some (page, s) ∧ ¬ request.Ends slot page := by
  -- whose page is not orphaned is of another address space
  have apart : ∀ {x q t}, f x = some (q, t) → t ≠ .orphaned →
      q ≠ page ∧ ∀ s, f x ≠ some (page, s) := by
    intro x q t hq ht
    have hne : q ≠ page := fun he => ht (hf x q t (he ▸ hspace) hq)
    refine ⟨hne, fun s hs => ?_⟩
    cases hq.symm.trans hs
    exact hne rfl
  cases h with
  | @reserve x q hx hfree hbelow =>
      have hq : q ≠ page := fun he => hrequest q rfl (he ▸ hspace)
      exact eq_some_of_taken hq (fun s hs => nomatch hfree.symm.trans hs) nofun
  | full q hfull => exact eq_some_of_same nofun
  | hold hidle =>
      obtain ⟨hq, hbefore⟩ := apart hidle nofun
      exact eq_some_of_taken hq hbefore nofun
  | holdRefused hidle => exact eq_some_of_same nofun
  | settle hs hne =>
      obtain ⟨hq, hbefore⟩ := apart hs hne
      exact eq_some_of_taken hq hbefore fun | .settle => hq rfl
  | @settleOrphaned x q hs =>
      refine eq_some_of_freed (fun t ht => ?_) fun | .settle => rfl
      cases hs.symm.trans ht
      exact .settle
  | settleOther hs => exact eq_some_of_same fun | .settle => hs s
  | @release x hx => exact eq_some_of_freed (fun _ _ => .release) fun | .release => rfl
  | @releaseOutside x hx =>
      refine eq_some_of_same fun | .release => ?_
      rw [hpast slot hx]
      exact nofun
  | @releaseOwned x q t hs =>
      refine eq_some_of_freed (fun t ht => ?_) fun | .releaseIfOwned => rfl
      cases hs.symm.trans ht
      exact .releaseIfOwned
  | releaseOther hs => exact eq_some_of_same fun | .releaseIfOwned => hs s
  | releaseSpace other =>
      have hkeeps : swept other (f slot) = some (page, s) ↔ f slot = some (page, s) := by
        refine ⟨fun h => ?_, fun h => ?_⟩
        · rcases swept_eq_some h with ⟨-, he⟩ | ⟨-, rfl, t, -, he⟩
          · exact he
          · rw [he, hf slot page t hspace he]
        · rw [h, hf slot page s hspace h]
          by_cases he : page.space = other
          · exact swept_busy he nofun
          · exact swept_other he
      exact hkeeps.trans (eq_some_of_same nofun)

theorem Coherent.state?_past (hm : m.Coherent) (h : m.capacity ≤ x) : m.state? x = none :=
  hm.free_iff.mp (hm.past h).1

/-! ## Sequences of requests -/

/-- **What an address space has in use after a sweep** is what it had then and no request ended, as
long as it reserves nothing. -/
theorem Coherent.run_eq_some_iff (hm : m.Coherent) (hf : OrphansOnly space m.state?)
    (hlater : ∀ page, .reserve page ∈ later → page.space ≠ space)
    (h : m.run later = .ok (answers, m')) (hspace : page.space = space) :
    m'.state? slot = some (page, s) ↔
      m.state? slot = some (page, s) ∧ ∀ request ∈ later, ¬ request.Ends slot page := by
  induction later generalizing m answers with
  | nil =>
      cases h
      exact ⟨fun hs => ⟨hs, nofun⟩, And.left⟩
  | cons request rest ih =>
      obtain ⟨⟨answer, m₁⟩, h₁, h⟩ := Fault.bind_eq_ok.mp h
      obtain ⟨⟨answers', m₂⟩, h₂, h⟩ := Fault.bind_eq_ok.mp h
      cases h
      have hstep : ∀ {slot page s}, page.space = space →
          (m₁.state? slot = some (page, s) ↔
            m.state? slot = some (page, s) ∧ ¬ request.Ends slot page) := fun hspace =>
        (hm.acts h₁).eq_some_iff (fun _ hx => hm.state?_past hx) hf
          (fun page he => hlater page (he ▸ List.mem_cons_self)) hspace
      have hf₁ : OrphansOnly space m₁.state? := fun x page s hspace hs =>
        hf x page s hspace ((hstep hspace).mp hs).1
      have hrest := ih (hm.perform h₁) hf₁
        (fun page hmem => hlater page (List.mem_cons_of_mem _ hmem)) h₂
      rw [hrest, hstep hspace, List.forall_mem_cons, and_assoc]

/-! ## What an orphan answers -/

/-- The page's slot waits for its transfer to end: nobody is given it or can take it up, and the page's
own end of the transfer frees it and nothing else. -/
structure Orphan (m : SlotMap) (slot : Nat) (page : Page) : Prop where
  used : m.isUsed slot = .ok true
  busy : m.isBusy slot = .ok true
  orphaned : m.orphaned.bit slot = true
  hold : ∀ p, m.hold slot p = .ok (false, m)
  reserve : ∀ p m', m.reserve p ≠ .ok (.ok slot, m')
  settle : ∃ m', m.settle slot page = .ok (false, m') ∧ m.Sets slot none m'
  releaseIfOwned : ∃ m', m.releaseIfOwned slot page = .ok (true, m') ∧ m.Sets slot none m'

theorem Coherent.orphan (hm : m.Coherent) (h : m.state? slot = some (page, .orphaned)) :
    m.Orphan slot page := by
  have howner := owner_of_state? h
  have hbusy : m.busy.bit slot = true := (busy_bit_iff hm.toSound h).mpr nofun
  refine ⟨isUsed_of_owner hm.toSound howner, ?_, (orphaned_bit_iff h).mpr rfl,
    fun p => ?_, fun p m' hr => ?_, ?_, ?_⟩
  · rw [hm.inStep.isBusy, hbusy]
  · obtain ⟨b, m', hh⟩ := hm.hold_total slot p
    cases b with
    | true => exact nomatch h.symm.trans (hold_true hm.toSound hh).1
    | false => rw [hh, hold_false hh]
  · exact nomatch h.symm.trans (reserve_ok hm.toSound hr).1
  · obtain ⟨b, m', hs⟩ := hm.settle_total slot page
    rcases settle_ok hm.toSound hs with ⟨hne, -⟩ | ⟨-, rfl, hset⟩ | ⟨⟨t, ht, hne⟩, -⟩
    · exact absurd howner hne
    · exact ⟨m', hs, hset⟩
    · cases h.symm.trans ht
      exact absurd rfl hne
  · obtain ⟨b, m', hr⟩ := hm.releaseIfOwned_total slot page
    rcases releaseIfOwned_ok hm.toSound hr with ⟨hne, -⟩ | ⟨-, rfl, hset⟩
    · exact absurd howner hne
    · exact ⟨m', hr, hset⟩

/-! ## What a sweep leaves -/

/-- `m'` is `m` after a sweep of the address space that answers `n`. -/
structure SweptOnce (m : SlotMap) (space n : Nat) (m' : SlotMap) : Prop where
  /-- The answer is how many slots were cleared. -/
  count : n = (List.range m.capacity).countP fun x => m.used.bit x && !m'.used.bit x
  /-- Cleared are the idle slots of the address space. -/
  cleared : ∀ x, m.used.bit x = true ∧ m'.used.bit x = false ↔
    ∃ page, m.owner x = some page ∧ page.space = space ∧ m.busy.bit x = false
  /-- Its busy slots stay its pages'. -/
  kept : ∀ x page, page.space = space →
    (m'.owner x = some page ↔ m.owner x = some page ∧ m.busy.bit x = true)
  /-- The slots of other address spaces stay as they are. -/
  others : ∀ x page, m.owner x = some page → page.space ≠ space →
    m'.owner x = some page ∧ m'.busy.bit x = m.busy.bit x ∧ m'.orphaned.bit x = m.orphaned.bit x
  free : ∀ x, m.owner x = none → m'.owner x = none

/-- The bits of a slot whose state is known in two maps are the same in both. -/
theorem Sound.bits_same (hm : m.Sound) (hm' : m'.Sound) (h : m.state? x = some (page, s))
    (h' : m'.state? x = some (page, s)) :
    m'.busy.bit x = m.busy.bit x ∧ m'.orphaned.bit x = m.orphaned.bit x :=
  ⟨Bool.eq_iff_iff.mpr ((busy_bit_iff hm' h').trans (busy_bit_iff hm h).symm),
    Bool.eq_iff_iff.mpr ((orphaned_bit_iff h').trans (orphaned_bit_iff h).symm)⟩

/-- What rests in a slot for the address space, read off the bits. -/
theorem Sound.restsIn_iff (hm : m.Sound) : restsIn space (m.state? x) = true ↔
    ∃ page, m.owner x = some page ∧ page.space = space ∧ m.busy.bit x = false := by
  cases hs : m.state? x with
  | none =>
      rw [state?_eq_none.mp hs]
      exact ⟨nofun, nofun⟩
  | some entry =>
      obtain ⟨page, s⟩ := entry
      rw [owner_of_state? hs, ← Bool.not_eq_true, busy_bit_iff hm hs, Decidable.not_not]
      cases s with
      | idle => simp [restsIn]
      | busy => simp [restsIn]
      | orphaned => simp [restsIn]

/-- A used slot is cleared if what it holds is at rest. -/
theorem swept_eq_none_iff :
    swept space (some (page, s)) = none ↔ restsIn space (some (page, s)) = true := by
  by_cases hs : s = .idle
  · subst hs
    by_cases hspace : page.space = space
    · exact ⟨fun _ => beq_iff_eq.mpr hspace, fun _ => swept_idle hspace⟩
    · rw [swept_other hspace]
      exact ⟨nofun, fun h => absurd (beq_iff_eq.mp h) hspace⟩
  · have hused : swept space (some (page, s)) ≠ none := by
      by_cases hspace : page.space = space
      · rw [swept_busy hspace hs]
        exact nofun
      · rw [swept_other hspace]
        exact nofun
    rw [restsIn_of_busy hs]
    exact ⟨fun h => absurd h hused, nofun⟩

/-- The slots that a sweep clears. -/
theorem Coherent.cleared_iff (hm : m.Coherent) (h : m.releaseSpace space = .ok (n, m')) (x : Nat) :
    m.used.bit x = true ∧ m'.used.bit x = false ↔ restsIn space (m.state? x) = true := by
  obtain ⟨hm', -, hstate⟩ := releaseSpace_ok hm.toSound h
  rw [hm.used_iff, hm'.free_iff, hstate]
  cases hs : m.state? x with
  | none => exact ⟨fun h => absurd rfl h.1, nofun⟩
  | some entry => exact ⟨fun h => swept_eq_none_iff.mp h.2, fun h => ⟨nofun, swept_eq_none_iff.mpr h⟩⟩

theorem Coherent.sweptOnce (hm : m.Coherent) (h : m.releaseSpace space = .ok (n, m')) :
    m.SweptOnce space n m' := by
  obtain ⟨hm', -, hstate⟩ := releaseSpace_ok hm.toSound h
  refine ⟨?_, fun x => (hm.cleared_iff h x).trans hm.restsIn_iff, fun x page hspace => ?_,
    fun x page howner hspace => ?_, fun x howner => ?_⟩
  · rw [(hm.releaseSpace h).2]
    refine List.countP_congr fun x _ => ?_
    rw [← hm.cleared_iff h x, Bool.and_eq_true, Bool.not_eq_true']
  · constructor
    · intro howner
      obtain ⟨s, hs⟩ := state?_of_owner howner
      rw [hstate] at hs
      rcases swept_eq_some hs with ⟨hother, -⟩ | ⟨-, -, t, hne, ht⟩
      · exact absurd hspace hother
      · exact ⟨owner_of_state? ht, (busy_bit_iff hm.toSound ht).mpr hne⟩
    · rintro ⟨howner, hbusy⟩
      obtain ⟨t, ht⟩ := state?_of_owner howner
      have hs := hstate x
      rw [ht, swept_busy hspace ((busy_bit_iff hm.toSound ht).mp hbusy)] at hs
      exact owner_of_state? hs
  · obtain ⟨s, hs⟩ := state?_of_owner howner
    have hs' := hstate x
    rw [hs, swept_other hspace] at hs'
    exact ⟨owner_of_state? hs', hm.bits_same hm' hs hs'⟩
  · have hs := hstate x
    rw [state?_eq_none.mpr howner] at hs
    exact state?_eq_none.mp hs

/-- A sweep of an address space that only has orphans clears nothing. -/
theorem Coherent.releaseSpace_of_orphans (hm : m.Coherent) (hf : OrphansOnly space m.state?) :
    m.releaseSpace space = .ok (0, m) := by
  obtain ⟨n, m', h⟩ := hm.releaseSpace_total space
  obtain ⟨hm', rfl⟩ := hm.releaseSpace h
  obtain ⟨-, -, hstate⟩ := releaseSpace_ok hm.toSound h
  have hsame : ∀ x, swept space (m.state? x) = m.state? x ∧
      restsIn space (m.state? x) = false := by
    intro x
    cases hs : m.state? x with
    | none => exact ⟨rfl, rfl⟩
    | some entry =>
        obtain ⟨page, s⟩ := entry
        by_cases hspace : page.space = space
        · obtain rfl := hf x page s hspace hs
          exact ⟨swept_busy hspace nofun, rfl⟩
        · rw [swept_other hspace]
          refine ⟨rfl, Bool.eq_false_iff.mpr fun hrests => ?_⟩
          rw [← swept_eq_none_iff, swept_other hspace] at hrests
          exact nomatch hrests
  obtain rfl := hm.ext hm' (releaseSpace_shape h) fun x => (hstate x).trans (hsame x).1
  rw [h, List.countP_eq_zero.mpr fun x _ => Bool.eq_false_iff.mp (hsame x).2]

/-! ## The result -/

/-- **Orphaned slots end with their transfer.** A sweep of `space` in any state clears its idle slots,
answers how many, and leaves the slots of other address spaces alone. From then on, as long as no page
of `space` reserves a slot, what `space` has in use is what was busy then and no request has ended
since. Each such slot is an orphan, and another sweep clears none of them. -/
theorem orphans_end_with_their_transfer (hn : n < Word.span Word.bits) (past : List Request)
    (space : Nat) (later : List Request)
    (hlater : ∀ page, .reserve page ∈ later → page.space ≠ space) :
    ∃ answers m k m₁ answers' m₂, (empty n).run past = .ok (answers, m) ∧
      m.releaseSpace space = .ok (k, m₁) ∧ m.SweptOnce space k m₁ ∧
      m₁.run later = .ok (answers', m₂) ∧
      (∀ slot page, page.space = space → m₂.owner slot = some page → m₂.Orphan slot page) ∧
      (∀ slot page, page.space = space → (m₂.owner slot = some page ↔
        m.owner slot = some page ∧ m.busy.bit slot = true ∧
          ∀ request ∈ later, ¬ request.Ends slot page)) ∧
      m₂.releaseSpace space = .ok (0, m₂) := by
  obtain ⟨answers, m, hpast, hm, -⟩ := (empty_coherent hn).run_total past
  obtain ⟨k, m₁, hsweep⟩ := hm.releaseSpace_total space
  have hm₁ := (hm.releaseSpace hsweep).1
  obtain ⟨answers', m₂, hrun, hm₂, -⟩ := hm₁.run_total later
  have hswept := hm.sweptOnce hsweep
  have horphans : OrphansOnly space m₁.state? := by
    rw [funext (releaseSpace_ok hm.toSound hsweep).2.2]
    exact orphansOnly_swept space m.state?
  have hstate : ∀ {slot page s}, page.space = space → (m₂.state? slot = some (page, s) ↔
      m₁.state? slot = some (page, s) ∧ ∀ request ∈ later, ¬ request.Ends slot page) :=
    fun hspace => hm₁.run_eq_some_iff horphans hlater hrun hspace
  have horphans₂ : OrphansOnly space m₂.state? := fun x page s hspace hs =>
    horphans x page s hspace ((hstate hspace).mp hs).1
  refine ⟨answers, m, k, m₁, answers', m₂, hpast, hsweep, hswept, hrun,
    fun slot page hspace howner => ?_, fun slot page hspace => ?_, ?_⟩
  · obtain ⟨s, hs⟩ := state?_of_owner howner
    obtain rfl := horphans₂ slot page s hspace hs
    exact hm₂.orphan hs
  · rw [← and_assoc, ← hswept.kept slot page hspace]
    constructor
    · intro howner
      obtain ⟨s, hs⟩ := state?_of_owner howner
      obtain ⟨hs₁, hends⟩ := (hstate hspace).mp hs
      exact ⟨owner_of_state? hs₁, hends⟩
    · rintro ⟨howner, hends⟩
      obtain ⟨s, hs⟩ := state?_of_owner howner
      exact owner_of_state? ((hstate hspace).mpr ⟨hs, hends⟩)
  · exact hm₂.releaseSpace_of_orphans horphans₂

/-- Of address space 1 a page is at rest and two are on their way when it is swept. The free slot goes
to another address space, and of the orphans one is ended. -/
theorem orphans_end_with_their_transfer_of_two :
    ∃ answers m m₁ m₂, (empty 4).run [.reserve ⟨1, 0⟩, .reserve ⟨1, 1⟩, .settle 1 ⟨1, 1⟩,
        .reserve ⟨1, 2⟩, .reserve ⟨2, 0⟩] = .ok (answers, m) ∧
      m.releaseSpace 1 = .ok (1, m₁) ∧
      m₁.run [.reserve ⟨2, 7⟩, .hold 0 ⟨1, 0⟩, .releaseSpace 1, .settle 2 ⟨1, 2⟩] =
        .ok ([.reserved (.ok 1), .held false, .swept 0, .settled false], m₂) ∧
      m₂.Orphan 0 ⟨1, 0⟩ ∧ m₂.owner 2 ≠ some ⟨1, 2⟩ ∧ m₂.releaseSpace 1 = .ok (0, m₂) := by
  let past : List Request := [.reserve ⟨1, 0⟩, .reserve ⟨1, 1⟩, .settle 1 ⟨1, 1⟩, .reserve ⟨1, 2⟩,
    .reserve ⟨2, 0⟩]
  let later : List Request := [.reserve ⟨2, 7⟩, .hold 0 ⟨1, 0⟩, .releaseSpace 1, .settle 2 ⟨1, 2⟩]
  obtain ⟨answers, m, k, m₁, answers', m₂, hpast, hsweep, -, hrun, horphan, howner, hagain⟩ :=
    orphans_end_with_their_transfer (n := 4) (by decide) past 1 later (by simp [later])
  have hseen : ((empty 4).run past >>= fun r => r.2.releaseSpace 1 >>= fun s =>
      s.2.run later >>= fun u => pure (s.1, u.1, u.2.owner 0)).toOption =
      some (1, [.reserved (.ok 1), .held false, .swept 0, .settled false], some ⟨1, 0⟩) := by
    decide +kernel
  simp only [hpast, hsweep, hrun, bind, Except.bind] at hseen
  obtain ⟨rfl, rest⟩ := Prod.mk.inj (Option.some.inj hseen)
  obtain ⟨rfl, hown⟩ := Prod.mk.inj rest
  exact ⟨answers, m, m₁, m₂, hpast, hsweep, hrun, horphan 0 ⟨1, 0⟩ rfl hown,
    fun h => ((howner 2 ⟨1, 2⟩ rfl).mp h).2.2 _ (by simp [later]) .settle, hagain⟩

end PhysMem.SlotMap
