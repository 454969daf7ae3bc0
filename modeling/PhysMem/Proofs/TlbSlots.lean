import PhysMem.Memory.Task
import PhysMem.Proofs.GivingUp
import PhysMem.Proofs.Ownership

/-!
# TLB slots — remembered for as long as a frame has its owner

A descriptor remembers the TLB slot that last mapped its frame. Whoever gets the frame next must
not find it there. Frames come back along many ways, and on some of them they are in transit for a
while before they are free; whatever the way, what is remembered can be told from the events alone.

* **`lastTag`** reads it off the events: what was recorded last, as long as the frame was not
  claimed again since.
* **`Retags`** says that a frame keeps what is remembered, or changes hands and has nothing. It
  holds of every operation on frames, with one parameter for whether frames are claimed or freed.
* **`Exact.perform_remembers`** is the step, **`Reaches.tlbSlot`** the induction over the requests.
* **`tlb_slots_end_with_their_owner`** — the result.
-/

namespace PhysMem

namespace Coremap

variable {m m' m'' m₀ : Coremap} {i x : Nat} {d : Descriptor} {now : Bool} {request : Request}
  {answer : Answer} {event : Event} {past : List Event}

/-! ## What is remembered, by the events -/

/-- The event claims frame `i`. -/
def Event.claimsFrame (event : Event) (i : Nat) : Bool :=
  event.claims?.any fun run => run.first ≤ i && i < run.first + run.count

/-- The TLB slot that an event records for frame `i`, or that it is forgotten. -/
def Event.records? (event : Event) (i : Nat) : Option (Option Nat) :=
  match event with
  | ⟨.setTlbSlot j slot, .tagged (.ok ())⟩ => if j = i then some slot else none
  | _ => none

/-- The TLB slot recorded last for frame `i` since it was claimed last. The newest event comes
first. -/
def lastTag (i : Nat) : List Event → Option Nat
  | [] => none
  | event :: past =>
    if event.claimsFrame i then none else (event.records? i).getD (lastTag i past)

/-! ## Operations on frames -/

/-- Every frame keeps its TLB slot, and stays as free or as allocated as it was. -/
def KeepsTags (m m' : Coremap) : Prop :=
  ∀ (x : Nat) d', m'.frames[x]? = some d' →
    ∃ d, m.frames[x]? = some d ∧ d'.tlbSlot = d.tlbSlot ∧ d'.allocated = d.allocated

/-- A frame keeps its TLB slot as long as it is as free or as allocated as it was. Otherwise it has
none, and it is allocated, which it was not before, or else it is free: `now` says which. -/
def Retags (now : Bool) (m m' : Coremap) : Prop :=
  ∀ (x : Nat) d', m'.frames[x]? = some d' → ∃ d, m.frames[x]? = some d ∧
    (d'.tlbSlot = d.tlbSlot ∧ d'.allocated = d.allocated ∨
      d'.tlbSlot = none ∧ d'.allocated = now ∧ (now = true → d.allocated = false))

theorem KeepsTags.refl (m : Coremap) : m.KeepsTags m := fun _ d hd => ⟨d, hd, rfl, rfl⟩

/-- Nothing changes but links, counters and the placement. -/
theorem KeepsTags.of_unlinked (h : m'.unlinked = m.unlinked) : m.KeepsTags m' := by
  intro x d' hd'
  have hx := alone?_of_unlinked h x
  rw [alone?_of_getElem? hd'] at hx
  obtain ⟨d, hd, he⟩ := Option.map_eq_some_iff.mp hx.symm
  exact ⟨d, hd, (congrArg Descriptor.tlbSlot he : (alone d).tlbSlot = _).symm,
    (congrArg Descriptor.allocated he : (alone d).allocated = _).symm⟩

theorem KeepsTags.of_frames (h : m'.frames = m.frames) : m.KeepsTags m' := by
  intro x d' hd'
  rw [h] at hd'
  exact ⟨d', hd', rfl, rfl⟩

/-- One descriptor is replaced, and the fields that are read here stay. -/
theorem put_keepsTags {e : Descriptor} (hd : m.frame i = .ok d) (htag : e.tlbSlot = d.tlbSlot)
    (halloc : e.allocated = d.allocated) : m.KeepsTags (m.put i e) := by
  intro x d' hd'
  unfold put at hd'
  by_cases hx : x = i
  · subst hx
    rw [Array.getElem?_setIfInBounds_self_of_lt (lt_size_of_frame hd)] at hd'
    cases hd'
    exact ⟨d, frame_ok hd, htag, halloc⟩
  · rw [Array.getElem?_setIfInBounds_ne (Ne.symm hx)] at hd'
    exact ⟨d', hd', rfl, rfl⟩

theorem KeepsTags.retags (h : m.KeepsTags m') : m.Retags now m' := fun x d' hd' =>
  (h x d' hd').imp fun _ hkept => ⟨hkept.1, Or.inl hkept.2⟩

theorem Retags.of_frames (h : m'.frames = m.frames) : m.Retags now m' :=
  (KeepsTags.of_frames h).retags

theorem Retags.of_unlinked (h : m'.unlinked = m.unlinked) : m.Retags now m' :=
  (KeepsTags.of_unlinked h).retags

theorem Retags.trans (h : m.Retags now m') (h' : m'.Retags now m'') : m.Retags now m'' := by
  intro x d'' hd''
  obtain ⟨d', hd', hcase'⟩ := h' x d'' hd''
  obtain ⟨d, hd, hcase⟩ := h x d' hd'
  refine ⟨d, hd, ?_⟩
  rcases hcase' with ⟨htag', halloc'⟩ | ⟨hnone', hnow', hbefore'⟩
  · rw [htag', halloc']
    exact hcase
  · refine Or.inr ⟨hnone', hnow', fun hclaimed => ?_⟩
    rcases hcase with ⟨-, halloc⟩ | ⟨-, -, hbefore⟩
    · rw [← halloc]
      exact hbefore' hclaimed
    · exact hbefore hclaimed

theorem put_same_retags {e : Descriptor} (hd : m.frame i = .ok d) (htag : e.tlbSlot = d.tlbSlot)
    (halloc : e.allocated = d.allocated) : m.Retags now (m.put i e) :=
  (put_keepsTags hd htag halloc).retags

/-- One frame is freed or claimed. -/
theorem put_retags {e : Descriptor} (hd : m.frame i = .ok d) (htag : e.tlbSlot = none)
    (halloc : e.allocated = now) (hbefore : now = true → d.allocated = false) :
    m.Retags now (m.put i e) := by
  intro x d' hd'
  unfold put at hd'
  by_cases hx : x = i
  · subst hx
    rw [Array.getElem?_setIfInBounds_self_of_lt (lt_size_of_frame hd)] at hd'
    cases hd'
    exact ⟨d, frame_ok hd, Or.inr ⟨htag, halloc, hbefore⟩⟩
  · rw [Array.getElem?_setIfInBounds_ne (Ne.symm hx)] at hd'
    exact ⟨d', hd', Or.inl ⟨rfl, rfl⟩⟩

theorem clearUser_retags (h : m.clearUser i = .ok m') : m.Retags false m' := by
  obtain ⟨d, count, hd, -, -, rfl⟩ := clearUser_eq_ok h
  have hput : m.Retags false (m.put i .free) := put_retags hd rfl rfl nofun
  exact hput.trans (.of_frames rfl)

theorem unpin_retags {onChain : Bool} (h : m.unpin i = .ok (onChain, m')) :
    m.Retags false m' := by
  have unpinned : ∀ {d : Descriptor}, m.frame i = .ok d →
      m.Retags false (m.put i { d with pinned := false }) := fun hd => put_same_retags hd rfl rfl
  cases unpin_cases h with
  | freed hd _ _ hclear => exact (unpinned hd).trans (clearUser_retags hclear)
  | linked hd _ _ hpush => exact (unpinned hd).trans (.of_unlinked (pushNewest_unlinked hpush))

theorem discardPinned_retags (h : m.discardPinned i = .ok m') : m.Retags false m' := by
  obtain ⟨d, -, -, hclear⟩ := discardPinned_eq_ok h
  exact clearUser_retags hclear

theorem detachOldest_retags {victim : Option (Nat × Page)}
    (h : m.detachOldest = .ok (victim, m')) : m.Retags false m' := by
  cases detachOldest_cases h with
  | none => exact .of_frames rfl
  | @detached i _ _ m₁ d _ hunlink hd =>
      have hput : m₁.Retags false (m₁.put i { d with evicting := true }) :=
        put_same_retags hd rfl rfl
      exact (Retags.of_unlinked (unlink_unlinked hunlink)).trans (hput.trans (.of_frames rfl))

theorem abortEviction_retags {onChain : Bool} (h : m.abortEviction i = .ok (onChain, m')) :
    m.Retags false m' := by
  have unmarked : ∀ {d : Descriptor} {evictingCount : Nat}, m.frame i = .ok d →
      m.Retags false { m.put i { d with evicting := false } with evictingCount } := by
    intro d evictingCount hd
    have hput : m.Retags false (m.put i { d with evicting := false }) :=
      put_same_retags hd rfl rfl
    exact hput.trans (.of_frames rfl)
  cases abortEviction_cases h with
  | freed hd _ _ _ hclear => exact (unmarked hd).trans (clearUser_retags hclear)
  | linked hd _ _ _ hpush => exact (unmarked hd).trans (.of_unlinked (pushOldest_unlinked hpush))

theorem finishEviction_retags {orphaned : Bool} (h : m.finishEviction i = .ok (orphaned, m')) :
    m.Retags false m' := by
  obtain ⟨d, evictingCount, -, -, -, -, hclear⟩ := finishEviction_eq_ok h
  have hless : m.Retags false { m with evictingCount } := .of_frames rfl
  exact hless.trans (clearUser_retags hclear)

theorem putFree_retags (n : Nat) (hn : i + n ≤ m.size) :
    m.Retags false ((List.range' i n).foldl (fun m j => m.put j .free) m) := by
  induction n generalizing m i with
  | zero => exact .of_frames rfl
  | succ n ih =>
      rw [List.range'_succ]
      have hlt : i < m.frames.size := Nat.lt_of_lt_of_le (by omega) hn
      have hd : m.frame i = .ok m.frames[i] := by
        unfold frame
        rw [Array.getElem?_eq_getElem hlt]
      have hput : m.Retags false (m.put i .free) := put_retags hd rfl rfl nofun
      refine hput.trans (ih ?_)
      have : (m.put i .free).size = m.size := Array.size_setIfInBounds
      omega

theorem release_retags {result : Except FrameError Release}
    (h : m.release i = .ok (result, m')) : m.Retags false m' := by
  cases release_cases h with
  | refused => exact .of_frames rfl
  | deferred hd => exact put_same_retags hd rfl rfl
  | user _ _ _ _ _ _ hunlink hclear =>
      exact (Retags.of_unlinked (unlink_unlinked hunlink)).trans (clearUser_retags hclear)
  | kernel _ _ _ _ _ _ hfree =>
      obtain ⟨-, hroom, _, kernelCount, rfl, -, rfl⟩ := freeRun_eq_ok hfree
      exact (putFree_retags _ hroom).trans (.of_frames rfl)

theorem releaseSpace_retags {space n : Nat} (h : m.releaseSpace space = .ok (n, m')) :
    m.Retags false m' := by
  refine Sweep.foldlM_range (P := fun _ (t : Nat × Coremap) => m.Retags false t.2)
    (.of_frames rfl) (fun k t t' _ ht hone => ?_) h
  obtain ⟨⟨isFree, u⟩, hu, he⟩ := Fault.bind_eq_ok.mp hone
  cases he
  refine ht.trans ?_
  cases releaseOne_cases hu with
  | other => exact .of_frames rfl
  | deferred hd => exact put_same_retags hd rfl rfl
  | freed _ _ _ hunlink hclear =>
      exact (Retags.of_unlinked (unlink_unlinked hunlink)).trans (clearUser_retags hclear)

theorem markRun_retags {owner : FrameOwner} {pinned : Bool} {last n : Nat}
    (h : m.markRun owner pinned last i n = .ok m') : m.Retags true m' := by
  induction n generalizing m i with
  | zero =>
      cases h
      exact .of_frames rfl
  | succ n ih =>
      obtain ⟨d, hd, hfree, h⟩ := markRun_succ h
      have hput : m.Retags true (m.put i (.claimed owner (i != last) pinned)) :=
        put_retags hd rfl rfl fun _ => hfree
      exact hput.trans (ih h)

theorem claimRun_retags {owner : FrameOwner} {count : Nat} {pinned : Bool} {first : Option Nat}
    (h : m.claimRun owner count pinned = .ok (first, m')) : m.Retags true m' := by
  have searched : ∀ {placement : Placement}, m.Retags true { m with placement } := .of_frames rfl
  cases claimRun_cases h with
  | none => exact searched
  | kernel _ _ hmark => exact searched.trans ((markRun_retags hmark).trans (.of_frames rfl))
  | user _ _ hmark => exact searched.trans ((markRun_retags hmark).trans (.of_frames rfl))

theorem claim_retags {owner : FrameOwner} {count : Nat} {first : Option Nat}
    (h : m.claim owner count = .ok (first, m')) : m.Retags true m' := by
  cases claim_cases h with
  | none hrun | kernel hrun => exact claimRun_retags hrun
  | user hrun hpush =>
      exact (claimRun_retags hrun).trans (.of_unlinked (pushNewest_unlinked hpush))

/-! ## Claims -/

/-- What is claimed by a claim that is met. -/
theorem claimsFrame_iff {n first : Nat} (hallows : m.Allows past request)
    (hwants : request.wants? = some n) :
    Event.claimsFrame ⟨request, .claimed (some first)⟩ x = true ↔ first ≤ x ∧ x < first + n := by
  have covers : ∀ run : FrameRun, run.first = first → run.count = n →
      ((some run).any (fun run => run.first ≤ x && x < run.first + run.count) = true ↔
        first ≤ x ∧ x < first + n) := by
    rintro run rfl rfl
    rw [Option.any_some, Bool.and_eq_true, decide_eq_true_eq, decide_eq_true_eq]
  cases request with
  | claim owner count =>
      cases hwants
      cases owner with
      | kernel => exact covers (.kernel first n) rfl rfl
      | user page => exact covers (.user first page .settled) rfl (Eq.symm hallows)
  | claimPinned page =>
      cases hwants
      exact covers (.user first page .inTransit) rfl rfl
  | _ => exact nomatch hwants

theorem claimsFrame_none (request : Request) (i : Nat) :
    Event.claimsFrame ⟨request, .claimed none⟩ i = false := by
  cases request with
  | claim owner count => cases owner <;> rfl
  | _ => rfl

/-- A claim takes free frames, as many as were asked for, or none at all. -/
theorem Sound.perform_claims {n : Nat} (hm : m.Sound) (hwants : request.wants? = some n)
    (h : m.perform request = .ok (answer, m')) : m.Retags true m' ∧
      (answer = .claimed none ∧ m.Alike m' ∨
        ∃ first owner pinned, answer = .claimed (some first) ∧
          m.Claims owner pinned first (first + n) m') := by
  cases perform_cases h with
  | claim owner count first h₁ =>
      cases hwants
      refine ⟨claim_retags h₁, ?_⟩
      rcases claim_ok h₁ with ⟨rfl, halike⟩ | ⟨start, stop, rfl, hclaims, hstop⟩
      · exact Or.inl ⟨rfl, halike⟩
      · exact Or.inr ⟨start, owner, false, rfl, hstop hm.policy ▸ hclaims⟩
  | claimPinned page first h₁ =>
      cases hwants
      refine ⟨claimRun_retags h₁, ?_⟩
      rcases claimRun_ok h₁ with ⟨rfl, halike⟩ | ⟨start, stop, rfl, hclaims, hstop⟩
      · exact Or.inl ⟨rfl, halike⟩
      · exact Or.inr ⟨start, .user page, true, rfl, hstop hm.policy ▸ hclaims⟩
  | _ => exact nomatch hwants

theorem Alike.allocated_same {d' : Descriptor} (h : m.Alike m') (hd : m.frames[i]? = some d)
    (hd' : m'.frames[i]? = some d') : d'.allocated = d.allocated := by
  have huse := h.use i
  rw [use?_of_getElem? hd, use?_of_getElem? hd'] at huse
  exact (congrArg Descriptor.allocated (Option.some.inj huse) : d'.use.allocated = d.use.allocated)

/-- Claimed frames are those that were free and are allocated. -/
theorem Claims.claimed_iff {owner : FrameOwner} {pinned : Bool} {start stop : Nat}
    {d' : Descriptor} (h : m.Claims owner pinned start stop m') (hd : m.frames[i]? = some d)
    (hd' : m'.frames[i]? = some d') :
    (start ≤ i ∧ i < stop ↔ d.allocated = false ∧ d'.allocated = true) := by
  have huse := h.use i
  rw [use?_of_getElem? hd'] at huse
  by_cases hin : start ≤ i ∧ i < stop
  · rw [if_pos hin] at huse
    obtain ⟨u, hu, hfree⟩ := h.free i hin.1 hin.2
    rw [use?_of_getElem? hd] at hu
    refine ⟨fun _ => ⟨?_, congrArg Descriptor.allocated (Option.some.inj huse)⟩, fun _ => hin⟩
    rw [← Option.some.inj hu] at hfree
    exact hfree
  · rw [if_neg hin, use?_of_getElem? hd] at huse
    have hsame : d'.use.allocated = d.use.allocated :=
      congrArg Descriptor.allocated (Option.some.inj huse)
    have hsame : d'.allocated = d.allocated := hsame
    refine ⟨fun h => absurd h hin, fun h => ?_⟩
    rw [hsame, h.1] at h
    exact nomatch h.2

/-! ## One request -/

/-- What becomes of the TLB slot of frame `i`: it is the one that the event records, or else the one
that was remembered, and nothing if the frame is free or was claimed by the event. The frames that an
event claims are those that were free and are allocated. -/
structure Remembers (event : Event) (i : Nat) (d d' : Descriptor) : Prop where
  tlbSlot : d'.tlbSlot = if d'.allocated && !event.claimsFrame i
    then (event.records? i).getD d.tlbSlot else none
  claimed : event.claimsFrame i = true ↔ d.allocated = false ∧ d'.allocated = true

/-- An operation that records nothing. -/
theorem Exact.remembers {d' : Descriptor} (hm : m.Exact) (h : m.Retags now m')
    (hrecords : event.records? i = none)
    (hclaimed : ∀ d, m.frames[i]? = some d →
      (event.claimsFrame i = true ↔ d.allocated = false ∧ d'.allocated = true))
    (hd' : m'.frames[i]? = some d') :
    ∃ d, m.frames[i]? = some d ∧ Remembers event i d d' := by
  obtain ⟨d, hd, hcase⟩ := h i d' hd'
  refine ⟨d, hd, ?_, hclaimed d hd⟩
  rw [hrecords, Option.getD_none]
  have hiff := hclaimed d hd
  rcases hcase with ⟨htag, halloc⟩ | ⟨hnone, hnow, hbefore⟩
  · have hno : event.claimsFrame i = false := by
      refine Bool.eq_false_iff.mpr fun hclaims => ?_
      obtain ⟨hfree, hnow⟩ := hiff.mp hclaims
      rw [halloc, hfree] at hnow
      exact nomatch hnow
    rw [hno, Bool.not_false, Bool.and_true, htag]
    cases hfree : d'.allocated with
    | true => rfl
    | false => exact hm.untagged i d hd (halloc.symm.trans hfree)
  · rw [hnone]
    split
    · next hcond =>
        obtain ⟨halloc, hno⟩ := (Bool.and_eq_true _ _).mp hcond
        have hclaims := hiff.mpr ⟨hbefore (hnow.symm.trans halloc), halloc⟩
        rw [hclaims] at hno
        exact nomatch hno
    · rfl

/-- An operation that claims no frame. -/
theorem Exact.remembers_unclaimed {d' : Descriptor} (hm : m.Exact) (h : m.Retags false m')
    (hrecords : event.records? i = none) (hno : event.claimsFrame i = false)
    (hd' : m'.frames[i]? = some d') :
    ∃ d, m.frames[i]? = some d ∧ Remembers event i d d' := by
  refine hm.remembers h hrecords (fun d hd => ?_) hd'
  rw [hno]
  refine ⟨nofun, fun ⟨hfree, hnow⟩ => ?_⟩
  obtain ⟨d₁, hd₁, ⟨-, halloc⟩ | ⟨-, halloc, -⟩⟩ := h i d' hd'
  · cases hd.symm.trans hd₁
    exact nomatch hfree.symm.trans (halloc.symm.trans hnow)
  · exact nomatch halloc.symm.trans hnow

/-- Recording a TLB slot changes it in one frame, if that is allocated. -/
theorem Exact.setTlbSlot_remembers {slot : Option Nat} {result : Except FrameError Unit}
    {d' : Descriptor} (hm : m.Exact) (h : m.setTlbSlot i slot = .ok (result, m'))
    (hd' : m'.frames[x]? = some d') :
    ∃ d, m.frames[x]? = some d ∧ Remembers ⟨.setTlbSlot i slot, .tagged result⟩ x d d' := by
  cases setTlbSlot_cases h with
  | refused => exact hm.remembers_unclaimed (.of_frames rfl) rfl rfl hd'
  | @set d hd halloc =>
      have hrecords : Event.records? ⟨.setTlbSlot i slot, .tagged (.ok ())⟩ x =
          if i = x then some slot else none := rfl
      unfold put at hd'
      by_cases hx : x = i
      · subst hx
        rw [Array.getElem?_setIfInBounds_self_of_lt (lt_size_of_frame hd)] at hd'
        cases hd'
        refine ⟨d, frame_ok hd, ?_, ⟨nofun, fun h => nomatch halloc.symm.trans h.1⟩⟩
        rw [hrecords, if_pos rfl]
        show slot = if d.allocated && true then slot else none
        rw [halloc]
        rfl
      · rw [Array.getElem?_setIfInBounds_ne (Ne.symm hx)] at hd'
        refine hm.remembers_unclaimed (.of_frames rfl) ?_ rfl hd'
        rw [hrecords, if_neg (Ne.symm hx)]

/-- **One request**: what every frame remembers behind it. -/
theorem Exact.perform_remembers {d' : Descriptor} (hm : m.Exact) (hallows : m.Allows past request)
    (h : m.perform request = .ok (answer, m')) (hd' : m'.frames[i]? = some d') :
    ∃ d, m.frames[i]? = some d ∧ Remembers ⟨request, answer⟩ i d d' := by
  have claims : ∀ {n}, request.wants? = some n →
      Event.records? ⟨request, answer⟩ i = none →
      ∃ d, m.frames[i]? = some d ∧ Remembers ⟨request, answer⟩ i d d' := by
    intro n hwants hrecords
    obtain ⟨hretags, hcase⟩ := hm.toSound.perform_claims hwants h
    refine hm.remembers hretags hrecords (fun d hd => ?_) hd'
    rcases hcase with ⟨rfl, halike⟩ | ⟨first, owner, pinned, rfl, hclaims⟩
    · rw [claimsFrame_none, halike.allocated_same hd hd']
      exact ⟨nofun, fun h => nomatch h.1.symm.trans h.2⟩
    · exact (claimsFrame_iff hallows hwants).trans (hclaims.claimed_iff hd hd')
  cases perform_cases h with
  | claim | claimPinned => exact claims rfl rfl
  | detachOldest victim h => exact hm.remembers_unclaimed (detachOldest_retags h) rfl rfl hd'
  | abortEviction j _ h => exact hm.remembers_unclaimed (abortEviction_retags h) rfl rfl hd'
  | finishEviction j _ h => exact hm.remembers_unclaimed (finishEviction_retags h) rfl rfl hd'
  | unpin j _ h => exact hm.remembers_unclaimed (unpin_retags h) rfl rfl hd'
  | discardPinned j h => exact hm.remembers_unclaimed (discardPinned_retags h) rfl rfl hd'
  | release j _ h => exact hm.remembers_unclaimed (release_retags h) rfl rfl hd'
  | releaseSpace space _ h => exact hm.remembers_unclaimed (releaseSpace_retags h) rfl rfl hd'
  | setTlbSlot j slot _ h => exact hm.setTlbSlot_remembers h hd'

/-! ## Requests that come to nothing -/

/-- The answers of requests that find nothing, are refused or are put off. -/
def Answer.isIdle : Answer → Bool
  | .claimed none | .detached none | .released (.error _) | .released (.ok .deferred)
  | .tagged (.error _) => true
  | _ => false

/-- A request that comes to nothing leaves every frame what it remembers. -/
theorem Exact.perform_idle (hm : m.Exact) (h : m.perform request = .ok (answer, m'))
    (hidle : answer.isIdle = true) : m.KeepsTags m' := by
  have claims : ∀ {n}, request.wants? = some n → m.KeepsTags m' := by
    intro n hwants x d' hd'
    obtain ⟨hretags, ⟨rfl, halike⟩ | ⟨first, owner, pinned, rfl, -⟩⟩ :=
      hm.toSound.perform_claims hwants h
    · obtain ⟨d, hd, hsame | ⟨-, hnow, hbefore⟩⟩ := hretags x d' hd'
      · exact ⟨d, hd, hsame⟩
      · have hsame := halike.allocated_same hd hd'
        rw [hnow, hbefore rfl] at hsame
        exact nomatch hsame
    · exact nomatch hidle
  cases perform_cases h with
  | claim | claimPinned => exact claims rfl
  | detachOldest victim h =>
      cases victim with
      | none => exact detachOldest_none h ▸ .refl m
      | some found => exact nomatch hidle
  | release j _ h =>
      cases release_cases h with
      | refused => exact .refl m
      | deferred hd => exact put_keepsTags hd rfl rfl
      | user | kernel => exact nomatch hidle
  | setTlbSlot j slot _ h =>
      cases setTlbSlot_cases h with
      | refused => exact .refl m
      | set => exact nomatch hidle
  | _ => exact nomatch hidle

/-! ## Sequences of requests -/

/-- **What a frame remembers can be told from the events.** -/
theorem Reaches.tlbSlot {count base : Nat} {policy : PlacementPolicy}
    (hnew : create count base (.ofPolicy policy) = .ok m₀) (h : m₀.Reaches past m)
    (hd : m.frames[i]? = some d) : d.tlbSlot = if d.allocated then lastTag i past else none := by
  induction h generalizing d with
  | start =>
      unfold create at hnew
      split at hnew
      · cases hnew
        rw [Array.getElem?_replicate] at hd
        split at hd
        · cases hd
          rfl
        · exact nomatch hd
      · exact nomatch hnew
  | step hreach hallows hperform ih =>
      obtain ⟨hm, -, -⟩ := hreach.exact hnew
      obtain ⟨d₀, hd₀, hremembers⟩ := hm.perform_remembers hallows hperform hd
      rw [hremembers.tlbSlot, ih hd₀]
      rw [lastTag]
      cases halloc : d.allocated with
      | false => rfl
      | true =>
          cases hclaims : Event.claimsFrame _ i with
          | true => rfl
          | false =>
              have hbefore : d₀.allocated = true := by
                refine Bool.not_eq_false _ |>.mp fun hfree => ?_
                rw [hremembers.claimed.mpr ⟨hfree, halloc⟩] at hclaims
                exact nomatch hclaims
              rw [hbefore]
              rfl

/-- A frame that was just claimed is allocated, and nothing is remembered of it. -/
theorem Exact.untagged_of_claimed {n first : Nat} (hm : m.Exact) (hallows : m.Allows past request)
    (hwants : request.wants? = some n) (h : m.perform request = .ok (.claimed (some first), m'))
    (hx : first ≤ x) (hlt : x < first + n) :
    ∃ d, m'.frames[x]? = some d ∧ d.allocated = true ∧ d.tlbSlot = none := by
  obtain ⟨-, ⟨he, -⟩ | ⟨start, owner, pinned, he, hclaims⟩⟩ := hm.toSound.perform_claims hwants h
  · exact nomatch he
  · cases he
    have huse := hclaims.use x
    rw [if_pos ⟨hx, hlt⟩] at huse
    obtain ⟨d, hd, -⟩ := Option.map_eq_some_iff.mp huse
    have hcovered := (claimsFrame_iff hallows hwants).mpr ⟨hx, hlt⟩
    obtain ⟨d₀, -, hremembers⟩ := hm.perform_remembers hallows h hd
    refine ⟨d, hd, (hremembers.claimed.mp hcovered).2, ?_⟩
    rw [hremembers.tlbSlot, hcovered, Bool.not_true, Bool.and_false, if_neg Bool.false_ne_true]

end Coremap

/-! ## The result -/

/-- What a need asks of the coremap. -/
def Need.request : Need → Coremap.Request
  | .allocate owner count _ => .claim owner count
  | .pageIn page _ => .claimPinned page

theorem Need.wants_request (need : Need) : need.request.wants? = some (Task.needed need) := by
  cases need <;> rfl

theorem Task.claimFor_perform {m coremap : Coremap} {need : Need} {first : Option Nat}
    (h : Task.claimFor m need = .ok (first, coremap)) :
    m.perform need.request = .ok (.claimed first, coremap) := by
  cases need with
  | allocate owner count seen => exact Fault.bind_eq_ok.mpr ⟨_, h, rfl⟩
  | pageIn page slot => exact Fault.bind_eq_ok.mpr ⟨_, h, rfl⟩

theorem Task.met_memory {m : Memory} {notices : List Notice} {i : Nat} {need : Need}
    {piece : Task.Piece} (h : Task.met m notices i need = .ok piece) : piece.memory = m := by
  cases Task.met_cases h with
  | allocated | seen | pageIn => rfl

/-- What is answered when the TLB slot of an allocated frame is asked for. -/
theorem Memory.tlbSlot_eq {m : Memory} {x : Nat} {d : Descriptor}
    (hd : m.coremap.frames[x]? = some d) (halloc : d.allocated = true) :
    m.tlbSlot (m.coremap.base + Address.frameSize * x) = .ok (.ok d.tlbSlot) := by
  have hx : x < m.coremap.size := (Array.getElem?_eq_some_iff.mp hd).1
  unfold Memory.tlbSlot
  rw [Coremap.indexOf?_eq_some.mpr ⟨hx, rfl⟩]
  dsimp only
  unfold Coremap.frame
  rw [hd]
  show Except.ok (if d.allocated then _ else _) = _
  rw [halloc, if_pos rfl]

namespace Coremap

/-- **A TLB slot is remembered for no longer than a frame has its owner.** After any sequence of
requests, with any number of evictions and page-ins in flight:

* a frame in use remembers what was recorded for it last since it was claimed, and a free frame
  remembers nothing;
* the next request changes what a frame remembers only if it records a TLB slot for that frame,
  claims it or frees it, and a request that finds nothing, is refused or is put off changes it for no
  frame;
* whatever frames are needed for, nothing is remembered of them when they have just been given out. -/
theorem tlb_slots_end_with_their_owner {count base : Nat} {policy : PlacementPolicy}
    (hnew : create count base (.ofPolicy policy) = .ok m₀) (h : m₀.Reaches past m) :
    (∀ (i : Nat) d, m.frames[i]? = some d →
      d.tlbSlot = if d.allocated then lastTag i past else none) ∧
    (∀ request answer m', m.Allows past request → m.perform request = .ok (answer, m') →
      (∀ (i : Nat) d', m'.frames[i]? = some d' →
        ∃ d, m.frames[i]? = some d ∧ Remembers ⟨request, answer⟩ i d d') ∧
      (answer.isIdle = true → m.KeepsTags m')) ∧
    ∀ (memory : Memory) need first coremap notices piece, memory.coremap = m →
      m.Allows past need.request → Task.claimFor m need = .ok (some first, coremap) →
      Task.met { memory with coremap } notices first need = .ok piece →
      ∀ x, first ≤ x → x < first + Task.needed need →
        piece.memory.tlbSlot (base + Address.frameSize * x) = .ok (.ok none) := by
  obtain ⟨hm, -, -⟩ := h.exact hnew
  refine ⟨fun i d hd => h.tlbSlot hnew hd, fun request answer m' hallows hperform =>
    ⟨fun i d' hd' => hm.perform_remembers hallows hperform hd', hm.perform_idle hperform⟩, ?_⟩
  intro memory need first coremap notices piece _ hallows hclaim hmet x hx hlt
  have hperform := Task.claimFor_perform hclaim
  obtain ⟨d, hd, halloc, hnone⟩ :=
    hm.untagged_of_claimed hallows need.wants_request hperform hx hlt
  obtain ⟨hbase, -⟩ := h.laid hnew
  have hbase' : coremap.base = base := (perform_table hperform).base.trans hbase
  have hread := Memory.tlbSlot_eq (m := { memory with coremap }) hd halloc
  rw [Task.met_memory hmet, ← hbase', ← hnone]
  exact hread

/-- A small disk as swap area, and frames that were never written. -/
def memoryOver (m : Coremap) : Memory :=
  Memory.create m (SwapArea.ofBlock
    { kind := .swap, name := "disk", size := 32, drive := .blank 32 } {})

/-- The frame of a page is orphaned on its way out, and free when the eviction is given up. A kernel
run that starts there knows nothing of the TLB slot that was recorded for the page. -/
theorem tlb_slots_end_with_their_owner_given_up :
    ∃ past m coremap piece, threeFrames.Reaches past m ∧ lastTag 0 past = some 5 ∧
      (∃ d, m.frames[0]? = some d ∧ d.tlbSlot = none) ∧
      Task.claimFor m (.allocate .kernel 2 false) = .ok (some 0, coremap) ∧
      Task.met { memoryOver m with coremap } [] 0 (.allocate .kernel 2 false) = .ok piece ∧
      piece.next = .reply (.address (.ok 4096)) ∧
      piece.memory.tlbSlot 4096 = .ok (.ok none) ∧ piece.memory.tlbSlot 8192 = .ok (.ok none) := by
  have hseen : (threeFrames.follow [.abortEviction 0, .release 0, .detachOldest,
      .setTlbSlot 0 (some 5), .claim (.user ⟨1, 0⟩) 1]).map (fun r =>
        (lastTag 0 r.1, (r.2.frames[0]?).map (·.allocated),
          Task.claimFor r.2 (.allocate .kernel 2 false) >>= fun s =>
            Task.met { memoryOver r.2 with coremap := s.2 } [] 0 (.allocate .kernel 2 false) >>=
              fun piece => pure (s.1, piece.next))) =
      some (some 5, some false, .ok (some 0, .reply (.address (.ok 4096)))) := by
    decide +kernel
  obtain ⟨⟨past, m⟩, hfollow, he⟩ := Option.map_eq_some_iff.mp hseen
  obtain ⟨hlast, he⟩ := Prod.mk.inj he
  obtain ⟨hfree, hnext⟩ := Prod.mk.inj he
  obtain ⟨d, hd, hfree⟩ := Option.map_eq_some_iff.mp hfree
  obtain ⟨⟨first, coremap⟩, hclaim, hrest⟩ := Fault.bind_eq_ok.mp hnext
  obtain ⟨piece, hmet, hend⟩ := Fault.bind_eq_ok.mp hrest
  obtain ⟨rfl, hreply⟩ : first = some 0 ∧ piece.next = .reply (.address (.ok 4096)) :=
    Prod.mk.inj (Except.ok.inj hend)
  have hreaches := reaches_of_follow hfollow
  have hnew : create 3 Address.frameSize (.ofPolicy .firstFit) = .ok threeFrames := rfl
  obtain ⟨hnow, -, hgiven⟩ := tlb_slots_end_with_their_owner hnew hreaches
  have hnone : d.tlbSlot = none := (hnow 0 d hd).trans (if_neg (Bool.eq_false_iff.mp hfree))
  have hallows : m.Allows past (Need.allocate .kernel 2 false).request := by
    refine ⟨by decide, ?_⟩
    rw [(hreaches.laid hnew).2]
    decide
  have hread := hgiven (memoryOver m) (.allocate .kernel 2 false) 0 coremap [] piece rfl hallows
    hclaim hmet
  exact ⟨past, m, coremap, piece, hreaches, hlast, ⟨d, hd, hnone⟩, hclaim, hmet, hreply,
    hread 0 (by decide) (by decide), hread 1 (by decide) (by decide)⟩

end Coremap

end PhysMem
