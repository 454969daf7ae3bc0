import PhysMem.Proofs.Queue

/-!
# First in, first out — when the chain is in the order of arrival

A user frame arrives when it joins the newest end of the chain, and the chain is meant to be in the
order of arrival, so that the frame that has been resident longest is evicted first. An eviction
that is given up puts its frame at the oldest end whatever stands there. That is its place as long
as evictions end innermost first, as nested ones do. Of two evictions side by side the one that
began first may be given up first, and then the other puts its younger frame before the older one.

* **`arrival`** is when a frame joined the chain, **`InOrder`** says that the chain is in that order.
* **`inOrder_iff`** is the step: no request but an eviction given up can break the order, and it does
  unless its frame is older than all that is on the chain.
* **`arrivals_in_order_iff`** — a whole run is in order exactly if that holds of every eviction that
  it gives up. **`evictions_given_up_out_of_order`** is a run where it does not.
* **`in_order_of_innermost_first`** — it does hold if evictions are given up innermost first.
-/

namespace PhysMem.Coremap

variable {m m' m₀ m₁ : Coremap} {i x : Nat} {l : List Nat} {page : Page} {request : Request}
  {answer : Answer} {event : Event} {past earlier : List Event}

/-- The frame that joins the newest end of the chain. -/
def Event.arrives? : Event → Option Nat
  | ⟨.claim (.user _) _, .claimed (some i)⟩ | ⟨.unpin i, .onChain true⟩ => some i
  | _ => none

/-- The frame that an eviction given up puts back. -/
def Event.putsBack? : Event → Option Nat
  | ⟨.abortEviction i, .onChain true⟩ => some i
  | _ => none

/-- When frame `i` last joined the newest end of the chain, counted in events. -/
def arrival (i : Nat) : List Event → Nat
  | [] => 0
  | event :: past => if event.arrives? = some i then past.length + 1 else arrival i past

/-- The chain is in the order of arrival, from the oldest frame to the newest. -/
def InOrder (m : Coremap) (past : List Event) : Prop :=
  m.chain.Pairwise fun i j => arrival i past < arrival j past

/-! ## Arrivals -/

theorem arrival_le (i : Nat) (past : List Event) : arrival i past ≤ past.length := by
  induction past with
  | nil => exact Nat.le_refl 0
  | cons event past ih =>
      simp only [arrival, List.length_cons]
      split
      · exact Nat.le_refl _
      · exact Nat.le_succ_of_le ih

/-- The frame that arrives is younger than all others. -/
theorem arrival_lt (h : event.arrives? = some i) (hx : x ≠ i) :
    arrival x (event :: past) < arrival i (event :: past) := by
  have hother : event.arrives? ≠ some x := fun he => hx (Option.some.inj (he.symm.trans h))
  simp only [arrival, if_pos h, if_neg hother]
  exact Nat.lt_succ_of_le (arrival_le x past)

theorem arrival_other (h : event.arrives? ≠ some x) :
    arrival x (event :: past) = arrival x past := if_neg h

/-- What an event makes of the chain, as far as its order goes: a frame arrives, a frame is put
back, or nothing is added. -/
theorem Event.requeue_cases (m : Coremap) (event : Event) (l : List Nat) :
    (∃ i, event.arrives? = some i ∧ event.putsBack? = none ∧ event.requeue m l = l ++ [i]) ∨
      (∃ i, event.arrives? = none ∧ event.putsBack? = some i ∧ event.requeue m l = i :: l) ∨
      event.arrives? = none ∧ event.putsBack? = none ∧ (event.requeue m l).Sublist l := by
  obtain ⟨request, answer⟩ := event
  cases request with
  | claim owner count =>
      cases owner with
      | kernel => exact .inr (.inr ⟨rfl, rfl, .refl l⟩)
      | user page =>
          cases answer with
          | claimed first =>
              cases first with
              | some i => exact .inl ⟨i, rfl, rfl, rfl⟩
              | none => exact .inr (.inr ⟨rfl, rfl, .refl l⟩)
          | _ => exact .inr (.inr ⟨rfl, rfl, .refl l⟩)
  | unpin i =>
      cases answer with
      | onChain back =>
          cases back with
          | true => exact .inl ⟨i, rfl, rfl, rfl⟩
          | false => exact .inr (.inr ⟨rfl, rfl, .refl l⟩)
      | _ => exact .inr (.inr ⟨rfl, rfl, .refl l⟩)
  | abortEviction i =>
      cases answer with
      | onChain back =>
          cases back with
          | true => exact .inr (.inl ⟨i, rfl, rfl, rfl⟩)
          | false => exact .inr (.inr ⟨rfl, rfl, .refl l⟩)
      | _ => exact .inr (.inr ⟨rfl, rfl, .refl l⟩)
  | detachOldest => exact .inr (.inr ⟨rfl, rfl, List.tail_sublist l⟩)
  | release i => exact .inr (.inr ⟨rfl, rfl, List.erase_sublist⟩)
  | releaseSpace space => exact .inr (.inr ⟨rfl, rfl, List.filter_sublist⟩)
  | claimPinned page => exact .inr (.inr ⟨rfl, rfl, .refl l⟩)
  | finishEviction i => exact .inr (.inr ⟨rfl, rfl, .refl l⟩)
  | discardPinned i => exact .inr (.inr ⟨rfl, rfl, .refl l⟩)
  | setTlbSlot i slot => exact .inr (.inr ⟨rfl, rfl, .refl l⟩)

/-! ## One request -/

/-- The order of a list does not change when a frame arrives that is not of it. -/
theorem pairwise_arrival (h : ∀ i ∈ l, event.arrives? ≠ some i) :
    l.Pairwise (fun i j => arrival i (event :: past) < arrival j (event :: past)) ↔
      l.Pairwise fun i j => arrival i past < arrival j past :=
  List.Pairwise.iff_of_mem fun hi hj => by rw [arrival_other (h _ hi), arrival_other (h _ hj)]

/-- **No request but an eviction given up can break the order of arrival**, and it does unless its
frame arrived before all that are on the chain. -/
theorem inOrder_iff (hm : m.Sound) (hr : request.IsProper)
    (h : m.perform request = .ok (answer, m')) (hord : m.InOrder past) :
    m'.InOrder (⟨request, answer⟩ :: past) ↔
      ∀ i, Event.putsBack? ⟨request, answer⟩ = some i →
        ∀ x ∈ m.chain, arrival i past < arrival x past := by
  have hchain := hm.chain_requeue hr h
  have hnd : m'.chain.Nodup := by
    obtain ⟨l, hl, -⟩ := hm.chain
    have hl' := hm.requeue hl hr h
    rw [hl'.chain]
    exact hl'.nodup
  show m'.chain.Pairwise _ ↔ _
  rcases Event.requeue_cases m ⟨request, answer⟩ m.chain with ⟨i, harrives, hnone, he⟩ |
    ⟨i, hnone, hback, he⟩ | ⟨hnone, hnone', hsub⟩
  · rw [hnone, hchain, he, List.pairwise_append]
    rw [hchain, he, List.nodup_append] at hnd
    have hne : ∀ x ∈ m.chain, x ≠ i := fun x hx => hnd.2.2 x hx i List.mem_cons_self
    refine iff_of_true ⟨?_, List.pairwise_singleton _ i, fun x hx j hj => ?_⟩ nofun
    · rw [pairwise_arrival]
      · exact hord
      · intro x hx hx'
        exact hne x hx (Option.some.inj (hx'.symm.trans harrives))
    · rw [List.mem_singleton.mp hj]
      exact arrival_lt harrives (hne x hx)
  · have hsame : ∀ j, Event.arrives? ⟨request, answer⟩ ≠ some j := fun j => by
      rw [hnone]
      exact nofun
    rw [hchain, he, pairwise_arrival fun j _ => hsame j, List.pairwise_cons, hback]
    exact ⟨fun h j hj => by cases hj; exact h.1, fun h => ⟨h i rfl, hord⟩⟩
  · rw [hnone', hchain]
    refine iff_of_true (List.Pairwise.sublist hsub ?_) nofun
    rw [pairwise_arrival]
    · exact hord
    · rw [hnone]
      exact nofun

/-! ## Runs -/

/-- What is reached does not depend on how. -/
theorem Reaches.unique (h : m₀.Reaches past m) (h' : m₀.Reaches past m') : m = m' := by
  induction h generalizing m' with
  | start =>
      cases h'
      rfl
  | step _ _ hperform ih =>
      cases h' with
      | step hreach' _ hperform' =>
          rw [← ih hreach', hperform] at hperform'
          exact congrArg Prod.snd (Except.ok.inj hperform')

/-- A run comes by all that its first events lead to. -/
theorem Reaches.of_suffix (h : m₀.Reaches past m) (hsuffix : earlier <:+ past) :
    ∃ m₁, m₀.Reaches earlier m₁ := by
  induction h with
  | start =>
      obtain rfl := List.suffix_nil.mp hsuffix
      exact ⟨m₀, .start⟩
  | step hreach hallows hperform ih =>
      rcases List.suffix_cons_iff.mp hsuffix with rfl | hsuffix
      · exact ⟨_, .step hreach hallows hperform⟩
      · exact ih hsuffix

/-- The chain is in the order of arrival all through the run. -/
def AlwaysInOrder (m₀ : Coremap) (past : List Event) : Prop :=
  ∀ earlier m₁, earlier <:+ past → m₀.Reaches earlier m₁ → m₁.InOrder earlier

theorem putsBack?_eq_some (h : event.putsBack? = some i) :
    event = ⟨.abortEviction i, .onChain true⟩ := by
  obtain ⟨request, answer⟩ := event
  cases request with
  | abortEviction j =>
      cases answer with
      | onChain back =>
          cases back with
          | true =>
              cases h
              rfl
          | false => exact nomatch h
      | _ => exact nomatch h
  | _ => exact nomatch h

/-- The chain of a new table is empty. -/
theorem create_chain {count base : Nat} {policy : PlacementPolicy}
    (hnew : create count base (.ofPolicy policy) = .ok m₀) : m₀.chain = [] := by
  obtain ⟨hm, hfree⟩ := create_sound hnew
  obtain ⟨l, hl, hmem⟩ := hm.chain
  rw [hl.chain, List.eq_nil_iff_forall_not_mem]
  intro i hi
  obtain ⟨page, hr⟩ := (hmem i).mp hi
  exact nomatch hfree i _ hr

/-- The frame that is detached is the head of the chain. -/
theorem Sound.detached_head {victim : Nat × Page} (hm : m.Sound)
    (h : m.detachOldest = .ok (some victim, m')) : ∃ newer, m.chain = victim.1 :: newer := by
  obtain ⟨l, hl, -⟩ := hm.chain
  rw [hl.chain]
  exact List.head?_eq_some_iff.mp (hl.detachOldest_requeue h).1

/-- **A run is in the order of arrival exactly if no eviction is given up before an older one.** It
is in order throughout, as soon as each eviction that is given up finds younger frames only on the
chain. And while it is, the frame that is detached has been resident longest of all. -/
theorem arrivals_in_order_iff {count base : Nat} {policy : PlacementPolicy}
    (hnew : create count base (.ofPolicy policy) = .ok m₀) (h : m₀.Reaches past m) :
    (m₀.AlwaysInOrder past ↔
      ∀ i earlier m₁, ⟨.abortEviction i, .onChain true⟩ :: earlier <:+ past →
        m₀.Reaches earlier m₁ → ∀ x ∈ m₁.chain, arrival i earlier < arrival x earlier) ∧
    (m.InOrder past → ∀ i page m', m.detachOldest = .ok (some (i, page), m') →
      ∀ x ∈ m.chain, x = i ∨ arrival i past < arrival x past) := by
  refine ⟨⟨fun hord i earlier m₁ hsuffix hreach => ?_, fun hback earlier m₁ hsuffix hreach => ?_⟩,
    fun hord i page m' hdetach x hx => ?_⟩
  · obtain ⟨m₂, hreach₂⟩ := h.of_suffix hsuffix
    have hafter := hord _ _ hsuffix hreach₂
    cases hreach₂ with
    | step hreach' hallows hperform =>
        obtain rfl := hreach.unique hreach'
        have hbefore := hord _ _ ((List.suffix_cons _ _).trans hsuffix) hreach
        exact (inOrder_iff (hreach.exact hnew).1.toSound hallows.isProper hperform hbefore).mp
          hafter i rfl
  · induction hreach with
    | start =>
        show m₀.chain.Pairwise _
        rw [create_chain hnew]
        exact .nil
    | @step earlier m₂ m₃ request answer hreach hallows hperform ih =>
        have hbefore := ih ((List.suffix_cons _ _).trans hsuffix)
        refine (inOrder_iff (hreach.exact hnew).1.toSound hallows.isProper hperform hbefore).mpr ?_
        intro i hi
        rw [putsBack?_eq_some hi] at hsuffix
        exact hback i earlier m₂ hsuffix hreach
  · obtain ⟨newer, hchain⟩ := (h.exact hnew).1.toSound.detached_head hdetach
    have hord' : m.chain.Pairwise _ := hord
    rw [hchain] at hx hord'
    exact (List.mem_cons.mp hx).imp_right ((List.pairwise_cons.mp hord').1 x)

/-- Of two evictions side by side the inner one is given up first, and then the outer one: the chain
is in the order of arrival again. -/
theorem arrivals_in_order_iff_of_nested :
    ∃ past m, threeFrames.Reaches past m ∧ m.chain = [0, 1] ∧
      (threeFrames.AlwaysInOrder past → ∀ i earlier m₁,
        ⟨.abortEviction i, .onChain true⟩ :: earlier <:+ past → threeFrames.Reaches earlier m₁ →
        ∀ x ∈ m₁.chain, arrival i earlier < arrival x earlier) ∧
      ∀ i page m', m.detachOldest = .ok (some (i, page), m') →
        ∀ x ∈ m.chain, x = i ∨ arrival i past < arrival x past := by
  have hevents : (threeFrames.follow [.abortEviction 0, .abortEviction 1, .detachOldest,
      .detachOldest, .claim (.user ⟨1, 1⟩) 1, .claim (.user ⟨1, 0⟩) 1]).map
        (fun r => (r.2.chain, arrival 0 r.1, arrival 1 r.1)) = some ([0, 1], 1, 2) := by
    decide +kernel
  obtain ⟨⟨past, m⟩, hfollow, he⟩ := Option.map_eq_some_iff.mp hevents
  obtain ⟨hchain, h₀, h₁⟩ : m.chain = [0, 1] ∧ arrival 0 past = 1 ∧ arrival 1 past = 2 := by
    simpa using he
  have hreaches := reaches_of_follow hfollow
  have hnew : create 3 Address.frameSize (.ofPolicy .firstFit) = .ok threeFrames := rfl
  obtain ⟨hall, houtgoing⟩ := arrivals_in_order_iff hnew hreaches
  refine ⟨past, m, hreaches, hchain, hall.mp, houtgoing ?_⟩
  show m.chain.Pairwise _
  rw [hchain]
  simp [h₀, h₁]

/-- **Of two evictions side by side the outer one is given up first**, and then the inner one: the
frame that arrived last is the oldest of the chain, and the next to be evicted. -/
theorem evictions_given_up_out_of_order :
    ∃ past m, threeFrames.Reaches past m ∧ m.chain = [1, 0] ∧
      arrival 0 past < arrival 1 past ∧ ¬ m.InOrder past ∧
      ∃ page m', m.detachOldest = .ok (some (1, page), m') := by
  have hevents : (threeFrames.follow [.abortEviction 1, .abortEviction 0, .detachOldest,
      .detachOldest, .claim (.user ⟨1, 1⟩) 1, .claim (.user ⟨1, 0⟩) 1]).map
        (fun r => (r.2.chain, arrival 0 r.1, arrival 1 r.1,
          (r.2.detachOldest.toOption.bind (·.1)).map (·.1))) = some ([1, 0], 1, 2, some 1) := by
    decide +kernel
  obtain ⟨⟨past, m⟩, hfollow, he⟩ := Option.map_eq_some_iff.mp hevents
  obtain ⟨hchain, h₀, h₁, hvictim⟩ : m.chain = [1, 0] ∧ arrival 0 past = 1 ∧ arrival 1 past = 2 ∧
      (m.detachOldest.toOption.bind (·.1)).map (·.1) = some 1 := by
    simpa using he
  refine ⟨past, m, reaches_of_follow hfollow, hchain, ?_, fun hord => ?_, ?_⟩
  · rw [h₀, h₁]
    decide
  · have hord' : m.chain.Pairwise _ := hord
    rw [hchain] at hord'
    simp [h₀, h₁] at hord'
  · cases hdetach : m.detachOldest with
    | error fault =>
        rw [hdetach] at hvictim
        exact nomatch hvictim
    | ok result =>
        obtain ⟨victim, m'⟩ := result
        rw [hdetach] at hvictim
        obtain ⟨⟨i, page⟩, rfl, rfl⟩ := Option.map_eq_some_iff.mp hvictim
        exact ⟨page, m', rfl⟩

/-! ## Innermost first -/

/-- The frames that are being evicted, those whose eviction began last first. -/
def evicting (past : List Event) : List Nat :=
  ((inFlight past).filter fun frame => !frame.1).map (·.2)

theorem mem_evicting : i ∈ evicting past ↔ (false, i) ∈ inFlight past := by
  simp [evicting]

/-- A frame that goes on its way to swap comes first, one that is back is deleted. -/
theorem evicting_cons (event : Event) (past : List Event) :
    evicting (event :: past) =
      ((event.begins.toList.filter fun frame => !frame.1).map (·.2)) ++
        (evicting past).filter fun i => event.ends ≠ some (false, i) := by
  simp only [evicting, inFlight, List.filter_append, List.map_append, List.filter_map,
    List.filter_filter]
  congr 2
  refine List.filter_congr fun frame _ => ?_
  obtain ⟨pinned, i⟩ := frame
  cases pinned <;> simp

theorem evicting_sublist (h : ∀ i, event.begins ≠ some (false, i)) :
    (evicting (event :: past)).Sublist (evicting past) := by
  have hnone : event.begins.toList.filter (fun frame => !frame.1) = [] := by
    refine List.filter_eq_nil_iff.mpr fun frame hframe => ?_
    obtain ⟨pinned, i⟩ := frame
    cases pinned with
    | true => exact nofun
    | false => exact absurd (Option.mem_toList.mp hframe) (h i)
  rw [evicting_cons, hnone]
  exact List.filter_sublist

/-- The frame that is detached is the innermost of those being evicted. -/
theorem evicting_detached : evicting (⟨.detachOldest, .detached (some (i, page))⟩ :: past) =
    i :: evicting past := by
  rw [evicting_cons]
  simp [Event.begins, Event.ends]

/-- Giving up the innermost eviction leaves the others. -/
theorem evicting_aborted {outer : List Nat} {onChain : Bool} (h : evicting past = i :: outer) :
    (evicting (⟨.abortEviction i, .onChain onChain⟩ :: past)).Sublist outer := by
  rw [evicting_cons, h]
  simp [Event.begins, Event.ends, List.filter_sublist]

/-- The frames being evicted, and then those of the chain, are in the order of arrival. -/
def Lined (m : Coremap) (past : List Event) : Prop :=
  ((evicting past).reverse ++ m.chain).Pairwise fun i j => arrival i past < arrival j past

/-- Only an eviction sends a frame on its way to swap. -/
theorem begins_eq_some (h : event.begins = some (false, i)) :
    ∃ page, event = ⟨.detachOldest, .detached (some (i, page))⟩ := by
  obtain ⟨request, answer⟩ := event
  cases request with
  | detachOldest =>
      cases answer with
      | detached victim =>
          cases victim with
          | some found =>
              cases h
              exact ⟨found.2, rfl⟩
          | none => exact nomatch h
      | _ => exact nomatch h
  | claimPinned page =>
      cases answer with
      | claimed first => cases first <;> exact nomatch h
      | _ => exact nomatch h
  | _ => exact nomatch h

/-- **The line is kept** by every request but an eviction given up that is not the innermost. -/
theorem Lined.perform (hm : m.Exact) (hr : request.IsProper)
    (h : m.perform request = .ok (answer, m'))
    (hflight : ∀ x, x ∈ evicting (⟨request, answer⟩ :: past) → m'.InTransit false x)
    (hback : ∀ i, Event.putsBack? ⟨request, answer⟩ = some i → (evicting past).head? = some i)
    (hline : m.Lined past) : m'.Lined (⟨request, answer⟩ :: past) := by
  have hchain := hm.toSound.chain_requeue hr h
  by_cases hbegins : ∃ i, Event.begins ⟨request, answer⟩ = some (false, i)
  · -- the oldest frame of the chain moves to the end of those being evicted
    obtain ⟨i, hbegins⟩ := hbegins
    obtain ⟨page, he⟩ := begins_eq_some hbegins
    cases he
    obtain ⟨newer, hhead⟩ : ∃ newer, m.chain = i :: newer := by
      cases perform_cases h with
      | detachOldest _ h₁ => exact hm.toSound.detached_head h₁
    have htail : m'.chain = newer := by
      rw [hchain, hhead]
      rfl
    show List.Pairwise _ _
    rw [evicting_detached, htail, List.reverse_cons, List.append_assoc, pairwise_arrival]
    · rw [Lined, hhead] at hline
      exact hline
    · exact fun _ _ => nofun
  · have hsub : (evicting (⟨request, answer⟩ :: past)).Sublist (evicting past) :=
      evicting_sublist fun i hi => hbegins ⟨i, hi⟩
    show List.Pairwise _ _
    rcases Event.requeue_cases m ⟨request, answer⟩ m.chain with ⟨i, harrives, -, he⟩ |
      ⟨i, hnone, hputs, he⟩ | ⟨hnone, -, hless⟩
    · -- the frame that arrives is not one of the line
      have hm' := (perform_exact hm hr h).toSound
      obtain ⟨l, hl, -⟩ := hm'.chain
      have hl' : m.chain ++ [i] = l := by rw [← he, ← hchain, hl.chain]
      have hnd := hl.nodup
      rw [← hl', List.nodup_append] at hnd
      have hne : ∀ x ∈ (evicting (⟨request, answer⟩ :: past)).reverse ++ m.chain, x ≠ i := by
        intro x hx
        rcases List.mem_append.mp hx with hx | hx
        · rintro rfl
          obtain ⟨page, orphaned, ht⟩ := hflight x (List.mem_reverse.mp hx)
          refine hm'.not_mem_linked hl ht nofun ?_
          rw [← hl']
          exact List.mem_append_right _ List.mem_cons_self
        · exact hnd.2.2 x hx i List.mem_cons_self
      rw [hchain, he, ← List.append_assoc, List.pairwise_append]
      refine ⟨?_, List.pairwise_singleton _ i, fun x hx j hj => ?_⟩
      · rw [pairwise_arrival]
        · exact hline.sublist (hsub.reverse.append_right _)
        · intro x hx hx'
          exact hne x hx (Option.some.inj (hx'.symm.trans harrives))
      · rw [List.mem_singleton.mp hj]
        exact arrival_lt harrives (hne x hx)
    · -- the innermost eviction gives its frame back to the head of the chain
      obtain ⟨outer, hinner⟩ := List.head?_eq_some_iff.mp (hback i hputs)
      have houter : (evicting (⟨request, answer⟩ :: past)).Sublist outer := by
        have he := putsBack?_eq_some hputs
        cases he
        exact evicting_aborted hinner
      rw [hchain, he, pairwise_arrival]
      · rw [Lined, hinner, List.reverse_cons, List.append_assoc] at hline
        exact hline.sublist (houter.reverse.append_right _)
      · rw [hnone]
        exact nofun
    · rw [hchain, pairwise_arrival]
      · exact hline.sublist (hsub.reverse.append hless)
      · rw [hnone]
        exact nofun

/-- **Evictions that are given up innermost first keep the order of arrival**, whatever else is
interleaved. -/
theorem in_order_of_innermost_first {count base : Nat} {policy : PlacementPolicy}
    (hnew : create count base (.ofPolicy policy) = .ok m₀) (h : m₀.Reaches past m)
    (hinner : ∀ i earlier, ⟨.abortEviction i, .onChain true⟩ :: earlier <:+ past →
      (evicting earlier).head? = some i) : m.InOrder past := by
  have hline : m.Lined past := by
    induction h with
    | start =>
        show List.Pairwise _ _
        rw [create_chain hnew]
        exact .nil
    | @step past m m' request answer hreach hallows hperform ih =>
        have hflight := ((hreach.step hallows hperform).exact hnew).2.2
        refine Lined.perform (hreach.exact hnew).1 hallows.isProper hperform
          (fun x hx => (hflight false x).mpr (mem_evicting.mp hx)) (fun i hi => ?_)
          (ih fun i earlier hsuffix => hinner i earlier (hsuffix.trans (List.suffix_cons _ _)))
        exact hinner i past (putsBack?_eq_some hi ▸ List.suffix_refl _)
  exact (List.pairwise_append.mp hline).2.1

end PhysMem.Coremap
