import Mathlib.Data.List.Dedup
import PhysMem.Proofs.Integrity
import PhysMem.Proofs.Evolution
import PhysMem.Proofs.Fifo

/-!
# Residency — which user frame has been resident longest

From outside one sees which frames are handed out, and when: a user frame is resident from the
answer of the allocation or of the page-in that hands it out. As long as one operation follows the
other, the chain is in the order of these answers. A frame whose eviction fails is not handed out
again, and it goes back to the head of the chain, where it came from; nothing can have joined or
left the chain before it meanwhile.

* **`arrivals`** are the user frames that the answers hand out, one after the other.
* **`Queues`** is the step: of the chain, with a frame on its way to swap before its head, a piece
  of an operation deletes some frames, and appends the one that it hands out.
* **`line_step`** is what a move makes of the line, **`chain_in_order_of_run`** is the run: the chain
  is in the order of the last arrivals. **`oldest_arrived_first`** says it of the head of the chain.
-/

namespace PhysMem

/-- The address of the user frame that an operation hands out by this reply. -/
def Operation.handsOut? (op : Operation) : Reply → Option Nat
  | .address (.ok address) =>
    match op with
    | .allocate .user _ _ | .pageIn .. => some address
    | _ => none
  | _ => none

/-- The user frame that is handed out. -/
def Event.arrival? (c : Coremap) : Event → Option Nat
  | .answered _ op reply => (op.handsOut? reply).bind c.indexOf?
  | .told .. => none

/-- The user frames that were handed out, the latest one last. -/
def arrivals (c : Coremap) (events : List Event) : List Nat :=
  events.filterMap fun event => event.arrival? c

theorem arrivals_singleton (c : Coremap) (event : Event) :
    arrivals c [event] = (event.arrival? c).toList := by
  cases harrival : event.arrival? c <;> simp [arrivals, harrival]

/-! ## Lists -/

/-- The last occurrence of `i` moves to the end, and the others stay. -/
theorem dedup_concat (i : Nat) (l : List Nat) :
    (l ++ [i]).dedup = l.dedup.filter (fun x => x != i) ++ [i] := by
  induction l with
  | nil => rfl
  | cons x l ih =>
      rw [List.cons_append]
      by_cases hx : x ∈ l
      · rw [List.dedup_cons_of_mem (List.mem_append_left _ hx), List.dedup_cons_of_mem hx, ih]
      · rw [List.dedup_cons_of_notMem hx, List.filter_cons]
        by_cases hxi : x = i
        · subst hxi
          rw [List.dedup_cons_of_mem (List.mem_append_right _ (List.mem_singleton_self x)), ih]
          simp
        · have hnew : x ∉ l ++ [i] := by simp [hx, hxi]
          rw [List.dedup_cons_of_notMem hnew, ih]
          simp [hxi]

/-- What is in the order of the last occurrences is so when one more comes. -/
theorem sublist_dedup_concat {kept l : List Nat} {i : Nat} (h : kept.Sublist l.dedup)
    (hi : i ∉ kept) : (kept ++ [i]).Sublist (l ++ [i]).dedup := by
  have hkept : kept.filter (fun x => x != i) = kept := by
    refine List.filter_eq_self.mpr fun x hx => ?_
    have hne : x ≠ i := fun he => hi (he ▸ hx)
    simp [hne]
  rw [dedup_concat, ← hkept]
  exact (h.filter _).append_right _

/-! ## The coremap -/

namespace Coremap

variable {m m' : Coremap}

/-- What a request makes of the coremap: `x` is what the coremap does, and `f` wraps up its
answer. -/
theorem Exact.requeued (hm : m.Exact) (request : Request) (hr : request.IsProper) {α : Type}
    {a : α} {x : Except Fault α} {f : α → Answer × Coremap}
    (hperform : m.perform request = x >>= fun a => .ok (f a)) (h : x = .ok a) :
    (f a).2.Exact ∧ m.SameTable (f a).2 ∧
      (f a).2.chain = Event.requeue m ⟨request, (f a).1⟩ m.chain := by
  have hone : m.perform request = .ok (f a) := by
    rw [hperform, h]
    rfl
  exact ⟨perform_exact hm hr hone, perform_table hone, hm.toSound.chain_requeue hr hone⟩

/-- Evolution leaves the table where it is. -/
theorem Evolves.table (h : m.Evolves m') : m.SameTable m' := by
  induction h with
  | refl => exact .refl m
  | tail _ hone ih =>
      obtain ⟨request, answer, -, hperform⟩ := hone
      exact ih.trans (perform_table hperform)

theorem Sound.chain_nodup (hm : m.Sound) : m.chain.Nodup := by
  obtain ⟨l, hl, -⟩ := hm.chain
  rw [hl.chain]
  exact hl.nodup

end Coremap

/-- The frames of the chain, with a frame on its way to swap before them. -/
def Memory.line (m : Memory) (victim : Option Nat) : List Nat := victim.toList ++ m.coremap.chain

namespace Task

/-- The frame on its way to swap. -/
def victim? (t : Task) : Option Nat := t.eviction?.map fun e => e.frame

def Next.victim? : Next → Option Nat
  | .callOut t => t.victim?
  | .reply _ => none

/-- The user frame that is handed out next. -/
def Next.arrival? (op : Operation) (c : Coremap) : Next → Option Nat
  | .callOut _ => none
  | .reply r => (op.handsOut? r).bind c.indexOf?

/-- Some frames leave the line, and the one that is handed out joins its end. -/
def Queues (op : Operation) (line : List Nat) (p : Piece) : Prop :=
  ∃ kept : List Nat, kept.Sublist line ∧
    p.memory.line p.next.victim? = kept ++ (p.next.arrival? op p.memory.coremap).toList

variable {m : Memory} {p : Piece} {op : Operation} {notices : List Notice} {held : Bool}
  {line line' : List Nat}

theorem Queues.mono (h : Queues op line p) (hle : line.Sublist line') : Queues op line' p := by
  obtain ⟨kept, hkept, hline⟩ := h
  exact ⟨kept, hkept.trans hle, hline⟩

/-- Nothing is handed out. -/
theorem Queues.of_sublist (hnone : p.next.arrival? op p.memory.coremap = none)
    (h : (p.memory.line p.next.victim?).Sublist line) : Queues op line p := by
  refine ⟨_, h, ?_⟩
  simp [hnone]

/-- Nothing is handed out, and no frame leaves the line. -/
theorem Queues.of_eq (hnone : p.next.arrival? op p.memory.coremap = none)
    (h : p.memory.line p.next.victim? = line) : Queues op line p :=
  .of_sublist hnone (h ▸ .refl _)

/-! ## Filling a frame from a slot -/

theorem filled_queues {f : Filling} (hm : m.coremap.Exact) (hop : FillServes op f)
    (hplaced : m.coremap.indexOf? f.address = some f.frame) (h : filled m notices f = .ok p) :
    Queues op m.coremap.chain p := by
  cases filled_cases h with
  | unreleased | restored => exact .of_sublist rfl (.refl _)
  | broughtBack page onChain slots coremap hpage _ hunpin =>
      obtain ⟨-, htable, hchain⟩ := hm.requeued (.unpin f.frame) trivial rfl hunpin
      cases onChain with
      | false => exact .of_eq rfl hchain
      | true =>
          -- the page-in puts the frame on the chain and hands it out
          refine ⟨m.coremap.chain, .refl _, ?_⟩
          have hplaced' : coremap.indexOf? f.address = some f.frame :=
            (htable.indexOf? f.address).trans hplaced
          rw [hop.of_page hpage]
          show coremap.chain = m.coremap.chain ++ (coremap.indexOf? f.address).toList
          rw [hchain, hplaced']
          rfl

theorem fillFailed_queues {f : Filling} {e : SwapError} (hm : m.coremap.Exact)
    (h : fillFailed m f e = .ok p) : Queues op m.coremap.chain p := by
  cases fillFailed_cases h with
  | restore => exact .of_sublist rfl (.refl _)
  | pageIn page coremap slots _ hdiscard =>
      obtain ⟨-, -, hchain⟩ := hm.requeued (.discardPinned f.frame) trivial rfl hdiscard
      exact .of_eq rfl hchain

theorem filling_queues {f : Filling} (hm : m.coremap.Exact) (hop : FillServes op f)
    (hplaced : m.coremap.indexOf? f.address = some f.frame) (h : FillingCases m f p) :
    Queues op m.coremap.chain p := by
  cases h with
  | full device ram h => exact filled_queues (m := m.putSectors device ram) hm hop hplaced h
  | unread device ram h => exact fillFailed_queues (m := m.putSectors device ram) hm h
  | reading | scrubbing => exact .of_sublist rfl (.refl _)

/-! ## Finding room -/

/-- Whom the frames are for is what was asked for. -/
theorem requestOwner_kind {kind : FrameKind} {count : Nat} {page : Option Page}
    {owner : FrameOwner} (h : requestOwner kind count page = .ok owner) : owner.kind = kind := by
  simp only [requestOwner] at h
  split at h
  · exact nomatch h
  · cases kind <;> cases page <;> simp only at h
    · cases h
      rfl
    · exact nomatch h
    · exact nomatch h
    · split at h
      · cases h
        rfl
      · exact nomatch h

/-- A need that finds room is handed its frame, or has it filled first. -/
theorem met_queues {need : Need} {i : Nat} {coremap : Coremap} (hm : m.coremap.Exact)
    (hop : NeedServes op (some need)) (hclaim : claimFor m.coremap need = .ok (some i, coremap))
    (h : met { m with coremap } notices i need = .ok p) : Queues op m.coremap.chain p := by
  cases met_cases h with
  | pageIn =>
      obtain ⟨-, -, hchain⟩ := hm.requeued (.claimPinned _) trivial rfl hclaim
      exact .of_eq rfl hchain
  | @seen owner count =>
      -- what the kernel sees is never a user frame
      obtain ⟨rfl, rfl⟩ := hop
      obtain ⟨-, -, hchain⟩ := hm.requeued (.claim .kernel count) (Or.inl rfl) rfl hclaim
      exact .of_eq rfl hchain
  | @allocated owner count _ haddress =>
      obtain ⟨-, -, hchain⟩ :=
        hm.requeued (.claim owner count) (grants_of_need hop).1 rfl hclaim
      obtain ⟨kind, page, rfl, howner⟩ := hop
      obtain rfl := requestOwner_kind howner
      cases owner with
      | kernel => exact .of_eq rfl hchain
      | user page =>
          refine ⟨m.coremap.chain, .refl _, ?_⟩
          show coremap.chain = m.coremap.chain ++ (coremap.indexOf? _).toList
          rw [hchain, Coremap.indexOf?_of_addressOf haddress]
          rfl

theorem unmet_queues {need : Need} {e : FrameError} (h : unmet m notices e need = .ok p) :
    Queues op m.coremap.chain p := by
  cases unmet_cases h with
  | allocate | pageIn => exact .of_sublist rfl (.refl _)

/-- A claim that finds no frames leaves the chain alone. -/
theorem claimFor_chain {need : Need} {coremap : Coremap} (hm : m.coremap.Exact)
    (hop : NeedServes op (some need)) (h : claimFor m.coremap need = .ok (none, coremap)) :
    coremap.Exact ∧ coremap.chain = m.coremap.chain := by
  cases need with
  | pageIn page slot =>
      obtain ⟨hexact, -, hchain⟩ := hm.requeued (.claimPinned page) trivial rfl h
      exact ⟨hexact, hchain⟩
  | allocate owner count seen =>
      obtain ⟨hexact, -, hchain⟩ :=
        hm.requeued (.claim owner count) (grants_of_need hop).1 rfl h
      refine ⟨hexact, hchain.trans ?_⟩
      cases owner <;> rfl

theorem evictionEnded_queues {need : Option Need} {result : Except EvictError (Nat × Nat)}
    (hm : m.coremap.Exact) (hop : NeedServes op need)
    (h : evictionEnded m notices need result = .ok p) : Queues op m.coremap.chain p := by
  cases evictionEnded_cases h with
  | ended => exact .of_sublist rfl (.refl _)
  | noVictim h | failed h => exact unmet_queues h
  | room coremap hclaim h => exact met_queues hm hop hclaim h
  | noRoom coremap hclaim h =>
      obtain ⟨-, hchain⟩ := claimFor_chain hm hop hclaim
      rw [← hchain]
      exact unmet_queues (m := { m with coremap }) h

/-! ## Evictions -/

/-- A frame that is put back is at the head of the chain again, or free. -/
theorem putBack_queues {frame : Nat} {n : Memory} (hm : m.coremap.Exact)
    (h : putBack m frame = .ok (n, notices)) :
    n.coremap.Exact ∧ n.coremap.chain.Sublist (frame :: m.coremap.chain) := by
  obtain ⟨onChain, coremap, habort, rfl, -⟩ := putBack_eq_ok h
  obtain ⟨hexact, -, hchain⟩ := hm.requeued (.abortEviction frame) trivial rfl habort
  refine ⟨hexact, ?_⟩
  show coremap.chain.Sublist _
  rw [hchain]
  cases onChain with
  | true => exact .refl _
  | false => exact List.sublist_cons_self _ _

theorem finishEviction_queues {frame : Nat} {orphaned : Bool} {coremap : Coremap}
    (hm : m.coremap.Exact) (h : m.coremap.finishEviction frame = .ok (orphaned, coremap)) :
    coremap.Exact ∧ coremap.chain.Sublist (frame :: m.coremap.chain) := by
  obtain ⟨hexact, -, hchain⟩ := hm.requeued (.finishEviction frame) trivial rfl h
  refine ⟨hexact, ?_⟩
  rw [hchain]
  exact List.sublist_cons_self _ _

theorem evict_queues {need : Option Need} (hm : m.coremap.Exact) (hop : NeedServes op need)
    (h : evict m need = .ok p) : Queues op m.coremap.chain p := by
  -- the victim is the frame at the head of the chain
  have detached : ∀ {frame page coremap},
      m.coremap.detachOldest = .ok (some (frame, page), coremap) →
        coremap.Exact ∧ frame :: coremap.chain = m.coremap.chain := by
    intro frame page coremap hdetach
    obtain ⟨hexact, -, hchain⟩ := hm.requeued .detachOldest trivial rfl hdetach
    obtain ⟨l, hl, -⟩ := hm.chain
    obtain ⟨newer, rfl⟩ := List.head?_eq_some_iff.mp (hl.detachOldest_requeue hdetach).1
    refine ⟨hexact, ?_⟩
    rw [hchain, hl.chain]
    rfl
  cases evict_cases h with
  | noVictim _ h => exact evictionEnded_queues hm hop h
  | noSlot coremap slots n hdetach _ _ hback h =>
      obtain ⟨hexact, hline⟩ := detached hdetach
      obtain ⟨hexact', hsub⟩ :=
        putBack_queues (m := { m with coremap }.putSlots slots) hexact hback
      rw [← hline]
      exact (evictionEnded_queues hexact' hop h).mono hsub
  | reserved coremap slots hdetach =>
      rw [← (detached hdetach).2]
      exact .of_sublist rfl (.refl _)

theorem writeFailed_queues {e : Eviction} {cause : SwapError} (hm : m.coremap.Exact)
    (hop : NeedServes op e.need) (h : writeFailed m e cause = .ok p) :
    Queues op (e.frame :: m.coremap.chain) p := by
  obtain ⟨owned, slots, n, notices, -, hback, h⟩ := writeFailed_eq_ok h
  obtain ⟨hexact, hsub⟩ := putBack_queues (m := m.putSlots slots) hm hback
  exact (evictionEnded_queues hexact hop h).mono hsub

theorem written_queues {e : Eviction} (hm : m.coremap.Exact) (hop : NeedServes op e.need)
    (h : written m e = .ok p) : Queues op (e.frame :: m.coremap.chain) p := by
  cases written_cases h with
  | freed slots slots' coremap _ _ _ hfinish _ h =>
      obtain ⟨hexact, hsub⟩ := finishEviction_queues hm hfinish
      refine (evictionEnded_queues ?_ hop h).mono hsub
      exact hexact
  | told => exact .of_sublist rfl (.refl _)

theorem evicting_queues {e : Eviction} (hm : m.coremap.Exact) (hop : NeedServes op e.need)
    (h : EvictingCases m e p) : Queues op (e.frame :: m.coremap.chain) p := by
  cases h with
  | failed device h => exact writeFailed_queues (m := m.putDevice device) hm hop h
  | writing => exact .of_sublist rfl (.refl _)
  | written device h => exact written_queues (m := m.putDevice device) hm hop h

theorem toldPager_queues {e : Eviction} (hm : m.coremap.Exact) (hop : NeedServes op e.need)
    (h : toldPager m e = .ok p) : Queues op (e.frame :: m.coremap.chain) p := by
  cases toldPager_cases h with
  | orphaned _ _ hfinish _ h | kept _ hfinish h =>
      obtain ⟨hexact, hsub⟩ := finishEviction_queues hm hfinish
      refine (evictionEnded_queues ?_ hop h).mono hsub
      exact hexact

/-! ## Operations -/

/-- **Going on queues.** -/
theorem resume_queues {t : Task} (hm : m.coremap.Exact) (hop : t.Serves op)
    (hplaced : ∀ f, t.filling? = some f → m.coremap.indexOf? f.address = some f.frame)
    (h : resume held m t = .ok p) : Queues op (m.line t.victim?) p := by
  cases t with
  | evictMapping e => exact evicting_queues hm hop (.of_mapping h)
  | evictWriting e i => exact evicting_queues hm hop (.of_writing h)
  | evictTelling e => exact toldPager_queues hm hop h
  | fillMapping f => exact filling_queues hm hop (hplaced f rfl) (.of_mapping h)
  | fillReading f i => exact filling_queues hm hop (hplaced f rfl) (.of_reading h)
  | fillScrubbing f i => exact filling_queues hm hop (hplaced f rfl) (.of_scrubbing h)
  | slotReading slot buffer i => exact hop.elim
  | slotWriting slot data i => exact hop.elim

theorem provide_queues {need : Need} (hm : m.coremap.Exact) (hop : NeedServes op (some need))
    (h : provide m need = .ok p) : Queues op m.coremap.chain p := by
  cases provide_cases h with
  | tooFew _ h => exact unmet_queues h
  | room coremap _ hclaim h => exact met_queues hm hop hclaim h
  | noRoom coremap _ hclaim h =>
      obtain ⟨hexact, hchain⟩ := claimFor_chain hm hop hclaim
      rw [← hchain]
      exact evict_queues (m := { m with coremap }) hexact hop h

theorem free_queues {address : Nat} (hm : m.coremap.Exact) (h : free m address = .ok p) :
    Queues op m.coremap.chain p := by
  have released : ∀ {i answer coremap}, m.coremap.release i = .ok (answer, coremap) →
      coremap.chain.Sublist m.coremap.chain := by
    intro i answer coremap hrelease
    obtain ⟨-, -, hchain⟩ := hm.requeued (.release i) trivial rfl hrelease
    rw [hchain]
    exact List.erase_sublist
  cases free_cases h with
  | noFrame => exact .of_sublist rfl (.refl _)
  | refused _ _ hrelease | freed _ _ hrelease | deferred _ _ hrelease =>
      exact .of_sublist rfl (released hrelease)

/-- **So does starting.** -/
theorem start_queues (hm : m.coremap.Exact) (hop : op.isManaged = true)
    (h : start held m op = .ok p) : Queues op m.coremap.chain p := by
  cases op with
  | allocate kind count page =>
      cases allocate_cases h with
      | refused => exact .of_sublist rfl (.refl _)
      | provided hrequest h => exact provide_queues hm (needServes_request hrequest) h
  | allocateSeen count =>
      cases allocate_cases h with
      | refused => exact .of_sublist rfl (.refl _)
      | provided hrequest h => exact provide_queues hm (needServes_seen hrequest) h
  | evict =>
      have hserves : NeedServes .evict none := rfl
      exact evict_queues hm hserves h
  | pageIn page slot =>
      cases pageIn_cases h with
      | refused => exact .of_sublist rfl (.refl _)
      | held slots _ h =>
          have hserves : NeedServes (.pageIn page slot) (some (.pageIn page slot)) := rfl
          exact provide_queues (m := m.putSlots slots) hm hserves h
  | restore slot address =>
      cases restore_cases h with
      | noFrame | noSlot | filling => exact .of_sublist rfl (.refl _)
  | free address => exact free_queues hm h
  | freeSeen seen =>
      cases freeSeen_cases h with
      | unseen => exact .of_sublist rfl (.refl _)
      | freed _ h => exact free_queues hm h
  | tearDown space =>
      obtain ⟨frames, coremap, cleared, slots, hframes, -, rfl⟩ := tearDown_eq_ok h
      obtain ⟨-, -, hchain⟩ := hm.requeued (.releaseSpace space) trivial rfl hframes
      refine .of_sublist rfl ?_
      show coremap.chain.Sublist _
      rw [hchain]
      exact List.filter_sublist
  | recordTlbSlot address slot =>
      cases recordTlbSlot_cases h with
      | noFrame => exact .of_sublist rfl (.refl _)
      | recorded i _ hset =>
          obtain ⟨-, -, hchain⟩ := hm.requeued (.setTlbSlot i slot) trivial rfl hset
          exact .of_eq rfl hchain
  | readSlot slot buffer => exact nomatch hop
  | writeSlot slot buffer => exact nomatch hop
  | scrubSlot slot => exact nomatch hop

end Task

/-! ## Runs -/

namespace Machine

variable {m : Memory} {w : Machine} {moves : List Move} {events past : List Event} {c : Coremap}
  {op : Operation} {p : Task.Piece}

/-- The chain, with the frame before it that the operation under way is evicting. -/
def line (w : Machine) : List Nat :=
  w.memory.line (w.calls.head?.bind fun call => call.task.victim?)

/-- What a piece hands out is what it shows. -/
theorem arrivals_follow (hsame : c.SameTable p.memory.coremap) :
    arrivals c (follow op [] p).2 = (p.next.arrival? op p.memory.coremap).toList := by
  obtain ⟨memory, notices, next⟩ := p
  cases next with
  | callOut t => cases t <;> rfl
  | reply reply =>
      have hplaces : memory.coremap.indexOf? = c.indexOf? := funext hsame.indexOf?
      show arrivals c [.answered 0 op reply] =
        ((op.handsOut? reply).bind memory.coremap.indexOf?).toList
      rw [arrivals_singleton, hplaces]
      rfl

theorem line_follow : (follow op [] p).1.line = p.memory.line p.next.victim? := by
  obtain ⟨memory, notices, next⟩ := p
  cases next <;> rfl

/-- **What a piece makes of the line** is in the order of the last arrivals if the line was. -/
theorem line_in_order_follow {line : List Nat} (hsame : c.SameTable p.memory.coremap)
    (hp : p.memory.coremap.Exact) (hqueues : Task.Queues op line p)
    (h : line.Sublist (arrivals c past).dedup) :
    (follow op [] p).1.line.Sublist (arrivals c (past ++ (follow op [] p).2)).dedup := by
  obtain ⟨kept, hkept, hline⟩ := hqueues
  rw [line_follow, arrivals, List.filterMap_append, ← arrivals, ← arrivals, arrivals_follow hsame,
    hline]
  cases harrives : p.next.arrival? op p.memory.coremap with
  | none =>
      rw [Option.toList_none, List.append_nil, List.append_nil]
      exact hkept.trans h
  | some i =>
      refine sublist_dedup_concat (hkept.trans h) fun hi => ?_
      -- the piece has ended, so its line is the chain
      have hchain : p.memory.coremap.chain = kept ++ [i] := by
        rw [harrives] at hline
        cases hn : p.next with
        | callOut t =>
            rw [hn] at harrives
            exact nomatch harrives
        | reply reply =>
            rw [hn] at hline
            exact hline
      have hnd := hp.toSound.chain_nodup
      rw [hchain, List.nodup_append] at hnd
      exact hnd.2.2 i hi i (List.mem_singleton_self i) rfl

/-- **A move keeps the line in the order of the last arrivals.** -/
theorem line_step {move : Move} {w' : Machine} {now : List Event} (hs : w.Sound)
    (hintact : w.Intact past) (hexact : w.memory.coremap.Exact)
    (hsame : c.SameTable w.memory.coremap) (hrule : sequential w move = true)
    (hstep : w.step move = .ok (w', now)) (hline : w.line.Sublist (arrivals c past).dedup) :
    w'.line.Sublist (arrivals c (past ++ now)).dedup := by
  have hmanaged := managed_of_sequential hrule
  have hevolves := step_evolves hs hmanaged hstep
  have hexact' := hevolves.exact hexact
  have hsame' := hsame.trans hevolves.table
  cases move with
  | start op =>
      obtain ⟨hempty, hop⟩ := Bool.and_eq_true_iff.mp hrule
      obtain ⟨p, hp, hfollow⟩ := start_cases hstep
      rw [List.isEmpty_iff.mp hempty] at hfollow
      obtain rfl := congrArg Prod.fst hfollow
      obtain rfl := congrArg Prod.snd hfollow
      rw [follow_memory] at hexact' hsame'
      have hchain : w.line = w.memory.coremap.chain := by
        rw [line, List.isEmpty_iff.mp hempty]
        rfl
      rw [hchain] at hline
      exact line_in_order_follow hsame' hexact' (Task.start_queues hexact hop hp) hline
  | resume =>
      rcases resume_cases hstep with ⟨-, rfl, rfl⟩ | ⟨call, outer, p, hcalls, hp, hfollow⟩
      · rw [List.append_nil]
        exact hline
      · obtain rfl := hintact.outer_eq_nil hcalls
        obtain rfl := congrArg Prod.fst hfollow
        obtain rfl := congrArg Prod.snd hfollow
        rw [follow_memory] at hexact' hsame'
        have hmem : call ∈ w.calls := hcalls ▸ List.mem_cons_self
        have hplaced : ∀ f, call.task.filling? = some f →
            w.memory.coremap.indexOf? f.address = some f.frame := by
          intro f hf
          have hunderway := hintact.underway call hmem
          cases ht : call.task <;> rw [ht] at hf hunderway <;> cases hf
          · exact hunderway
          · exact hunderway.1
          · exact hunderway.1
        have hhead : w.line = w.memory.line call.task.victim? := by
          rw [line, hcalls]
          rfl
        rw [hhead] at hline
        exact line_in_order_follow hsame' hexact'
          (Task.resume_queues hexact (hs.serves call hmem) hplaced hp) hline
  | probe probe =>
      obtain ⟨outcome, n, hp, rfl, rfl⟩ := probe_cases hstep
      have hcoremap : n.coremap = w.memory.coremap := (Probe.perform_leaves hmanaged hp).coremap
      rw [List.append_nil]
      show (Memory.line n _).Sublist _
      rw [Memory.line, hcoremap]
      exact hline

/-- Behind every sequential run the frames lie where they lay, and the line is in the order of the
last arrivals. -/
theorem line_of_run (hm : m.IsFresh) (hrun : (idle m).run sequential moves = some (w, events)) :
    m.coremap.SameTable w.memory.coremap ∧
      w.line.Sublist (arrivals m.coremap events).dedup := by
  obtain ⟨count, base, policy, hcreate⟩ := hm.coremap
  refine (run_induction (P := fun w past => (w.Sound ∧ w.Intact past) ∧
    w.memory.coremap.Exact ∧ m.coremap.SameTable w.memory.coremap ∧
    w.line.Sublist (arrivals m.coremap past).dedup) (l := []) ?_ ⟨⟨.idle hm, .idle m⟩,
      Coremap.create_exact hcreate, .refl _, ?_⟩ hrun).2.2
  · rintro w past move w' now ⟨⟨hs, hintact⟩, hexact, hsame, hline⟩ hrule hstep
    have hmanaged := managed_of_sequential hrule
    have hmoved := moved_of_step hs hmanaged hstep
    have hevolves := step_evolves hs hmanaged hstep
    exact ⟨⟨hs.moved hmoved, hintact.moved hs hrule hmoved⟩, hevolves.exact hexact,
      hsame.trans hevolves.table, line_step hs hintact hexact hsame hrule hstep hline⟩
  · show m.coremap.chain.Sublist _
    rw [Coremap.create_chain hcreate]
    exact List.nil_sublist _

/-- **Behind every sequential run the chain is in the order of the last arrivals.** -/
theorem chain_in_order_of_run (hm : m.IsFresh)
    (hrun : (idle m).run sequential moves = some (w, events)) :
    w.memory.coremap.chain.Sublist (arrivals m.coremap events).dedup :=
  (List.sublist_append_right _ _).trans (line_of_run hm hrun).2

/-- Of two frames of the chain the one before the other has arrived before it. -/
theorem oldest_arrived_first {victim x : Nat} {page : Page} (hm : m.IsFresh)
    (hrun : (idle m).run sequential moves = some (w, events))
    (hhead : w.memory.coremap.chain.head? = some victim)
    (hx : w.memory.coremap.HasRole x (.resident page)) (hne : x ≠ victim) :
    [victim, x].Sublist (arrivals m.coremap events).dedup := by
  refine List.Sublist.trans ?_ (chain_in_order_of_run hm hrun)
  obtain ⟨newer, hchain⟩ := List.head?_eq_some_iff.mp hhead
  obtain ⟨l, hl, hmem⟩ := (Intact.of_run hm hrun).1.coremap.chain
  have hxl : x ∈ l := (hmem x).mpr ⟨page, hx⟩
  rw [← hl.chain, hchain] at hxl
  rw [hchain]
  exact (List.singleton_sublist.mpr ((List.mem_cons.mp hxl).resolve_left hne)).cons_cons victim

end Machine

end PhysMem
