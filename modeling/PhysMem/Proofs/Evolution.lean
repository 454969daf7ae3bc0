import PhysMem.Proofs.Calls
import PhysMem.Proofs.Requests

/-!
# Evolution — operations change the coremap by requests

Whatever an operation of the allocator does between two of its call-outs, it does to the coremap by
requests, and no request of more than one frame for a page. So what every request keeps, every move
of the machine keeps.

* **`Coremap.Evolves`** — some requests lead from one coremap to another.
* **`resume_evolves`**, **`start_evolves`** — every piece of an operation evolves the coremap.
* **`Machine.step_evolves`** — so does every move of a sound machine.
* **`Machine.exact_of_run`** — the coremap is exact behind every run of the allocator.
-/

namespace PhysMem

namespace Coremap

/-- Some requests lead from one coremap to the other. -/
def Evolves : Coremap → Coremap → Prop :=
  Relation.ReflTransGen fun m m' => ∃ request answer, Request.IsProper request ∧
    m.perform request = .ok (answer, m')

variable {m m' m'' : Coremap}

theorem Evolves.refl (m : Coremap) : m.Evolves m := Relation.ReflTransGen.refl

theorem Evolves.trans (h : m.Evolves m') (h' : m'.Evolves m'') : m.Evolves m'' :=
  Relation.ReflTransGen.trans h h'

/-- A request evolves the coremap: `x` is what the coremap does, and `f` wraps up its answer. -/
theorem Evolves.one (request : Request) (hr : request.IsProper) {α : Type} {a : α}
    {x : Except Fault α} {f : α → Answer × Coremap}
    (hperform : m.perform request = x >>= fun a => .ok (f a)) (h : x = .ok a) :
    m.Evolves (f a).2 :=
  Relation.ReflTransGen.single
    ⟨request, (f a).1, hr, hperform.trans (Fault.bind_eq_ok.mpr ⟨a, h, rfl⟩)⟩

/-- What every request keeps, evolution keeps. -/
theorem Evolves.exact (hm : m.Exact) (h : m.Evolves m') : m'.Exact := by
  induction h with
  | refl => exact hm
  | tail _ hone ih =>
      obtain ⟨request, answer, hr, hperform⟩ := hone
      exact perform_exact ih hr hperform

end Coremap

namespace Task

open Coremap

variable {m : Memory} {p : Piece} {notices : List Notice} {op : Operation} {held : Bool}

/-! ## Filling a frame from a slot -/

theorem filled_evolves {f : Filling} (h : filled m notices f = .ok p) :
    m.coremap.Evolves p.memory.coremap := by
  cases filled_cases h with
  | unreleased | restored => exact .refl _
  | broughtBack page onChain slots coremap _ _ hunpin =>
      exact .one (.unpin f.frame) trivial rfl hunpin

theorem fillFailed_evolves {f : Filling} {e : SwapError} (h : fillFailed m f e = .ok p) :
    m.coremap.Evolves p.memory.coremap := by
  cases fillFailed_cases h with
  | restore => exact .refl _
  | pageIn page coremap slots _ hdiscard =>
      exact .one (.discardPinned f.frame) trivial rfl hdiscard

theorem filling_evolves {f : Filling} (h : FillingCases m f p) :
    m.coremap.Evolves p.memory.coremap := by
  cases h with
  | full device ram h => exact filled_evolves (m := m.putSectors device ram) h
  | unread device ram h => exact fillFailed_evolves (m := m.putSectors device ram) h
  | reading | scrubbing => exact .refl _

/-! ## Finding room -/

/-- An operation claims several frames for the kernel only. -/
theorem claimFor_evolves {need : Need} {first : Option Nat} {coremap : Coremap}
    (hop : NeedServes op (some need)) (h : claimFor m.coremap need = .ok (first, coremap)) :
    m.coremap.Evolves coremap := by
  cases need with
  | allocate owner count seen => exact .one (.claim owner count) (grants_of_need hop).1 rfl h
  | pageIn page slot => exact .one (.claimPinned page) trivial rfl h

theorem met_evolves {i : Nat} {need : Need} (h : met m notices i need = .ok p) :
    m.coremap.Evolves p.memory.coremap := by
  cases met_cases h with
  | allocated | seen | pageIn => exact .refl _

theorem unmet_evolves {e : FrameError} {need : Need} (h : unmet m notices e need = .ok p) :
    m.coremap.Evolves p.memory.coremap := by
  cases unmet_cases h with
  | allocate | pageIn => exact .refl _

theorem evictionEnded_evolves {need : Option Need} {result : Except EvictError (Nat × Nat)}
    (hop : NeedServes op need) (h : evictionEnded m notices need result = .ok p) :
    m.coremap.Evolves p.memory.coremap := by
  cases evictionEnded_cases h with
  | ended => exact .refl _
  | noVictim h | failed h => exact unmet_evolves h
  | room coremap hclaim h =>
      exact (claimFor_evolves hop hclaim).trans (met_evolves (m := { m with coremap }) h)
  | noRoom coremap hclaim h =>
      exact (claimFor_evolves hop hclaim).trans (unmet_evolves (m := { m with coremap }) h)

/-! ## Evictions -/

theorem putBack_evolves {frame : Nat} {n : Memory} (h : putBack m frame = .ok (n, notices)) :
    m.coremap.Evolves n.coremap := by
  obtain ⟨onChain, coremap, habort, rfl, -⟩ := putBack_eq_ok h
  exact .one (.abortEviction frame) trivial rfl habort

theorem evict_evolves {need : Option Need} (hop : NeedServes op need)
    (h : evict m need = .ok p) : m.coremap.Evolves p.memory.coremap := by
  have detached : ∀ {victim coremap}, m.coremap.detachOldest = .ok (victim, coremap) →
      m.coremap.Evolves coremap := fun hdetach => .one .detachOldest trivial rfl hdetach
  cases evict_cases h with
  | noVictim _ h => exact evictionEnded_evolves hop h
  | noSlot coremap slots n hdetach _ _ hback h =>
      exact (detached hdetach).trans
        ((putBack_evolves hback).trans (evictionEnded_evolves hop h))
  | reserved coremap slots hdetach => exact detached hdetach

theorem writeFailed_evolves {e : Eviction} {cause : SwapError} (hop : NeedServes op e.need)
    (h : writeFailed m e cause = .ok p) : m.coremap.Evolves p.memory.coremap := by
  obtain ⟨owned, slots, n, notices, -, hback, h⟩ := writeFailed_eq_ok h
  exact (putBack_evolves (m := m.putSlots slots) hback).trans (evictionEnded_evolves hop h)

theorem written_evolves {e : Eviction} (hop : NeedServes op e.need) (h : written m e = .ok p) :
    m.coremap.Evolves p.memory.coremap := by
  cases written_cases h with
  | freed slots slots' coremap _ _ _ hfinish _ h =>
      have hfinished : m.coremap.Evolves coremap :=
        .one (.finishEviction e.frame) trivial rfl hfinish
      exact hfinished.trans (evictionEnded_evolves hop h)
  | told => exact .refl _

theorem evicting_evolves {e : Eviction} (hop : NeedServes op e.need) (h : EvictingCases m e p) :
    m.coremap.Evolves p.memory.coremap := by
  cases h with
  | failed device h => exact writeFailed_evolves (m := m.putDevice device) hop h
  | writing => exact .refl _
  | written device h => exact written_evolves (m := m.putDevice device) hop h

theorem toldPager_evolves {e : Eviction} (hop : NeedServes op e.need)
    (h : toldPager m e = .ok p) : m.coremap.Evolves p.memory.coremap := by
  have finished : ∀ {orphaned coremap}, m.coremap.finishEviction e.frame = .ok (orphaned, coremap) →
      m.coremap.Evolves coremap := fun hfinish => .one (.finishEviction e.frame) trivial rfl hfinish
  cases toldPager_cases h with
  | orphaned coremap slots hfinish _ h =>
      exact (finished hfinish).trans (evictionEnded_evolves hop h)
  | kept coremap hfinish h => exact (finished hfinish).trans (evictionEnded_evolves hop h)

/-! ## Operations -/

/-- **Going on evolves the coremap.** -/
theorem resume_evolves {t : Task} (hop : t.Serves op) (h : resume held m t = .ok p) :
    m.coremap.Evolves p.memory.coremap := by
  cases t with
  | evictMapping e => exact evicting_evolves hop (.of_mapping h)
  | evictWriting e i => exact evicting_evolves hop (.of_writing h)
  | evictTelling e => exact toldPager_evolves hop h
  | fillMapping f => exact filling_evolves (.of_mapping h)
  | fillReading f i => exact filling_evolves (.of_reading h)
  | fillScrubbing f i => exact filling_evolves (.of_scrubbing h)
  | slotReading slot buffer i => exact hop.elim
  | slotWriting slot data i => exact hop.elim

theorem provide_evolves {need : Need} (hop : NeedServes op (some need))
    (h : provide m need = .ok p) : m.coremap.Evolves p.memory.coremap := by
  cases provide_cases h with
  | tooFew _ h => exact unmet_evolves h
  | room coremap _ hclaim h =>
      exact (claimFor_evolves hop hclaim).trans (met_evolves (m := { m with coremap }) h)
  | noRoom coremap _ hclaim h =>
      exact (claimFor_evolves hop hclaim).trans (evict_evolves (m := { m with coremap }) hop h)

theorem free_evolves {address : Nat} (h : free m address = .ok p) :
    m.coremap.Evolves p.memory.coremap := by
  cases free_cases h with
  | noFrame => exact .refl _
  | refused i _ hrelease | freed i _ hrelease | deferred i _ hrelease =>
      exact .one (.release i) trivial rfl hrelease

/-- **So does starting.** -/
theorem start_evolves (hop : op.isManaged = true) (h : start held m op = .ok p) :
    m.coremap.Evolves p.memory.coremap := by
  cases op with
  | allocate kind count page =>
      cases allocate_cases h with
      | refused => exact .refl _
      | provided hrequest h => exact provide_evolves (needServes_request hrequest) h
  | allocateSeen count =>
      cases allocate_cases h with
      | refused => exact .refl _
      | provided hrequest h => exact provide_evolves (needServes_seen hrequest) h
  | evict =>
      have hserves : NeedServes .evict none := rfl
      exact evict_evolves hserves h
  | pageIn page slot =>
      cases pageIn_cases h with
      | refused => exact .refl _
      | held slots _ h =>
          have hserves : NeedServes (.pageIn page slot) (some (.pageIn page slot)) := rfl
          exact provide_evolves (m := m.putSlots slots) hserves h
  | restore slot address =>
      cases restore_cases h with
      | noFrame | noSlot | filling => exact .refl _
  | free address => exact free_evolves h
  | freeSeen seen =>
      cases freeSeen_cases h with
      | unseen => exact .refl _
      | freed _ h => exact free_evolves h
  | tearDown space =>
      obtain ⟨frames, coremap, cleared, slots, hframes, -, rfl⟩ := tearDown_eq_ok h
      exact .one (.releaseSpace space) trivial rfl hframes
  | recordTlbSlot address slot =>
      cases recordTlbSlot_cases h with
      | noFrame => exact .refl _
      | recorded i _ hset => exact .one (.setTlbSlot i slot) trivial rfl hset
  | readSlot slot buffer => exact nomatch hop
  | writeSlot slot buffer => exact nomatch hop
  | scrubSlot slot => exact nomatch hop

end Task

namespace Machine

variable {w w' : Machine} {move : Move} {events : List Event}

/-- **Every move of the allocator evolves the coremap.** -/
theorem step_evolves (hw : w.Sound) (hrule : managed w move = true)
    (h : w.step move = .ok (w', events)) :
    w.memory.coremap.Evolves w'.memory.coremap := by
  cases move with
  | start op =>
      obtain ⟨p, hp, hfollow⟩ := start_cases h
      obtain rfl := congrArg Prod.fst hfollow
      rw [follow_memory]
      exact Task.start_evolves hrule hp
  | resume =>
      rcases resume_cases h with ⟨-, rfl, -⟩ | ⟨call, outer, p, hcalls, hp, hfollow⟩
      · exact .refl _
      · obtain rfl := congrArg Prod.fst hfollow
        rw [follow_memory]
        exact Task.resume_evolves (hw.serves call (hcalls ▸ List.mem_cons_self)) hp
  | probe probe =>
      obtain ⟨outcome, m, hp, rfl, -⟩ := probe_cases h
      have hsame : m.coremap = w.memory.coremap := (Probe.perform_leaves hrule hp).coremap
      show w.memory.coremap.Evolves m.coremap
      rw [hsame]
      exact .refl _

/-- Behind every run of the allocator the coremap is exact. -/
theorem exact_of_run {m : Memory} {moves : List Move} (hm : m.IsFresh)
    (h : (Machine.idle m).run managed moves = some (w, events)) : w.memory.coremap.Exact := by
  obtain ⟨count, base, policy, hcreate⟩ := hm.coremap
  -- only of a sound machine is it known that a move evolves the coremap
  refine (run_invariant (P := fun w => w.Sound ∧ w.memory.coremap.Exact) ?_
    ⟨.idle hm, Coremap.create_exact hcreate⟩ h).2
  rintro w move w' events ⟨hw, hexact⟩ hrule hstep
  exact ⟨hw.moved (moved_of_step hw hrule hstep), (step_evolves hw hrule hstep).exact hexact⟩

end Machine

end PhysMem
