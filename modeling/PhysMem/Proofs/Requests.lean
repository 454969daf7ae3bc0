import Mathlib.Logic.Relation
import PhysMem.Proofs.Totality

/-!
# Requests — any sequence of operations on a coremap

What the allocator asks of a coremap is one of a few requests. They may come in any order, and any
number of evictions and page-ins may be under way at once. All that is demanded is that an eviction
is ended for a frame that was detached and a page-in for one that was claimed pinned, once each.

* **`Request`** lists the requests, **`perform`** carries one out, and **`PerformCases`** says by
  which operation.
* **`Reaches`** — what a coremap comes to, and the events on the way. **`inFlight`** reads off the
  events which frames are on their way to or from swap.
* **`perform_exact`** is the step and **`Reaches.exact`** the run lemma.
* **`interleavings_keep_coremap_sound`** — verification never finds a flaw, and no assertion fails.
-/

namespace PhysMem.Coremap

/-- What the allocator asks of a coremap. -/
inductive Request where
  | claim (owner : FrameOwner) (count : Nat)
  | claimPinned (page : Page)
  | detachOldest
  | abortEviction (i : Nat)
  | finishEviction (i : Nat)
  | unpin (i : Nat)
  | discardPinned (i : Nat)
  | release (i : Nat)
  | releaseSpace (space : Nat)
  | setTlbSlot (i : Nat) (slot : Option Nat)
  deriving DecidableEq, Repr

/-- What a coremap answers. -/
inductive Answer where
  /-- The first frame of a run that was claimed. -/
  | claimed (first : Option Nat)
  /-- The victim of an eviction that begins, and the page in it. -/
  | detached (victim : Option (Nat × Page))
  /-- Whether a frame is on the chain again. -/
  | onChain (answer : Bool)
  /-- Whether a frame was orphaned. -/
  | orphaned (answer : Bool)
  | discarded
  | released (answer : Except FrameError Release)
  | swept (freed : Nat)
  | tagged (answer : Except FrameError Unit)

/-- Carries a request out. -/
def perform (m : Coremap) : Request → Except Fault (Answer × Coremap)
  | .claim owner count => do
    let (first, m) ← m.claim owner count
    return (.claimed first, m)
  | .claimPinned page => do
    let (first, m) ← m.claimPinned page
    return (.claimed first, m)
  | .detachOldest => do
    let (victim, m) ← m.detachOldest
    return (.detached victim, m)
  | .abortEviction i => do
    let (answer, m) ← m.abortEviction i
    return (.onChain answer, m)
  | .finishEviction i => do
    let (answer, m) ← m.finishEviction i
    return (.orphaned answer, m)
  | .unpin i => do
    let (answer, m) ← m.unpin i
    return (.onChain answer, m)
  | .discardPinned i => do
    let m ← m.discardPinned i
    return (.discarded, m)
  | .release i => do
    let (answer, m) ← m.release i
    return (.released answer, m)
  | .releaseSpace space => do
    let (freed, m) ← m.releaseSpace space
    return (.swept freed, m)
  | .setTlbSlot i slot => do
    let (answer, m) ← m.setTlbSlot i slot
    return (.tagged answer, m)

/-- A request is one operation, and its answer is what that answers. -/
inductive PerformCases (m : Coremap) : Request → Answer → Coremap → Prop
  | claim (owner : FrameOwner) (count : Nat) (first : Option Nat) {m' : Coremap}
      (h : m.claim owner count = .ok (first, m')) :
      PerformCases m (.claim owner count) (.claimed first) m'
  | claimPinned (page : Page) (first : Option Nat) {m' : Coremap}
      (h : m.claimPinned page = .ok (first, m')) :
      PerformCases m (.claimPinned page) (.claimed first) m'
  | detachOldest (victim : Option (Nat × Page)) {m' : Coremap}
      (h : m.detachOldest = .ok (victim, m')) : PerformCases m .detachOldest (.detached victim) m'
  | abortEviction (i : Nat) (onChain : Bool) {m' : Coremap}
      (h : m.abortEviction i = .ok (onChain, m')) :
      PerformCases m (.abortEviction i) (.onChain onChain) m'
  | finishEviction (i : Nat) (orphaned : Bool) {m' : Coremap}
      (h : m.finishEviction i = .ok (orphaned, m')) :
      PerformCases m (.finishEviction i) (.orphaned orphaned) m'
  | unpin (i : Nat) (onChain : Bool) {m' : Coremap} (h : m.unpin i = .ok (onChain, m')) :
      PerformCases m (.unpin i) (.onChain onChain) m'
  | discardPinned (i : Nat) {m' : Coremap} (h : m.discardPinned i = .ok m') :
      PerformCases m (.discardPinned i) .discarded m'
  | release (i : Nat) (answer : Except FrameError Release) {m' : Coremap}
      (h : m.release i = .ok (answer, m')) : PerformCases m (.release i) (.released answer) m'
  | releaseSpace (space freed : Nat) {m' : Coremap}
      (h : m.releaseSpace space = .ok (freed, m')) :
      PerformCases m (.releaseSpace space) (.swept freed) m'
  | setTlbSlot (i : Nat) (slot : Option Nat) (answer : Except FrameError Unit) {m' : Coremap}
      (h : m.setTlbSlot i slot = .ok (answer, m')) :
      PerformCases m (.setTlbSlot i slot) (.tagged answer) m'

/-- A request and its answer. -/
structure Event where
  request : Request
  answer : Answer

namespace Event

/-- The frame that is on its way from here on: to swap, or from there and pinned. -/
def begins : Event → Option (Bool × Nat)
  | ⟨.detachOldest, .detached (some (i, _))⟩ => some (false, i)
  | ⟨.claimPinned _, .claimed (some i)⟩ => some (true, i)
  | _ => none

/-- The frame that is not on its way any longer. -/
def ends : Event → Option (Bool × Nat)
  | ⟨.abortEviction i, _⟩ | ⟨.finishEviction i, _⟩ => some (false, i)
  | ⟨.unpin i, _⟩ | ⟨.discardPinned i, _⟩ => some (true, i)
  | _ => none

end Event

/-- The frames that were detached, or claimed pinned, and whose eviction or page-in has not ended,
each with whether it is pinned. The newest event comes first. -/
def inFlight : List Event → List (Bool × Nat)
  | [] => []
  | event :: past => event.begins.toList ++ (inFlight past).filter (event.ends ≠ some ·)

/-- Whether a request may be made after these events: an eviction or a page-in is ended once, a run
that is claimed has frames and no more than the table, and all frames named lie in the table. -/
def Allows (m : Coremap) (past : List Event) : Request → Prop
  | .claim .kernel count => 1 ≤ count ∧ count ≤ m.size
  | .claim (.user _) count => count = 1
  | .claimPinned _ | .detachOldest | .releaseSpace _ => True
  | .abortEviction i | .finishEviction i => (false, i) ∈ inFlight past
  | .unpin i | .discardPinned i => (true, i) ∈ inFlight past
  | .release i | .setTlbSlot i _ => i < m.size

/-- What a coremap comes to, by requests that were allowed, with the newest event first. -/
inductive Reaches (m₀ : Coremap) : List Event → Coremap → Prop where
  | start : Reaches m₀ [] m₀
  | step {past : List Event} {m m' : Coremap} {request : Request} {answer : Answer} :
    Reaches m₀ past m → m.Allows past request → m.perform request = .ok (answer, m') →
    Reaches m₀ (⟨request, answer⟩ :: past) m'

/-- Whether a request may be made can be tested. -/
instance allowsDecidable (m : Coremap) (past : List Event) :
    (request : Request) → Decidable (m.Allows past request)
  | .claim .kernel count => inferInstanceAs (Decidable (1 ≤ count ∧ count ≤ m.size))
  | .claim (.user _) count => inferInstanceAs (Decidable (count = 1))
  | .claimPinned _ | .detachOldest | .releaseSpace _ => inferInstanceAs (Decidable True)
  | .abortEviction i | .finishEviction i =>
    inferInstanceAs (Decidable ((false, i) ∈ inFlight past))
  | .unpin i | .discardPinned i => inferInstanceAs (Decidable ((true, i) ∈ inFlight past))
  | .release i | .setTlbSlot i _ => inferInstanceAs (Decidable (i < m.size))

/-- Carries out the listed requests, the last of the list first, as long as they may be made. -/
def follow (m₀ : Coremap) : List Request → Option (List Event × Coremap)
  | [] => some ([], m₀)
  | request :: earlier =>
    match m₀.follow earlier with
    | none => none
    | some (past, m) =>
      if m.Allows past request then
        match m.perform request with
        | .ok (answer, m') => some (⟨request, answer⟩ :: past, m')
        | .error _ => none
      else none

variable {m m' m₀ : Coremap} {i x : Nat} {r s : FrameRole} {page : Page} {pinned : Bool}
  {request : Request} {answer : Answer} {past : List Event}

/-! ## One request -/

/-- One frame is claimed at a time for a page. -/
def Request.IsProper : Request → Prop
  | .claim owner count => owner = .kernel ∨ count = 1
  | _ => True

theorem Allows.isProper (h : m.Allows past request) : request.IsProper := by
  cases request with
  | claim owner count =>
      cases owner with
      | kernel => exact Or.inl rfl
      | user page => exact Or.inr h
  | _ => trivial

theorem perform_cases (h : m.perform request = .ok (answer, m')) :
    PerformCases m request answer m' := by
  cases request with
  | claim owner count =>
      obtain ⟨⟨first, m₁⟩, h₁, h⟩ := Fault.bind_eq_ok.mp h
      cases h
      exact .claim owner count first h₁
  | claimPinned page =>
      obtain ⟨⟨first, m₁⟩, h₁, h⟩ := Fault.bind_eq_ok.mp h
      cases h
      exact .claimPinned page first h₁
  | detachOldest =>
      obtain ⟨⟨victim, m₁⟩, h₁, h⟩ := Fault.bind_eq_ok.mp h
      cases h
      exact .detachOldest victim h₁
  | abortEviction i =>
      obtain ⟨⟨onChain, m₁⟩, h₁, h⟩ := Fault.bind_eq_ok.mp h
      cases h
      exact .abortEviction i onChain h₁
  | finishEviction i =>
      obtain ⟨⟨orphaned, m₁⟩, h₁, h⟩ := Fault.bind_eq_ok.mp h
      cases h
      exact .finishEviction i orphaned h₁
  | unpin i =>
      obtain ⟨⟨onChain, m₁⟩, h₁, h⟩ := Fault.bind_eq_ok.mp h
      cases h
      exact .unpin i onChain h₁
  | discardPinned i =>
      obtain ⟨m₁, h₁, h⟩ := Fault.bind_eq_ok.mp h
      cases h
      exact .discardPinned i h₁
  | release i =>
      obtain ⟨⟨answer, m₁⟩, h₁, h⟩ := Fault.bind_eq_ok.mp h
      cases h
      exact .release i answer h₁
  | releaseSpace space =>
      obtain ⟨⟨freed, m₁⟩, h₁, h⟩ := Fault.bind_eq_ok.mp h
      cases h
      exact .releaseSpace space freed h₁
  | setTlbSlot i slot =>
      obtain ⟨⟨answer, m₁⟩, h₁, h⟩ := Fault.bind_eq_ok.mp h
      cases h
      exact .setTlbSlot i slot answer h₁

/-- **Every request keeps a coremap exact.** -/
theorem perform_exact (hm : m.Exact) (hr : request.IsProper)
    (h : m.perform request = .ok (answer, m')) : m'.Exact := by
  cases perform_cases h with
  | claim owner count first h₁ =>
      cases owner with
      | kernel => exact hm.claim_kernel h₁
      | user page =>
          obtain rfl : count = 1 := hr.resolve_left nofun
          exact hm.claim_user h₁
  | claimPinned page first h₁ => exact hm.claimPinned h₁
  | detachOldest victim h₁ => exact hm.detachOldest h₁
  | abortEviction i onChain h₁ => exact hm.abortEviction h₁
  | finishEviction i orphaned h₁ => exact hm.finishEviction h₁
  | unpin i onChain h₁ => exact hm.unpin h₁
  | discardPinned i h₁ => exact hm.discardPinned h₁
  | release i answer h₁ => exact hm.release h₁
  | releaseSpace space freed h₁ => exact hm.releaseSpace h₁
  | setTlbSlot i slot answer h₁ => exact hm.setTlbSlot h₁

/-- No request moves the frames. -/
theorem perform_table (h : m.perform request = .ok (answer, m')) : m.SameTable m' := by
  cases perform_cases h with
  | claim owner count first h₁ =>
      rcases claim_ok h₁ with ⟨-, halike⟩ | ⟨start, stop, -, hclaims, -⟩
      · exact halike.toSameTable
      · exact hclaims.toSameTable
  | claimPinned page first h₁ =>
      rcases claimRun_ok h₁ with ⟨-, halike⟩ | ⟨start, stop, -, hclaims, -⟩
      · exact halike.toSameTable
      · exact hclaims.toSameTable
  | detachOldest victim h₁ =>
      cases victim with
      | none =>
          rw [detachOldest_none h₁]
          exact .refl m
      | some found =>
          obtain ⟨-, u, -, -, hput⟩ := detachOldest_ok h₁
          exact hput.toSameTable
  | abortEviction i onChain h₁ =>
      obtain ⟨u, -, -, -, hput⟩ := abortEviction_ok h₁
      exact hput.toSameTable
  | finishEviction i orphaned h₁ => exact (finishEviction_ok h₁).2.toSameTable
  | unpin i onChain h₁ =>
      obtain ⟨u, -, -, -, hput⟩ := unpin_ok h₁
      exact hput.toSameTable
  | discardPinned i h₁ => exact (discardPinned_ok h₁).2.toSameTable
  | release i answer h₁ => exact release_table h₁
  | releaseSpace space freed h₁ => exact (releaseSpace_ok h₁).1
  | setTlbSlot i slot answer h₁ => exact (setTlbSlot_alike h₁).toSameTable

/-! ## Frames in flight -/

/-- Frame `i` is being evicted, or is pinned. -/
def InTransit (m : Coremap) (pinned : Bool) (i : Nat) : Prop :=
  ∃ page orphaned, m.HasRole i (.transit pinned page orphaned)

/-- Being evicted or pinned is part of the role. -/
theorem inTransit_iff (h : m.HasRole i r) :
    m.InTransit pinned i ↔ ∃ page orphaned, r = .transit pinned page orphaned := by
  constructor
  · rintro ⟨page, orphaned, h'⟩
    exact ⟨page, orphaned, h.unique h'⟩
  · rintro ⟨page, orphaned, rfl⟩
    exact ⟨page, orphaned, h⟩

theorem inTransit_other (hput : m.Puts i s.use m') (hx : x ≠ i) :
    m'.InTransit pinned x ↔ m.InTransit pinned x :=
  exists_congr fun _ => exists_congr fun _ => hput.role_other hx

/-- A frame that was not in flight is from now on. -/
theorem inTransit_begins {p orphaned : Bool} (h : m.HasRole i r)
    (hr : ∀ p page orphaned, r ≠ .transit p page orphaned)
    (hput : m.Puts i (FrameRole.transit p page orphaned).use m') :
    m'.InTransit pinned x ↔ some (p, i) = some (pinned, x) ∨ m.InTransit pinned x := by
  by_cases hx : x = i
  · subst hx
    have hnot : ¬ m.InTransit pinned x := by
      rw [inTransit_iff h]
      rintro ⟨q, o, rfl⟩
      exact hr pinned q o rfl
    rw [inTransit_iff hput.role_self]
    simp [hnot]
  · have hne : ¬ i = x := fun he => hx he.symm
    rw [inTransit_other hput hx]
    simp [hne]

/-- A frame that was in flight is not any longer. -/
theorem inTransit_ends {p orphaned : Bool} (h : m.HasRole i (.transit p page orphaned))
    (hput : m.Puts i s.use m') (hs : ∀ p page orphaned, s ≠ .transit p page orphaned) :
    m'.InTransit pinned x ↔ m.InTransit pinned x ∧ some (p, i) ≠ some (pinned, x) := by
  by_cases hx : x = i
  · subst hx
    have hnot : ¬ m'.InTransit pinned x := by
      rw [inTransit_iff hput.role_self]
      rintro ⟨q, o, he⟩
      exact hs pinned q o he
    rw [inTransit_iff h]
    simp [hnot]
  · have hne : ¬ i = x := fun he => hx he.symm
    rw [inTransit_other hput hx]
    simp [hne]

theorem inTransit_alike (h : m.Alike m') : m'.InTransit pinned x ↔ m.InTransit pinned x :=
  exists_congr fun _ => exists_congr fun _ => h.role

/-- A step after which every frame is in flight as before. -/
theorem inTransit_of_roles (hm : m.Sound) (hsize : m'.size = m.size)
    (h : ∀ x r, m.HasRole x r → m'.HasRole x r ∨ m'.HasRole x r.givenUp) :
    m'.InTransit pinned x ↔ m.InTransit pinned x := by
  constructor
  · rintro ⟨page, orphaned, h'⟩
    have hx : x < m.frames.size := Nat.lt_of_lt_of_eq (lt_size_of_use? h') hsize
    obtain ⟨r, hr, -⟩ := hm.hasRole (use?_of_getElem? (Array.getElem?_eq_getElem hx))
    -- a role that was given up is in transit only if it was before
    have hsame : r = .transit pinned page orphaned ∨ r.givenUp = .transit pinned page orphaned :=
      (h x r hr).imp (·.unique h') (·.unique h')
    cases r with
    | transit pinned' page' orphaned' =>
        obtain rfl : pinned' = pinned := by
          rcases hsame with he | he <;> cases he <;> rfl
        exact ⟨page', orphaned', hr⟩
    | free => rcases hsame with he | he <;> exact nomatch he
    | kernel tail => rcases hsame with he | he <;> exact nomatch he
    | resident page' => rcases hsame with he | he <;> exact nomatch he
  · rintro ⟨page, orphaned, hr⟩
    rcases h x _ hr with h' | h'
    · exact ⟨page, orphaned, h'⟩
    · exact ⟨page, true, h'⟩

/-- **Which frames a request sends on their way**, and which it brings back. -/
theorem perform_inTransit (hm : m.Sound) (hr : request.IsProper)
    (h : m.perform request = .ok (answer, m')) :
    m'.InTransit pinned x ↔ Event.begins ⟨request, answer⟩ = some (pinned, x) ∨
      (m.InTransit pinned x ∧ Event.ends ⟨request, answer⟩ ≠ some (pinned, x)) := by
  -- most requests begin nothing and end nothing
  have unmoved : ∀ {event : Event}, event.begins = none → event.ends = none →
      (m'.InTransit pinned x ↔ m.InTransit pinned x) →
      (m'.InTransit pinned x ↔ event.begins = some (pinned, x) ∨
        (m.InTransit pinned x ∧ event.ends ≠ some (pinned, x))) := by
    intro event hb he hsame
    rw [hb, he, hsame]
    simp
  have ended : ∀ {event : Event} {p orphaned : Bool} {i : Nat} {page : Page} {s : FrameRole},
      event.begins = none → event.ends = some (p, i) → m.HasRole i (.transit p page orphaned) →
      m.Puts i s.use m' → (∀ p page orphaned, s ≠ .transit p page orphaned) →
      (m'.InTransit pinned x ↔ event.begins = some (pinned, x) ∨
        (m.InTransit pinned x ∧ event.ends ≠ some (pinned, x))) := by
    intro event p orphaned i page s hb he hrole hput hs
    rw [hb, he, inTransit_ends hrole hput hs]
    simp
  cases perform_cases h with
  | claim owner count first h₁ =>
      obtain ⟨-, -, huse⟩ := hm.claim hr h₁
      refine unmoved rfl rfl ?_
      unfold InTransit HasRole
      rcases huse x with he | ⟨hfree, hnew⟩
      · rw [he]
      · constructor
        · rintro ⟨page, orphaned, h'⟩
          rcases hnew with ⟨tail, hk⟩ | ⟨q, -, hq⟩
          · exact nomatch hk.unique h'
          · exact nomatch hq.unique h'
        · rintro ⟨page, orphaned, h'⟩
          exact nomatch hfree.unique h'
  | claimPinned page first h₁ =>
      obtain ⟨-, ⟨rfl, halike⟩ | ⟨i, rfl, hfree, hput⟩⟩ := hm.claimPinned h₁
      · exact unmoved rfl rfl (inTransit_alike halike)
      · rw [inTransit_begins hfree nofun hput]
        simp [Event.begins, Event.ends]
  | detachOldest victim h₁ =>
      cases victim with
      | none => exact unmoved rfl rfl (by rw [detachOldest_none h₁])
      | some found =>
          obtain ⟨-, hres, hput⟩ := hm.detachOldest h₁
          rw [inTransit_begins hres nofun hput]
          simp [Event.begins, Event.ends]
  | abortEviction i onChain h₁ =>
      obtain ⟨-, page, orphaned, hrole, -, hput⟩ := hm.abortEviction h₁
      exact ended rfl rfl hrole hput (by cases orphaned <;> exact nofun)
  | finishEviction i orphaned h₁ =>
      obtain ⟨-, page, hrole, hput⟩ := hm.finishEviction h₁
      exact ended rfl rfl hrole hput nofun
  | unpin i onChain h₁ =>
      obtain ⟨-, page, orphaned, hrole, -, hput⟩ := hm.unpin h₁
      exact ended rfl rfl hrole hput (by cases orphaned <;> exact nofun)
  | discardPinned i h₁ =>
      obtain ⟨-, page, orphaned, hrole, hput⟩ := hm.discardPinned h₁
      exact ended rfl rfl hrole hput nofun
  | release i answer h₁ =>
      exact unmoved rfl rfl (inTransit_of_roles hm (release_table h₁).size (hm.release h₁).2)
  | releaseSpace space freed h₁ =>
      refine unmoved rfl rfl (inTransit_of_roles hm (releaseSpace_ok h₁).1.size fun x r hr => ?_)
      have h' := (hm.releaseSpace h₁).2 x r hr
      unfold roleAfter at h'
      split at h'
      · exact Or.inr h'
      · exact Or.inl h'
  | setTlbSlot i slot answer h₁ => exact unmoved rfl rfl (inTransit_alike (setTlbSlot_alike h₁))

/-! ## Sequences of requests -/

theorem mem_inFlight {event : Event} {frame : Bool × Nat} :
    frame ∈ inFlight (event :: past) ↔
      event.begins = some frame ∨ (frame ∈ inFlight past ∧ event.ends ≠ some frame) := by
  rw [inFlight, List.mem_append, Option.mem_toList, List.mem_filter, decide_eq_true_eq]

/-- What is come to by following a list is reached. -/
theorem reaches_of_follow {requests : List Request} (h : m₀.follow requests = some (past, m)) :
    m₀.Reaches past m := by
  induction requests generalizing past m with
  | nil =>
      cases h
      exact .start
  | cons request earlier ih =>
      unfold follow at h
      split at h
      · cases h
      · next hearlier =>
          split at h
          · next hallows =>
              split at h
              · next hperform =>
                  cases h
                  exact .step (ih hearlier) hallows hperform
              · cases h
          · cases h

/-- **What every sequence of requests keeps**: the coremap is exact, its frames are where they were,
and those in flight are the ones that the events say. -/
theorem Reaches.exact {count base : Nat} {policy : PlacementPolicy}
    (hnew : create count base (.ofPolicy policy) = .ok m₀) (h : m₀.Reaches past m) :
    m.Exact ∧ m₀.SameTable m ∧
      ∀ pinned i, m.InTransit pinned i ↔ (pinned, i) ∈ inFlight past := by
  induction h with
  | start =>
      refine ⟨create_exact hnew, .refl m₀, fun pinned i => ⟨?_, fun hmem => ?_⟩⟩
      · rintro ⟨page, orphaned, hrole⟩
        exact nomatch (create_sound hnew).2 i _ hrole
      · exact absurd hmem List.not_mem_nil
  | step _ hallows hperform ih =>
      obtain ⟨hm, htable, hflight⟩ := ih
      refine ⟨perform_exact hm hallows.isProper hperform,
        htable.trans (perform_table hperform), fun pinned i => ?_⟩
      rw [perform_inTransit hm.toSound hallows.isProper hperform, mem_inFlight, hflight]

/-- **No assertion fails**: a request that is allowed can only overflow. -/
theorem perform_onlyOverflows (hm : m.Exact)
    (hflight : ∀ pinned i, m.InTransit pinned i ↔ (pinned, i) ∈ inFlight past)
    (hallows : m.Allows past request) : Fault.OnlyOverflows m.Fits (m.perform request) := by
  cases request with
  | claim owner count =>
      cases owner with
      | kernel =>
          obtain ⟨hpos, hle⟩ : 1 ≤ count ∧ count ≤ m.size := hallows
          refine .bind (hm.claim_onlyOverflows hpos (fun hfits => ?_) (Or.inl rfl)) fun _ _ => .ok _
          exact hfits.add_lt (Nat.le_succ_of_le hle)
      | user page =>
          obtain rfl : count = 1 := hallows
          refine .bind (hm.claim_onlyOverflows Nat.one_pos (fun hfits => ?_) (Or.inr rfl))
            fun _ _ => .ok _
          exact hfits.add_lt (Nat.le_add_left 1 _)
  | claimPinned page =>
      refine .bind (hm.claimRun_onlyOverflows Nat.one_pos fun hfits => ?_) fun _ _ => .ok _
      exact hfits.add_lt (Nat.le_add_left 1 _)
  | detachOldest => exact .bind hm.detachOldest_onlyOverflows fun _ _ => .ok _
  | abortEviction i =>
      obtain ⟨page, orphaned, hrole⟩ := (hflight false i).mpr hallows
      exact .bind (hm.abortEviction_onlyOverflows hrole) fun _ _ => .ok _
  | finishEviction i =>
      obtain ⟨page, orphaned, hrole⟩ := (hflight false i).mpr hallows
      exact .bind (hm.finishEviction_onlyOverflows hrole) fun _ _ => .ok _
  | unpin i =>
      obtain ⟨page, orphaned, hrole⟩ := (hflight true i).mpr hallows
      exact .bind (hm.unpin_onlyOverflows hrole) fun _ _ => .ok _
  | discardPinned i =>
      obtain ⟨page, orphaned, hrole⟩ := (hflight true i).mpr hallows
      exact .bind (hm.discardPinned_onlyOverflows hrole) fun _ _ => .ok _
  | release i => exact .bind (hm.release_onlyOverflows hallows) fun _ _ => .ok _
  | releaseSpace space => exact .bind hm.releaseSpace_onlyOverflows fun _ _ => .ok _
  | setTlbSlot i slot => exact .bind (setTlbSlot_onlyOverflows hallows) fun _ _ => .ok _

/-- What is reached lies where the table was created. -/
theorem Reaches.laid {count base : Nat} {policy : PlacementPolicy}
    (hnew : create count base (.ofPolicy policy) = .ok m₀) (h : m₀.Reaches past m) :
    m.base = base ∧ m.size = count := by
  obtain ⟨-, htable, -⟩ := h.exact hnew
  rw [htable.base, htable.size]
  unfold create at hnew
  split at hnew
  · cases hnew
    exact ⟨rfl, Array.size_replicate⟩
  · exact nomatch hnew

/-- A request that is allowed has an answer if the addresses of all frames fit a word. -/
theorem Reaches.perform_total {count base : Nat} {policy : PlacementPolicy}
    (hnew : create count base (.ofPolicy policy) = .ok m₀) (h : m₀.Reaches past m)
    (hallows : m.Allows past request)
    (hfits : base + Address.frameSize * count ≤ Word.span Word.bits) :
    ∃ answer m', m.perform request = .ok (answer, m') := by
  obtain ⟨hm, -, hflight⟩ := h.exact hnew
  obtain ⟨rfl, rfl⟩ := h.laid hnew
  obtain ⟨⟨answer, m'⟩, hperform⟩ := (perform_onlyOverflows hm hflight hallows).exists_ok hfits
  exact ⟨answer, m', hperform⟩

/-! ## Descriptors -/

/-- What is true of the descriptor `d` of frame `i`, whatever is under way. -/
structure Tidy (m : Coremap) (i : Nat) (d : Descriptor) : Prop where
  free : d.allocated = false → d = .free
  transit : d.evicting = true ∨ d.pinned = true →
    d.kind? = some .user ∧ d.prev = none ∧ d.next = none
  apart : ¬ (d.evicting = true ∧ d.pinned = true)
  orphaned : d.orphaned = true → d.evicting = true ∨ d.pinned = true
  tail : d.tail = true → ∃ d', m.frames[i + 1]? = some d' ∧ d'.kind? = some .kernel

/-- The descriptor of a free frame is free in every field. -/
theorem Exact.eq_free {d : Descriptor} (hm : m.Exact) (hd : m.frames[i]? = some d)
    (hr : m.HasRole i .free) : d = .free := by
  have huse : d.use = FrameRole.free.use :=
    Option.some.inj ((use?_of_getElem? hd).symm.trans hr)
  have htlb := hm.untagged i d hd (congrArg Descriptor.allocated huse)
  have hlink := hm.toSound.link_of_loose hr nofun
  unfold link? at hlink
  rw [hd] at hlink
  obtain ⟨hprev, hnext⟩ := Prod.mk.inj (Option.some.inj hlink)
  cases d
  simp only [Descriptor.use, FrameRole.use, Descriptor.free, Descriptor.mk.injEq] at huse ⊢
  simp_all

theorem Exact.tidy {d : Descriptor} (hm : m.Exact) (hd : m.frames[i]? = some d) : m.Tidy i d := by
  obtain ⟨r, hr, huse⟩ := hm.toSound.hasRole (use?_of_getElem? hd)
  -- the descriptor shows its role and its links, so each fact is one about roles
  have hlink : (∀ page, r ≠ .resident page) → d.prev = none ∧ d.next = none := by
    intro hloose
    have := hm.toSound.link_of_loose hr hloose
    unfold link? at this
    rw [hd] at this
    exact Prod.mk.inj (Option.some.inj this)
  have halloc : d.allocated = r.use.allocated := by rw [← huse]; rfl
  have hkind : d.kind? = r.use.kind? := by rw [← huse]; rfl
  have htail : d.tail = r.use.tail := by rw [← huse]; rfl
  have hevict : d.evicting = r.use.evicting := by rw [← huse]; rfl
  have horphan : d.orphaned = r.use.orphaned := by rw [← huse]; rfl
  have hpin : d.pinned = r.use.pinned := by rw [← huse]; rfl
  refine ⟨fun hfree => ?_, ?_, ?_, ?_, fun htrue => ?_⟩
  · obtain rfl := FrameRole.of_free (halloc.symm.trans hfree)
    exact hm.eq_free hd hr
  · rw [hevict, hpin, hkind]
    cases r with
    | transit pinned page orphaned => exact fun _ => ⟨rfl, hlink nofun⟩
    | free => exact nofun
    | kernel tail => exact nofun
    | resident page => exact nofun
  · rw [hevict, hpin]
    cases r with
    | transit pinned page orphaned => cases pinned <;> exact nofun
    | free => exact nofun
    | kernel tail => exact nofun
    | resident page => exact nofun
  · rw [horphan, hevict, hpin]
    cases r with
    | transit pinned page orphaned =>
        cases pinned with
        | true => exact fun _ => Or.inr rfl
        | false => exact fun _ => Or.inl rfl
    | free => exact nofun
    | kernel tail => exact nofun
    | resident page => exact nofun
  · rw [htail] at htrue
    cases r with
    | kernel tail =>
        obtain rfl : tail = true := htrue
        obtain ⟨tail', hnext⟩ := hm.run i hr
        obtain ⟨d', hd', huse'⟩ := hnext.frame
        exact ⟨d', frame_ok hd', (congrArg Descriptor.kind? huse' : d'.use.kind? = _)⟩
    | free => exact nomatch htrue
    | resident page => exact nomatch htrue
    | transit pinned page orphaned => exact nomatch htrue

/-! ## The result -/

/-- **Whatever is interleaved, a coremap stays sound.** For every number of frames and either
policy, after any sequence of requests, with any number of evictions and page-ins in flight,
verification finds no flaw and every descriptor is tidy. A request that may be made next does not
stop on an assertion: it has a result unless a sum or a product leaves its word, and none does if
the addresses of all frames fit a word. -/
theorem interleavings_keep_coremap_sound {count base : Nat} {policy : PlacementPolicy}
    (hnew : create count base (.ofPolicy policy) = .ok m₀) (h : m₀.Reaches past m) :
    m.flaw? = none ∧ (∀ (i : Nat) d, m.frames[i]? = some d → m.Tidy i d) ∧
      ∀ request, m.Allows past request →
        (∀ fault, m.perform request = .error fault →
          fault = .overflow .add ∨ fault = .overflow .multiply) ∧
        (base + Address.frameSize * count ≤ Word.span Word.bits →
          ∃ answer m', m.perform request = .ok (answer, m')) := by
  obtain ⟨hm, -, hflight⟩ := h.exact hnew
  refine ⟨hm.flaw?_eq_none, fun i d hd => hm.tidy hd, fun request hallows => ?_⟩
  have hover := perform_onlyOverflows hm hflight hallows
  refine ⟨fun fault hfault => (hover fault hfault).2, fun hfits => ?_⟩
  exact h.perform_total hnew hallows hfits

/-- Three free frames. -/
def threeFrames : Coremap where
  frames := Array.replicate 3 .free
  base := Address.frameSize
  placement := .firstFit

/-- Around a kernel frame, one page is being evicted and another filled when both are torn down, and
yet the eviction and the page-in can be ended. -/
theorem interleavings_keep_coremap_sound_in_flight :
    ∃ past m, threeFrames.Reaches past m ∧ inFlight past = [(true, 2), (false, 0)] ∧
      m.flaw? = none ∧ (∃ answer m', m.perform (.finishEviction 0) = .ok (answer, m')) ∧
      ∃ answer m', m.perform (.unpin 2) = .ok (answer, m') := by
  have hevents : (threeFrames.follow [.releaseSpace 1, .claimPinned ⟨1, 1⟩, .detachOldest,
      .claim .kernel 1, .claim (.user ⟨1, 0⟩) 1]).map (inFlight ·.1) =
      some [(true, 2), (false, 0)] := by decide +kernel
  obtain ⟨⟨past, m⟩, hfollow, hflight⟩ := Option.map_eq_some_iff.mp hevents
  have hreaches := reaches_of_follow hfollow
  have hnew : create 3 Address.frameSize (.ofPolicy .firstFit) = .ok threeFrames := rfl
  obtain ⟨hflaw, -, hnext⟩ := interleavings_keep_coremap_sound hnew hreaches
  have hin : ∀ frame, frame ∈ [(true, 2), (false, 0)] → frame ∈ inFlight past := by
    rw [← hflight]
    exact fun frame hmem => hmem
  have hfits : Address.frameSize + Address.frameSize * 3 ≤ Word.span Word.bits := by decide
  exact ⟨past, m, hreaches, hflight, hflaw, (hnext (.finishEviction 0) (hin _ (by decide))).2 hfits,
    (hnext (.unpin 2) (hin _ (by decide))).2 hfits⟩

end PhysMem.Coremap
