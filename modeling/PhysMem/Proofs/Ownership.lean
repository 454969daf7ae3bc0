import Mathlib.Data.List.Pairwise
import PhysMem.Memory.Task
import PhysMem.Proofs.Requests

/-!
# Ownership — the runs of frames that are out, and what frees them

A coremap knows of a run only what its descriptors say: each frame of it but the last is marked as
followed by another of the run. Here a ledger is kept beside the requests, of the runs that were
claimed and are not free yet, and the coremap is shown to agree with it whatever is interleaved.

* **`FrameRun`** is an entry of the ledger, **`ledger`** lists what is left after some events.
  An event enters a run (**`Event.claims?`**) or changes runs (**`Event.change`**).
* **`Books`** says that a coremap agrees with a ledger. **`Books.perform`** is the step and
  **`Reaches.books`** the run lemma.
* **`Books.release`** — what the release of a frame comes to, read off the ledger.
* **`frames_are_freed_as_claimed`** puts the ledger, claims, releases and the free operation
  together.
-/

namespace PhysMem

/-- How far a user frame has come on its way back. -/
inductive Tenure where
  | settled
  /-- On its way to or from swap. -/
  | inTransit
  /-- On its way to or from swap, and given up by its owner meanwhile. -/
  | orphaned
  deriving DecidableEq, Repr

/-- A run of frames that was claimed and is not free yet. User frames are claimed one by one, and
only they are ever in transit. -/
inductive FrameRun where
  | kernel (first count : Nat)
  | user (frame : Nat) (page : Page) (tenure : Tenure)
  deriving DecidableEq, Repr

namespace FrameRun

def first : FrameRun → Nat
  | .kernel first _ => first
  | .user frame _ _ => frame

def count : FrameRun → Nat
  | .kernel _ count => count
  | .user .. => 1

def tenure : FrameRun → Tenure
  | .kernel .. => .settled
  | .user _ _ tenure => tenure

/-- Frame `x` is one of the run. -/
def Covers (run : FrameRun) (x : Nat) : Prop := run.first ≤ x ∧ x < run.first + run.count

/-- A frame of the run `x` is in role `r`. -/
def Plays (run : FrameRun) (x : Nat) (r : FrameRole) : Prop :=
  match run with
  | .kernel first count => r = .kernel (x + 1 != first + count)
  | .user _ page .settled => r = .resident page
  | .user _ page .inTransit => ∃ pinned, r = .transit pinned page false
  | .user _ page .orphaned => ∃ pinned, r = .transit pinned page true

/-- Whether the run is a frame of the address space. -/
def isOf (run : FrameRun) (space : Nat) : Bool :=
  match run with
  | .kernel .. => false
  | .user _ page _ => page.space == space

theorem Plays.ne_free {run : FrameRun} {x : Nat} {r : FrameRole} (h : run.Plays x r) :
    r ≠ .free := by
  cases run with
  | kernel first count =>
      cases h
      exact nofun
  | user frame page tenure =>
      cases tenure with
      | settled =>
          cases h
          exact nofun
      | inTransit =>
          obtain ⟨pinned, rfl⟩ := h
          exact nofun
      | orphaned =>
          obtain ⟨pinned, rfl⟩ := h
          exact nofun

theorem covers_user {frame x : Nat} {page : Page} {tenure : Tenure} :
    (FrameRun.user frame page tenure).Covers x ↔ x = frame := by
  unfold Covers first count
  dsimp only
  omega

/-- A run with a frame that is not the kernel's is that frame. -/
theorem Plays.eq_user {run : FrameRun} {x : Nat} {r : FrameRole} (h : run.Plays x r)
    (hx : run.Covers x) (hr : ∀ tail, r ≠ .kernel tail) :
    ∃ page tenure, run = .user x page tenure := by
  cases run with
  | kernel first count => exact absurd h (hr _)
  | user frame page tenure =>
      obtain rfl := covers_user.mp hx
      exact ⟨page, tenure, rfl⟩

/-- A run with a frame of the kernel's is one of the kernel's. -/
theorem Plays.eq_kernel {run : FrameRun} {x : Nat} {tail : Bool}
    (h : run.Plays x (.kernel tail)) :
    ∃ first count, run = .kernel first count ∧ tail = (x + 1 != first + count) := by
  cases run with
  | kernel first count => exact ⟨first, count, rfl, FrameRole.kernel.inj h⟩
  | user frame page tenure =>
      cases tenure with
      | settled => exact nomatch h
      | inTransit =>
          obtain ⟨pinned, h⟩ := h
          exact nomatch h
      | orphaned =>
          obtain ⟨pinned, h⟩ := h
          exact nomatch h

theorem plays_resident {frame x : Nat} {page page' : Page} {tenure : Tenure} :
    (FrameRun.user frame page tenure).Plays x (.resident page') ↔
      page = page' ∧ tenure = .settled := by
  cases tenure with
  | settled =>
      refine ⟨fun h => ⟨(FrameRole.resident.inj h).symm, rfl⟩, ?_⟩
      rintro ⟨rfl, -⟩
      rfl
  | inTransit =>
      refine ⟨?_, fun h => nomatch h.2⟩
      rintro ⟨pinned, h⟩
      exact nomatch h
  | orphaned =>
      refine ⟨?_, fun h => nomatch h.2⟩
      rintro ⟨pinned, h⟩
      exact nomatch h

theorem plays_transit {frame x : Nat} {page page' : Page} {tenure : Tenure}
    {pinned orphaned : Bool} :
    (FrameRun.user frame page tenure).Plays x (.transit pinned page' orphaned) ↔
      page = page' ∧ tenure = if orphaned then .orphaned else .inTransit := by
  cases tenure with
  | settled =>
      refine ⟨nofun, fun h => ?_⟩
      cases orphaned <;> exact nomatch h.2
  | inTransit =>
      constructor
      · rintro ⟨pinned', h⟩
        cases h
        exact ⟨rfl, rfl⟩
      · rintro ⟨rfl, h⟩
        cases orphaned with
        | true => exact nomatch h
        | false => exact ⟨pinned, rfl⟩
  | orphaned =>
      constructor
      · rintro ⟨pinned', h⟩
        cases h
        exact ⟨rfl, rfl⟩
      · rintro ⟨rfl, h⟩
        cases orphaned with
        | true => exact ⟨pinned, rfl⟩
        | false => exact nomatch h

/-! ## What becomes of a run -/

/-- The frame goes on its way to swap. -/
def detached : FrameRun → Option FrameRun
  | .user frame page _ => some (.user frame page .inTransit)
  | run => some run

/-- The frame is back from its way, and free if it was orphaned. -/
def cameBack : FrameRun → Option FrameRun
  | .user _ _ .orphaned => none
  | .user frame page _ => some (.user frame page .settled)
  | run => some run

/-- The run is given up: a frame in transit is orphaned, all else is free. -/
def givenUp : FrameRun → Option FrameRun
  | .user _ _ .settled | .kernel .. => none
  | .user frame page _ => some (.user frame page .orphaned)

/-- A run that is given up keeps its frames, if it keeps any. -/
theorem givenUp_same {run left : FrameRun} (h : run.givenUp = some left) :
    left.first = run.first ∧ left.count = run.count := by
  cases run with
  | kernel first count => exact nomatch h
  | user frame page tenure => cases tenure <;> cases h <;> exact ⟨rfl, rfl⟩

/-- The frames of a run that is given up are given up. -/
theorem Plays.givenUp {run : FrameRun} {x : Nat} {r : FrameRole} (h : run.Plays x r) :
    match run.givenUp with
    | none => r.givenUp = .free
    | some left => left.Plays x r.givenUp := by
  cases run with
  | kernel first count =>
      cases h
      rfl
  | user frame page tenure =>
      cases tenure with
      | settled =>
          cases h
          rfl
      | inTransit =>
          obtain ⟨pinned, rfl⟩ := h
          exact ⟨pinned, rfl⟩
      | orphaned =>
          obtain ⟨pinned, rfl⟩ := h
          exact ⟨pinned, rfl⟩

/-- The run of a frame says whether it holds a page of the address space. -/
theorem Plays.holdsPageOf {run : FrameRun} {x : Nat} {r : FrameRole} (h : run.Plays x r)
    (space : Nat) : r.holdsPageOf space = run.isOf space := by
  cases run with
  | kernel first count =>
      cases h
      rfl
  | user frame page tenure =>
      cases tenure with
      | settled =>
          cases h
          rfl
      | inTransit =>
          obtain ⟨pinned, rfl⟩ := h
          rfl
      | orphaned =>
          obtain ⟨pinned, rfl⟩ := h
          rfl

/-- Only the run that starts at `i` has this fate. -/
def changeAt (i : Nat) (fate : FrameRun → Option FrameRun) (run : FrameRun) : Option FrameRun :=
  if run.first = i then fate run else some run

end FrameRun

namespace Coremap

open FrameRun in
/-- The run that an event enters in the ledger. -/
def Event.claims? : Event → Option FrameRun
  | ⟨.claim .kernel count, .claimed (some i)⟩ => some (.kernel i count)
  | ⟨.claim (.user page) _, .claimed (some i)⟩ => some (.user i page .settled)
  | ⟨.claimPinned page, .claimed (some i)⟩ => some (.user i page .inTransit)
  | _ => none

open FrameRun in
/-- What an event makes of a run that is out. -/
def Event.change : Event → FrameRun → Option FrameRun
  | ⟨.detachOldest, .detached (some (i, _))⟩ => changeAt i detached
  | ⟨.abortEviction i, _⟩ | ⟨.unpin i, _⟩ => changeAt i cameBack
  | ⟨.finishEviction i, _⟩ | ⟨.discardPinned i, _⟩ => changeAt i fun _ => none
  | ⟨.release i, _⟩ => changeAt i givenUp
  | ⟨.releaseSpace space, _⟩ => fun run => if run.isOf space then run.givenUp else some run
  | _ => some

/-- The runs that were claimed and are not free yet. The newest event comes first. -/
def ledger : List Event → List FrameRun
  | [] => []
  | event :: past => event.claims?.toList ++ (ledger past).filterMap event.change

/-- The coremap agrees with the ledger: the runs do not overlap, each frame of a run is in the role
that the run says, and all other frames are free. -/
structure Books (m : Coremap) (runs : List FrameRun) : Prop where
  pos : ∀ run ∈ runs, 0 < run.count
  role : ∀ run ∈ runs, ∀ x, run.Covers x → ∃ r, m.HasRole x r ∧ run.Plays x r
  covered : ∀ x r, m.HasRole x r → r ≠ .free → ∃ run ∈ runs, run.Covers x
  apart : runs.Pairwise fun run other => ∀ x, run.Covers x → ¬ other.Covers x

variable {m m' m₀ : Coremap} {runs : List FrameRun} {run other : FrameRun} {i x : Nat}
  {r s : FrameRole} {page : Page} {request : Request} {answer : Answer} {past : List Event}

/-! ## Reading the ledger -/

theorem Books.first_covered (hb : m.Books runs) (h : run ∈ runs) : run.Covers run.first :=
  ⟨Nat.le_refl _, Nat.lt_add_of_pos_right (hb.pos run h)⟩

/-- Two runs that share a frame are one. -/
theorem Books.unique (hb : m.Books runs) (h : run ∈ runs) (h' : other ∈ runs)
    (hx : run.Covers x) (hx' : other.Covers x) : run = other := by
  by_contra hne
  have hsymm : Std.Symm fun run other : FrameRun => ∀ x, run.Covers x → ¬ other.Covers x :=
    ⟨fun _ _ hapart x hx hx' => hapart x hx' hx⟩
  exact hb.apart.forall h h' hne x hx hx'

/-- No two runs start at one frame. -/
theorem Books.unique_first (hb : m.Books runs) (h : run ∈ runs) (h' : other ∈ runs)
    (hfirst : run.first = other.first) : run = other :=
  hb.unique h h' (hb.first_covered h) (hfirst ▸ hb.first_covered h')

/-- The run of a frame says its role. -/
theorem Books.plays (hb : m.Books runs) (h : run ∈ runs) (hx : run.Covers x)
    (hr : m.HasRole x r) : run.Plays x r := by
  obtain ⟨r', hr', hplays⟩ := hb.role run h x hx
  rw [hr.unique hr']
  exact hplays

/-- A frame in use is one of a run. -/
theorem Books.run_of_role (hb : m.Books runs) (hr : m.HasRole x r) (hne : r ≠ .free) :
    ∃ run ∈ runs, run.Covers x ∧ run.Plays x r := by
  obtain ⟨run, h, hx⟩ := hb.covered x r hr hne
  exact ⟨run, h, hx, hb.plays h hx hr⟩

/-- A frame in use that is not the kernel's is a run of its own. -/
theorem Books.user_of_role (hb : m.Books runs) (hr : m.HasRole i r) (hne : r ≠ .free)
    (huser : ∀ tail, r ≠ .kernel tail) :
    ∃ page tenure, .user i page tenure ∈ runs ∧ (FrameRun.user i page tenure).Plays i r := by
  obtain ⟨run, h, hi, hplays⟩ := hb.run_of_role hr hne
  obtain ⟨page, tenure, rfl⟩ := hplays.eq_user hi huser
  exact ⟨page, tenure, h, hplays⟩

/-! ## One event -/

/-- What became of a run: its frames are free, or a run of the same frames is left. -/
def Fares (m' : Coremap) (run : FrameRun) : Option FrameRun → Prop
  | none => ∀ x, run.Covers x → m'.HasRole x .free
  | some left => left.first = run.first ∧ left.count = run.count ∧
      ∀ x, run.Covers x → ∃ r, m'.HasRole x r ∧ left.Plays x r

/-- **The ledger is kept up** when every run fares as it says and no other frame comes into use. -/
theorem Books.fare {fate : FrameRun → Option FrameRun} (hb : m.Books runs)
    (hfate : ∀ run ∈ runs, Fares m' run (fate run))
    (hfree : ∀ x r, m'.HasRole x r → r ≠ .free → ∃ s, m.HasRole x s ∧ s ≠ .free) :
    m'.Books (runs.filterMap fate) := by
  have same : ∀ run ∈ runs, ∀ left, fate run = some left → left.first = run.first ∧
      left.count = run.count ∧ ∀ x, run.Covers x → ∃ r, m'.HasRole x r ∧ left.Plays x r := by
    intro run h left hleft
    have := hfate run h
    rw [hleft] at this
    exact this
  have covers : ∀ {run left : FrameRun}, left.first = run.first → left.count = run.count →
      ∀ x, left.Covers x ↔ run.Covers x := by
    intro run left hfirst hcount x
    unfold FrameRun.Covers
    rw [hfirst, hcount]
  refine ⟨?_, ?_, ?_, ?_⟩
  · intro left hleft
    obtain ⟨run, h, hfate⟩ := List.mem_filterMap.mp hleft
    rw [(same run h left hfate).2.1]
    exact hb.pos run h
  · intro left hleft x hx
    obtain ⟨run, h, hfate⟩ := List.mem_filterMap.mp hleft
    obtain ⟨hfirst, hcount, hroles⟩ := same run h left hfate
    exact hroles x ((covers hfirst hcount x).mp hx)
  · intro x r hr hne
    obtain ⟨s, hs, hused⟩ := hfree x r hr hne
    obtain ⟨run, h, hx⟩ := hb.covered x s hs hused
    have hrun := hfate run h
    cases hleft : fate run with
    | none =>
        rw [hleft] at hrun
        exact absurd (hr.unique (hrun x hx)) hne
    | some left =>
        obtain ⟨hfirst, hcount, -⟩ := same run h left hleft
        exact ⟨left, List.mem_filterMap.mpr ⟨run, h, hleft⟩, (covers hfirst hcount x).mpr hx⟩
  · rw [List.pairwise_filterMap]
    refine hb.apart.imp_of_mem fun {run other} h h' hapart left hleft left' hleft' x hx hx' => ?_
    obtain ⟨hfirst, hcount, -⟩ := same run h left hleft
    obtain ⟨hfirst', hcount', -⟩ := same other h' left' hleft'
    exact hapart x ((covers hfirst hcount x).mp hx) ((covers hfirst' hcount' x).mp hx')

/-- An event after which every frame is used as before. -/
theorem Books.of_alike (hb : m.Books runs) (h : m.Alike m') : m'.Books runs := by
  refine ⟨hb.pos, fun run hrun x hx => ?_, fun x r hr => hb.covered x r (h.role.mp hr), hb.apart⟩
  obtain ⟨r, hr, hplays⟩ := hb.role run hrun x hx
  exact ⟨r, h.role.mpr hr, hplays⟩

/-- An event that changes the role of one user frame. -/
theorem Books.changeAt {fate : FrameRun → Option FrameRun} (hb : m.Books runs)
    (hr : m.HasRole i r) (hne : r ≠ .free) (huser : ∀ tail, r ≠ .kernel tail)
    (hput : m.Puts i s.use m')
    (hfate : ∀ page tenure, (FrameRun.user i page tenure).Plays i r →
      (fate (.user i page tenure) = none ∧ s = .free) ∨ ∃ tenure',
        fate (.user i page tenure) = some (.user i page tenure') ∧
          (FrameRun.user i page tenure').Plays i s) :
    m'.Books (runs.filterMap (FrameRun.changeAt i fate)) := by
  refine hb.fare (fun run h => ?_) fun x r' hr' hne' => ?_
  · unfold FrameRun.changeAt
    by_cases hfirst : run.first = i
    · have hi : run.Covers i := hfirst ▸ hb.first_covered h
      have hplays := hb.plays h hi hr
      obtain ⟨page, tenure, rfl⟩ := hplays.eq_user hi huser
      rw [if_pos hfirst]
      rcases hfate page tenure hplays with ⟨hnone, rfl⟩ | ⟨tenure', hsome, hplays'⟩
      · rw [hnone]
        intro x hx
        rw [FrameRun.covers_user.mp hx]
        exact hput.role_self
      · rw [hsome]
        refine ⟨rfl, rfl, fun x hx => ?_⟩
        rw [FrameRun.covers_user.mp hx]
        exact ⟨s, hput.role_self, hplays'⟩
    · rw [if_neg hfirst]
      refine ⟨rfl, rfl, fun x hx => ?_⟩
      obtain ⟨r', hr', hplays⟩ := hb.role run h x hx
      -- no run but its own has the frame
      have hxi : x ≠ i := by
        rintro rfl
        rw [hr'.unique hr] at hplays
        obtain ⟨page, tenure, rfl⟩ := hplays.eq_user hx huser
        exact hfirst rfl
      exact ⟨r', (hput.role_other hxi).mpr hr', hplays⟩
  · by_cases hx : x = i
    · subst hx
      exact ⟨r, hr, hne⟩
    · exact ⟨r', (hput.role_other hx).mp hr', hne'⟩

/-- Frames that are claimed belonged to no run, and are entered as one. -/
theorem Books.claims {owner : FrameOwner} {pinned : Bool} {start stop : Nat}
    (hb : m.Books runs) (new : FrameRun) (hm : m.Sound) (h : m.Claims owner pinned start stop m')
    (hstart : new.first = start) (hstop : new.first + new.count = stop) (hpos : 0 < new.count)
    (hnew : ∀ x, new.Covers x → ∃ r : FrameRole,
      r.use = .claimed owner (x != stop - 1) pinned ∧ new.Plays x r) :
    m'.Books (new :: runs) := by
  have hrange : ∀ x, new.Covers x ↔ start ≤ x ∧ x < stop := by
    intro x
    unfold FrameRun.Covers
    rw [hstop, hstart]
  have hin : ∀ x, new.Covers x → m.HasRole x .free := by
    intro x hx
    obtain ⟨hle, hlt⟩ := (hrange x).mp hx
    obtain ⟨u, hu, halloc⟩ := h.free x hle hlt
    obtain ⟨r, hr, rfl⟩ := hm.hasRole hu
    rw [← FrameRole.of_free halloc]
    exact hr
  have hapart : ∀ run ∈ runs, ∀ x, run.Covers x → ¬ new.Covers x := by
    intro run hrun x hx hx'
    exact (hb.plays hrun hx (hin x hx')).ne_free rfl
  have hout : ∀ x, ¬ new.Covers x → (∀ r, m'.HasRole x r ↔ m.HasRole x r) := by
    intro x hx r
    unfold HasRole
    rw [h.use, if_neg (mt (hrange x).mpr hx)]
  refine ⟨?_, ?_, ?_, ?_⟩
  · intro run hrun
    rcases List.mem_cons.mp hrun with rfl | hrun
    · exact hpos
    · exact hb.pos run hrun
  · intro run hrun x hx
    rcases List.mem_cons.mp hrun with rfl | hrun
    · obtain ⟨r, huse, hplays⟩ := hnew x hx
      refine ⟨r, ?_, hplays⟩
      unfold HasRole
      rw [h.use, if_pos ((hrange x).mp hx), huse]
    · obtain ⟨r, hr, hplays⟩ := hb.role run hrun x hx
      exact ⟨r, (hout x (hapart run hrun x hx) r).mpr hr, hplays⟩
  · intro x r hr hne
    by_cases hx : new.Covers x
    · exact ⟨new, List.mem_cons_self, hx⟩
    · obtain ⟨run, hrun, hcover⟩ := hb.covered x r ((hout x hx r).mp hr) hne
      exact ⟨run, List.mem_cons_of_mem _ hrun, hcover⟩
  · exact List.pairwise_cons.mpr
      ⟨fun run hrun x hx hx' => hapart run hrun x hx' hx, hb.apart⟩

/-- A claim enters its run. -/
theorem Books.claim {owner : FrameOwner} {count : Nat} {first : Option Nat} (hm : m.Sound)
    (hb : m.Books runs) (hpos : 0 < count) (hcount : owner = .kernel ∨ count = 1)
    (h : m.claim owner count = .ok (first, m')) :
    m'.Books ((Event.claims? ⟨.claim owner count, .claimed first⟩).toList ++ runs) := by
  rcases claim_ok h with ⟨rfl, halike⟩ | ⟨start, stop, rfl, hclaims, hstop⟩
  · cases owner <;> exact hb.of_alike halike
  · obtain rfl := hstop hm.policy
    cases owner with
    | kernel =>
        refine hb.claims (.kernel start count) hm hclaims rfl rfl hpos fun x _ => ?_
        refine ⟨.kernel (x != start + count - 1), rfl, congrArg FrameRole.kernel ?_⟩
        rw [Bool.eq_iff_iff]
        simp only [bne_iff_ne]
        omega
    | user page =>
        obtain rfl : count = 1 := hcount.resolve_left nofun
        refine hb.claims (.user start page .settled) hm hclaims rfl rfl Nat.one_pos fun x hx => ?_
        refine ⟨.resident page, ?_, rfl⟩
        rw [FrameRun.covers_user.mp hx, Nat.add_sub_cancel, bne_self_eq_false]
        rfl

theorem Books.claimPinned {first : Option Nat} (hm : m.Sound) (hb : m.Books runs)
    (h : m.claimPinned page = .ok (first, m')) :
    m'.Books ((Event.claims? ⟨.claimPinned page, .claimed first⟩).toList ++ runs) := by
  rcases claimRun_ok h with ⟨rfl, halike⟩ | ⟨start, stop, rfl, hclaims, hstop⟩
  · exact hb.of_alike halike
  · obtain rfl := hstop hm.policy
    refine hb.claims (.user start page .inTransit) hm hclaims rfl rfl Nat.one_pos fun x hx => ?_
    refine ⟨.transit true page false, ?_, true, rfl⟩
    rw [FrameRun.covers_user.mp hx, Nat.add_sub_cancel, bne_self_eq_false]
    rfl

/-- A user frame that is freed is struck off. -/
theorem Books.strike (hb : m.Books runs) (hr : m.HasRole i r) (hne : r ≠ .free)
    (huser : ∀ tail, r ≠ .kernel tail) (hput : m.Puts i FrameRole.free.use m') :
    m'.Books (runs.filterMap (FrameRun.changeAt i fun _ => none)) :=
  hb.changeAt (s := .free) hr hne huser hput fun _ _ _ => Or.inl ⟨rfl, rfl⟩

/-- A frame comes back from its way, and is free if it was orphaned. -/
theorem Books.cameBack {pinned orphaned : Bool} (hb : m.Books runs)
    (hr : m.HasRole i (.transit pinned page orphaned))
    (hput : m.Puts i (if orphaned then FrameRole.free else .resident page).use m') :
    m'.Books (runs.filterMap (FrameRun.changeAt i FrameRun.cameBack)) := by
  refine hb.changeAt hr nofun nofun hput fun page' tenure hplays => ?_
  obtain ⟨rfl, rfl⟩ := FrameRun.plays_transit.mp hplays
  cases orphaned with
  | true => exact Or.inl ⟨rfl, rfl⟩
  | false => exact Or.inr ⟨.settled, rfl, rfl⟩

/-- A frame goes on its way to swap. -/
theorem Books.detached (hb : m.Books runs) (hr : m.HasRole i (.resident page))
    (hput : m.Puts i (FrameRole.transit false page false).use m') :
    m'.Books (runs.filterMap (FrameRun.changeAt i FrameRun.detached)) := by
  refine hb.changeAt hr nofun nofun hput fun page' tenure hplays => Or.inr ?_
  obtain ⟨rfl, rfl⟩ := FrameRun.plays_resident.mp hplays
  exact ⟨.inTransit, rfl, false, rfl⟩

/-! ## Releases -/

/-- A frame has one before it with another of its run behind it exactly when a run of the kernel's
covers both. -/
theorem Books.insideRun_iff (hm : m.Sound) (hb : m.Books runs) :
    m.insideRun i = true ↔ ∃ run ∈ runs, run.Covers i ∧ run.first < i := by
  cases i with
  | zero => exact ⟨nofun, fun ⟨_, _, _, h⟩ => absurd h (Nat.not_lt_zero _)⟩
  | succ j =>
      rw [insideRun_succ]
      constructor
      · rintro ⟨u, hu, htail⟩
        obtain ⟨r, hr, rfl⟩ := hm.hasRole hu
        cases r with
        | kernel tail =>
            obtain rfl : tail = true := htail
            obtain ⟨run, h, hj, hplays⟩ := hb.run_of_role hr nofun
            obtain ⟨first, count, rfl, hlast⟩ := hplays.eq_kernel
            -- the frame behind `j` is of the run too, since `j` is not its last
            have hne : j + 1 ≠ first + count := bne_iff_ne.mp hlast.symm
            obtain ⟨hle, hlt⟩ : first ≤ j ∧ j < first + count := hj
            exact ⟨_, h, ⟨Nat.le_succ_of_le hle, Nat.lt_of_le_of_ne hlt hne⟩, Nat.lt_succ_of_le hle⟩
        | free => exact nomatch htail
        | resident page => exact nomatch htail
        | transit pinned page orphaned => exact nomatch htail
      · rintro ⟨run, h, ⟨hle, hlt⟩, hfirst⟩
        obtain ⟨r, hr, hplays⟩ := hb.role run h j ⟨Nat.le_of_lt_succ hfirst, Nat.lt_of_succ_lt hlt⟩
        cases run with
        | kernel first count =>
            cases hplays
            exact ⟨_, hr, bne_iff_ne.mpr (Nat.ne_of_lt hlt)⟩
        | user frame page tenure => exact absurd hlt (Nat.not_lt.mpr hfirst)

/-- The run that is freed from its first frame on is the whole of it. -/
theorem Books.freed_count {first count n : Nat} (hb : m.Books runs)
    (h : .kernel first count ∈ runs) (hrun : m.FreesRun first n m') (hn : 0 < n) : n = count := by
  have tail : ∀ x, first ≤ x → x < first + count → ∀ u, m.use? x = some u →
      u.tail = (x + 1 != first + count) := by
    intro x hle hlt u hu
    obtain ⟨r, hr, rfl⟩ := hb.role _ h x ⟨hle, hlt⟩
    obtain rfl := Option.some.inj (hr.symm.trans hu)
    rfl
  have hpos : 0 < count := hb.pos _ h
  rcases Nat.lt_trichotomy n count with hlt | rfl | hlt
  · -- the last frame that is freed has another of the run behind it
    obtain ⟨u, hu, hlast⟩ := hrun.last (first + n - 1) (by omega)
    have := tail _ (by omega) (by omega) u hu
    rw [hlast] at this
    exact absurd (bne_eq_false_iff_eq.mp this.symm) (by omega)
  · rfl
  · -- the last frame of the run is followed by another that is freed
    obtain ⟨u, hu, htail⟩ := hrun.tail (first + count - 1) (by omega) (by omega)
    have := tail _ (by omega) (by omega) u hu
    rw [htail] at this
    exact absurd (Nat.sub_add_cancel (by omega)) (bne_iff_ne.mp this.symm)

/-- A run of the kernel's that is freed is struck off. -/
theorem Books.strikeRun {first count : Nat} (hb : m.Books runs)
    (hmem : .kernel first count ∈ runs) (hrun : m.FreesRun first count m') :
    m'.Books (runs.filterMap (FrameRun.changeAt first FrameRun.givenUp)) := by
  have hin : ∀ x, (FrameRun.kernel first count).Covers x → m'.HasRole x .free := by
    intro x hx
    unfold HasRole
    rw [hrun.use]
    exact if_pos hx
  have hout : ∀ x, ¬ (FrameRun.kernel first count).Covers x →
      ∀ r, m'.HasRole x r ↔ m.HasRole x r := by
    intro x hx r
    unfold HasRole
    rw [hrun.use]
    exact iff_of_eq (congrArg (· = _) (if_neg hx))
  refine hb.fare (fun run h => ?_) fun x r hr hne => ?_
  · unfold FrameRun.changeAt
    by_cases hfirst : run.first = first
    · obtain rfl := hb.unique_first h hmem hfirst
      rw [if_pos hfirst]
      exact hin
    · rw [if_neg hfirst]
      refine ⟨rfl, rfl, fun x hx => ?_⟩
      obtain ⟨r, hr, hplays⟩ := hb.role run h x hx
      refine ⟨r, (hout x ?_ r).mpr hr, hplays⟩
      intro hx'
      rw [hb.unique h hmem hx hx'] at hfirst
      exact hfirst rfl
  · by_cases hx : (FrameRun.kernel first count).Covers x
    · exact absurd (hr.unique (hin x hx)) hne
    · exact ⟨r, (hout x hx r).mp hr, hne⟩

/-- What the release of frame `i` is to come to, by the ledger: the run that starts there is freed,
or orphaned, or there is none that could be. -/
inductive Releases (m : Coremap) (runs : List FrameRun) (i : Nat) :
    Except FrameError Release → Coremap → Prop where
  | freed {run : FrameRun} {m' : Coremap} (mem : run ∈ runs) (first : run.first = i)
    (settled : run.tenure = .settled)
    (use : ∀ x, m'.use? x = if i ≤ x ∧ x < i + run.count then some .free else m.use? x) :
    Releases m runs i (.ok (.freed run.count)) m'
  | deferred {run : FrameRun} {m' : Coremap} (mem : run ∈ runs) (first : run.first = i)
    (inTransit : run.tenure = .inTransit) : Releases m runs i (.ok .deferred) m'
  | refused {address : Nat} (none : ∀ run ∈ runs, run.first = i → run.tenure = .orphaned)
    (address_eq : m.frameAddress i = .ok address) :
    Releases m runs i (.error (.invalidAddress address)) m

/-- A run that is given up and yet stays as it is was orphaned before. -/
theorem givenUp_of_orphaned (h : run.tenure = .orphaned) : run.givenUp = some run := by
  cases run with
  | kernel first count => exact nomatch h
  | user frame page tenure =>
      obtain rfl : tenure = .orphaned := h
      rfl

/-- A frame that cannot be released starts no run but one that was orphaned before. -/
theorem Books.orphaned_of_refused (hm : m.Sound) (hb : m.Books runs) (hr : m.HasRole i r)
    (hcause : r = .free ∨ m.insideRun i = true ∨ r.use.orphaned = true) (h : run ∈ runs)
    (hfirst : run.first = i) : run.tenure = .orphaned := by
  have hi : run.Covers i := hfirst ▸ hb.first_covered h
  have hplays := hb.plays h hi hr
  rcases hcause with rfl | hinside | horphan
  · exact absurd rfl hplays.ne_free
  · obtain ⟨other, hother, hcover, hbefore⟩ := (hb.insideRun_iff hm).mp hinside
    rw [hb.unique hother h hcover hi, hfirst] at hbefore
    exact absurd hbefore (Nat.lt_irrefl i)
  · cases r with
    | transit pinned page orphaned =>
        obtain rfl : orphaned = true := horphan
        obtain ⟨page', tenure, rfl⟩ := hplays.eq_user hi nofun
        exact (FrameRun.plays_transit.mp hplays).2
    | free => exact nomatch horphan
    | kernel tail => exact nomatch horphan
    | resident page => exact nomatch horphan

/-- **A release goes by the ledger**, and keeps it up. -/
theorem Books.release {answer : Except FrameError Release} (hm : m.Sound) (hb : m.Books runs)
    (h : m.release i = .ok (answer, m')) : m.Releases runs i answer m' ∧
      m'.Books (runs.filterMap (FrameRun.changeAt i FrameRun.givenUp)) := by
  obtain ⟨r, hr, hcase⟩ := hm.release_role h
  rcases hcase with ⟨hcause, rfl, address, haddress, rfl⟩ | ⟨hinside,
    ⟨pinned, page, rfl, rfl, hput⟩ | ⟨page, rfl, rfl, hput⟩ | ⟨tail, n, rfl, rfl, hn, hrun⟩⟩
  · have horphaned : ∀ run ∈ runs, run.first = i → run.tenure = .orphaned :=
      fun run => hb.orphaned_of_refused hm hr hcause
    refine ⟨.refused horphaned haddress, ?_⟩
    rw [List.filterMap_congr (g := some), List.filterMap_some]
    · exact hb
    · intro run hmem
      unfold FrameRun.changeAt
      split
      · next hfirst => exact givenUp_of_orphaned (horphaned run hmem hfirst)
      · rfl
  · obtain ⟨page', tenure, hmem, hplays⟩ := hb.user_of_role hr nofun nofun
    obtain ⟨rfl, rfl⟩ := FrameRun.plays_transit.mp hplays
    refine ⟨.deferred hmem rfl rfl, ?_⟩
    refine hb.changeAt hr nofun nofun hput fun page tenure hplays => Or.inr ?_
    obtain ⟨rfl, rfl⟩ := FrameRun.plays_transit.mp hplays
    exact ⟨.orphaned, rfl, pinned, rfl⟩
  · obtain ⟨page', tenure, hmem, hplays⟩ := hb.user_of_role hr nofun nofun
    obtain ⟨rfl, rfl⟩ := FrameRun.plays_resident.mp hplays
    refine ⟨.freed hmem rfl rfl fun x => ?_, ?_⟩
    · rw [hput.use]
      by_cases hx : x = i
      · rw [if_pos hx, if_pos ⟨Nat.le_of_eq hx.symm, hx ▸ Nat.lt_succ_self _⟩]
        rfl
      · have hout : ¬ (i ≤ x ∧ x < i + 1) := by omega
        rw [if_neg hx]
        exact (if_neg hout).symm
    · refine hb.changeAt hr nofun nofun hput fun page tenure hplays => Or.inl ?_
      obtain ⟨rfl, rfl⟩ := FrameRun.plays_resident.mp hplays
      exact ⟨rfl, rfl⟩
  · obtain ⟨run, hmem, hi, hplays⟩ := hb.run_of_role hr nofun
    obtain ⟨first, count, rfl, -⟩ := hplays.eq_kernel
    obtain rfl : first = i := by
      by_contra hne
      have hbefore : first < i := Nat.lt_of_le_of_ne hi.1 hne
      rw [(hb.insideRun_iff hm).mpr ⟨_, hmem, hi, hbefore⟩] at hinside
      exact nomatch hinside
    obtain rfl := hb.freed_count hmem hrun hn
    exact ⟨.freed hmem rfl rfl hrun.use, hb.strikeRun hmem hrun⟩

/-- A teardown gives up the runs of its address space. -/
theorem Books.releaseSpace {space n : Nat} (hm : m.Sound) (hb : m.Books runs)
    (h : m.releaseSpace space = .ok (n, m')) :
    m'.Books (runs.filterMap fun run => if run.isOf space then run.givenUp else some run) := by
  obtain ⟨hsound, hroles⟩ := hm.releaseSpace h
  -- the frames of a run are given up together
  have after : ∀ run ∈ runs, ∀ x, run.Covers x → ∃ r, run.Plays x r ∧
      m'.HasRole x (if run.isOf space then r.givenUp else r) := by
    intro run hmem x hx
    obtain ⟨r, hr, hplays⟩ := hb.role run hmem x hx
    refine ⟨r, hplays, ?_⟩
    rw [← hplays.holdsPageOf space]
    exact hroles x r hr
  refine hb.fare (fun run hmem => ?_) fun x r hr hne => ?_
  · have hrun := after run hmem
    split
    · next hours =>
        cases hleft : run.givenUp with
        | none =>
            intro x hx
            obtain ⟨r, hplays, hr⟩ := hrun x hx
            rw [if_pos hours] at hr
            have hgone := hplays.givenUp
            rw [hleft] at hgone
            rw [← hgone]
            exact hr
        | some left =>
            obtain ⟨hfirst, hcount⟩ := FrameRun.givenUp_same hleft
            refine ⟨hfirst, hcount, fun x hx => ?_⟩
            obtain ⟨r, hplays, hr⟩ := hrun x hx
            rw [if_pos hours] at hr
            have hstays := hplays.givenUp
            rw [hleft] at hstays
            exact ⟨_, hr, hstays⟩
    · next hother =>
        refine ⟨rfl, rfl, fun x hx => ?_⟩
        obtain ⟨r, hplays, hr⟩ := hrun x hx
        rw [if_neg hother] at hr
        exact ⟨r, hr, hplays⟩
  · have hx : x < m.frames.size :=
      Nat.lt_of_lt_of_eq (lt_size_of_use? hr) (releaseSpace_ok h).1.size
    obtain ⟨s, hs, -⟩ := hm.hasRole (use?_of_getElem? (Array.getElem?_eq_getElem hx))
    refine ⟨s, hs, ?_⟩
    rintro rfl
    exact hne (hr.unique (hroles x _ hs))

/-- **Every request keeps up the ledger.** -/
theorem Books.perform (hm : m.Sound) (hb : m.Books (ledger past)) (hallows : m.Allows past request)
    (h : m.perform request = .ok (answer, m')) : m'.Books (ledger (⟨request, answer⟩ :: past)) := by
  -- most requests enter no run, and change none
  have unmoved : ∀ {event : Event} {m' : Coremap}, event.claims? = none → event.change = some →
      m'.Books (ledger past) → m'.Books (ledger (event :: past)) := by
    intro event m' hclaims hchange hb
    unfold ledger
    rw [hclaims, hchange, List.filterMap_some]
    exact hb
  -- a claim enters one
  have entered : ∀ {event : Event} {m' : Coremap}, event.change = some →
      m'.Books (event.claims?.toList ++ ledger past) → m'.Books (ledger (event :: past)) := by
    intro event m' hchange hb
    unfold ledger
    rw [hchange, List.filterMap_some]
    exact hb
  cases perform_cases h with
  | claim owner count first h₁ =>
      refine entered rfl (hb.claim hm ?_ hallows.isProper h₁)
      cases owner with
      | kernel => exact hallows.1
      | user page => exact Nat.lt_of_lt_of_eq Nat.one_pos (Eq.symm hallows)
  | claimPinned page first h₁ => exact entered rfl (hb.claimPinned hm h₁)
  | detachOldest victim h₁ =>
      cases victim with
      | none =>
          rw [detachOldest_none h₁]
          exact unmoved rfl rfl hb
      | some found =>
          obtain ⟨-, hres, hput⟩ := hm.detachOldest h₁
          exact hb.detached hres hput
  | abortEviction i onChain h₁ =>
      obtain ⟨-, page, orphaned, hrole, -, hput⟩ := hm.abortEviction h₁
      exact hb.cameBack hrole hput
  | finishEviction i orphaned h₁ =>
      obtain ⟨-, page, hrole, hput⟩ := hm.finishEviction h₁
      exact hb.strike hrole nofun nofun hput
  | unpin i onChain h₁ =>
      obtain ⟨-, page, orphaned, hrole, -, hput⟩ := hm.unpin h₁
      exact hb.cameBack hrole hput
  | discardPinned i h₁ =>
      obtain ⟨-, page, orphaned, hrole, hput⟩ := hm.discardPinned h₁
      exact hb.strike hrole nofun nofun hput
  | release i answer h₁ => exact (hb.release hm h₁).2
  | releaseSpace space freed h₁ => exact hb.releaseSpace hm h₁
  | setTlbSlot i slot answer h₁ => exact unmoved rfl rfl (hb.of_alike (setTlbSlot_alike h₁))

/-- **The ledger of the events is the coremap's**, whatever was interleaved. -/
theorem Reaches.books {count base : Nat} {policy : PlacementPolicy}
    (hnew : create count base (.ofPolicy policy) = .ok m₀) (h : m₀.Reaches past m) :
    m.Books (ledger past) := by
  induction h with
  | start =>
      refine ⟨nofun, nofun, fun x r hr hne => ?_, .nil⟩
      exact absurd ((create_sound hnew).2 x r hr) hne
  | step hreach hallows hperform ih =>
      exact ih.perform (hreach.exact hnew).1.toSound hallows hperform

/-! ## Addresses -/

/-- A frame has one address. -/
theorem indexOf?_eq_some {address : Nat} :
    m.indexOf? address = some i ↔ i < m.size ∧ address = m.base + Address.frameSize * i := by
  have hframe : Address.frameSize = 4096 := rfl
  unfold indexOf? Address.isAligned
  simp only [hframe, beq_iff_eq]
  split
  · split
    · rw [Option.some.injEq]
      omega
    · refine ⟨nofun, ?_⟩
      omega
  · refine ⟨nofun, ?_⟩
    omega

theorem frameAddress_eq {address : Nat} (h : m.frameAddress i = .ok address) :
    address = m.base + Address.frameSize * i := by
  obtain ⟨offset, hoffset, h⟩ := Fault.bind_eq_ok.mp h
  rw [Word.eq_of_add h, Word.eq_of_mul hoffset, Nat.mul_comm]

/-! ## The result -/

/-- How many frames a claim asks for. -/
def Request.wants? : Request → Option Nat
  | .claim _ count => some count
  | .claimPinned _ => some 1
  | _ => none

/-- A claim that was met enters the run of as many frames as were asked for. -/
theorem ledger_claimed {n : Nat} (first : Nat) (hallows : m.Allows past request)
    (h : request.wants? = some n) : ∃ new,
      ledger (⟨request, .claimed (some first)⟩ :: past) = new :: ledger past ∧
        new.first = first ∧ new.count = n := by
  have hold : (ledger past).filterMap some = ledger past := List.filterMap_some
  cases request with
  | claim owner count =>
      cases h
      cases owner with
      | kernel => exact ⟨_, congrArg _ hold, rfl, rfl⟩
      | user page => exact ⟨_, congrArg _ hold, rfl, Eq.symm hallows⟩
  | claimPinned page =>
      cases h
      exact ⟨_, congrArg _ hold, rfl, rfl⟩
  | _ => exact nomatch h

/-- **Nothing but the release of its first frame** changes a run of the kernel's. -/
theorem Books.change_kernel {first count : Nat} (hm : m.Sound) (hb : m.Books runs)
    (hmem : .kernel first count ∈ runs) (hne : request ≠ .release first)
    (h : m.perform request = .ok (answer, m')) :
    Event.change ⟨request, answer⟩ (.kernel first count) = some (.kernel first count) := by
  obtain ⟨r, hr, hplays⟩ := hb.role _ hmem first (hb.first_covered hmem)
  have stays : ∀ {fate : FrameRun → Option FrameRun} {i : Nat},
      (first = i → fate (.kernel first count) = some (.kernel first count)) →
      FrameRun.changeAt i fate (.kernel first count) = some (.kernel first count) := by
    intro fate i hfate
    unfold FrameRun.changeAt
    split
    · next hfirst => exact hfate hfirst
    · rfl
  have atRest : ∀ {pinned page orphaned}, ¬ m.HasRole first (.transit pinned page orphaned) := by
    intro pinned page orphaned h
    cases hplays
    exact nomatch hr.unique h
  cases perform_cases h with
  | finishEviction i orphaned h₁ =>
      obtain ⟨-, page, hrole, -⟩ := hm.finishEviction h₁
      refine @stays (fun _ => none) i ?_
      rintro rfl
      exact absurd hrole atRest
  | discardPinned i h₁ =>
      obtain ⟨-, page, orphaned, hrole, -⟩ := hm.discardPinned h₁
      refine @stays (fun _ => none) i ?_
      rintro rfl
      exact absurd hrole atRest
  | detachOldest victim =>
      cases victim with
      | none => rfl
      | some found => exact stays fun _ => rfl
  | abortEviction i => exact stays fun _ => rfl
  | unpin i => exact stays fun _ => rfl
  | release i =>
      refine stays ?_
      rintro rfl
      exact absurd rfl hne
  | claim => rfl
  | claimPinned => rfl
  | releaseSpace => rfl
  | setTlbSlot => rfl

/-- The frames in use are those of the runs. -/
theorem Books.allocated_iff {u : Descriptor} (hm : m.Sound) (hb : m.Books runs)
    (hu : m.use? x = some u) : u.allocated = true ↔ ∃ run ∈ runs, run.Covers x := by
  obtain ⟨r, hr, rfl⟩ := hm.hasRole hu
  constructor
  · intro halloc
    refine hb.covered x r hr ?_
    rintro rfl
    exact nomatch halloc
  · rintro ⟨run, h, hx⟩
    have hne := (hb.plays h hx hr).ne_free
    cases r with
    | free => exact absurd rfl hne
    | kernel tail => rfl
    | resident page => rfl
    | transit pinned page orphaned => rfl

/-- A claim is met by frames of the table that belong to no run. -/
theorem Books.claimed {n first : Nat} (hm : m.Sound) (hb : m.Books (ledger past))
    (hallows : m.Allows past request) (hwants : request.wants? = some n)
    (h : m.perform request = .ok (.claimed (some first), m')) : first + n ≤ m.size ∧
      ∀ run ∈ ledger past, ∀ x, run.Covers x → ¬ (first ≤ x ∧ x < first + n) := by
  obtain ⟨new, hnew, rfl, rfl⟩ := ledger_claimed first hallows hwants
  have hb' := hb.perform hm hallows h
  rw [hnew] at hb'
  refine ⟨?_, fun run hrun x hx hx' => ?_⟩
  · -- the last frame of the run is one of the table
    have hpos := hb'.pos new List.mem_cons_self
    obtain ⟨r, hr, -⟩ := hb'.role new List.mem_cons_self (new.first + new.count - 1)
      ⟨by omega, by omega⟩
    have hlt := lt_size_of_use? hr
    rw [(perform_table h).size] at hlt
    omega
  · exact (List.pairwise_cons.mp hb'.apart).1 run hrun x hx' hx

/-- **When a release frees a run**, and when it is put off. -/
theorem Releases.iff {answer : Except FrameError Release} (hb : m.Books runs)
    (h : m.Releases runs i answer m') :
    (∀ n, answer = .ok (.freed n) ↔
      ∃ run ∈ runs, run.first = i ∧ run.count = n ∧ run.tenure = .settled) ∧
    (answer = .ok .deferred ↔ ∃ run ∈ runs, run.first = i ∧ run.tenure = .inTransit) := by
  cases h with
  | @freed run _ hmem hfirst hsettled huse =>
      have only : ∀ other ∈ runs, other.first = i → other = run := fun other h he =>
        hb.unique_first h hmem (he.trans hfirst.symm)
      refine ⟨fun n => ⟨?_, ?_⟩, nofun, ?_⟩
      · rintro ⟨⟩
        exact ⟨run, hmem, hfirst, rfl, hsettled⟩
      · rintro ⟨other, h, he, rfl, -⟩
        rw [only other h he]
      · rintro ⟨other, h, he, htenure⟩
        rw [only other h he, hsettled] at htenure
        exact nomatch htenure
  | @deferred run _ hmem hfirst htransit =>
      have only : ∀ other ∈ runs, other.first = i → other = run := fun other h he =>
        hb.unique_first h hmem (he.trans hfirst.symm)
      refine ⟨fun n => ⟨nofun, ?_⟩, fun _ => ⟨run, hmem, hfirst, htransit⟩, fun _ => rfl⟩
      rintro ⟨other, h, he, -, htenure⟩
      rw [only other h he, htransit] at htenure
      exact nomatch htenure
  | refused horphaned haddress =>
      refine ⟨fun n => ⟨nofun, ?_⟩, nofun, ?_⟩
      · rintro ⟨other, h, he, -, htenure⟩
        rw [horphaned other h he] at htenure
        exact nomatch htenure
      · rintro ⟨other, h, he, htenure⟩
        rw [horphaned other h he] at htenure
        exact nomatch htenure

/-- A kernel run is left alone by all but the release of its first frame. -/
theorem Books.kernel_stays {first n : Nat} (hm : m.Sound) (hb : m.Books (ledger past))
    (hmem : .kernel first n ∈ ledger past) (hallows : m.Allows past request)
    (hne : request ≠ .release first) (h : m.perform request = .ok (answer, m')) :
    .kernel first n ∈ ledger (⟨request, answer⟩ :: past) ∧
      ∀ x, first ≤ x → x < first + n → m'.use? x = m.use? x := by
  have hmem' : .kernel first n ∈ ledger (⟨request, answer⟩ :: past) :=
    List.mem_append_right _
      (List.mem_filterMap.mpr ⟨_, hmem, hb.change_kernel hm hmem hne h⟩)
  refine ⟨hmem', fun x hle hlt => ?_⟩
  obtain ⟨r, hr, hplays⟩ := hb.role _ hmem x ⟨hle, hlt⟩
  obtain ⟨r', hr', hplays'⟩ := (hb.perform hm hallows h).role _ hmem' x ⟨hle, hlt⟩
  cases hplays
  cases hplays'
  exact hr'.trans hr.symm

/-- Freeing an address frees the run that starts there. -/
theorem Books.free {memory : Memory} {address : Nat} (hm : memory.coremap.Exact)
    (hfits : memory.coremap.Fits) (hb : memory.coremap.Books runs) :
    ∃ piece, Task.free memory address = .ok piece ∧
      (piece.next = .reply (.done (.ok ())) ↔ ∃ run ∈ runs,
        address = memory.coremap.base + Address.frameSize * run.first ∧
          run.tenure ≠ .orphaned) ∧
      (piece.next ≠ .reply (.done (.ok ())) →
        piece = Task.finish memory [] (.done (.error (.invalidAddress address)))) := by
  unfold Task.free
  cases hindex : memory.coremap.indexOf? address with
  | none =>
      refine ⟨_, rfl, ⟨nofun, ?_⟩, fun _ => rfl⟩
      rintro ⟨run, hmem, haddress, -⟩
      obtain ⟨r, hr, -⟩ := hb.role run hmem run.first (hb.first_covered hmem)
      rw [indexOf?_eq_some.mpr ⟨lt_size_of_use? hr, haddress⟩] at hindex
      exact nomatch hindex
  | some i =>
      obtain ⟨hi, haddress⟩ := indexOf?_eq_some.mp hindex
      obtain ⟨⟨answer, m'⟩, hrelease⟩ := (hm.release_onlyOverflows hi).exists_ok hfits
      obtain ⟨hreleases, -⟩ := hb.release hm.toSound hrelease
      dsimp only
      rw [hrelease]
      cases hreleases with
      | @freed run _ hmem hfirst hsettled huse =>
          refine ⟨_, rfl, ⟨fun _ => ⟨run, hmem, ?_, ?_⟩, fun _ => rfl⟩, fun hne => absurd rfl hne⟩
          · rw [hfirst]
            exact haddress
          · rw [hsettled]
            exact nofun
      | @deferred run _ hmem hfirst htransit =>
          refine ⟨_, rfl, ⟨fun _ => ⟨run, hmem, ?_, ?_⟩, fun _ => rfl⟩, fun hne => absurd rfl hne⟩
          · rw [hfirst]
            exact haddress
          · rw [htransit]
            exact nofun
      | refused horphaned haddress' =>
          refine ⟨_, rfl, ⟨nofun, ?_⟩, fun _ => ?_⟩
          · rintro ⟨run, hmem, hat, hne⟩
            refine absurd (horphaned run hmem ?_) hne
            have hframe : Address.frameSize = 4096 := rfl
            rw [haddress, hframe] at hat
            omega
          · rw [haddress, ← frameAddress_eq haddress']

/-- **Frames are freed as they were claimed.** For every number of frames whose addresses fit a
word, after any sequence of requests, with any number of evictions and page-ins in flight:

* the runs that are out do not overlap, and their frames are the ones in use;
* a claim that is met gets as many frames of the table as it asked for, none of a run that is out;
* the release of a frame frees the run that starts there, and no other frame, it is put off if that
  run is in transit, and it is refused and changes nothing otherwise;
* a run of the kernel's is left alone by all but the release of its first frame;
* so the free operation takes the addresses of the first frames of runs that were not given up
  before, and no others. -/
theorem frames_are_freed_as_claimed {count base : Nat} {policy : PlacementPolicy}
    (hnew : create count base (.ofPolicy policy) = .ok m₀)
    (hfits : base + Address.frameSize * count ≤ Word.span Word.bits) (h : m₀.Reaches past m) :
    ((ledger past).Pairwise (fun run other => ∀ x, run.Covers x → ¬ other.Covers x) ∧
      ∀ x u, m.use? x = some u → (u.allocated = true ↔ ∃ run ∈ ledger past, run.Covers x)) ∧
    (∀ request n first m', m.Allows past request → request.wants? = some n →
      m.perform request = .ok (.claimed (some first), m') →
      first + n ≤ count ∧
        ∀ run ∈ ledger past, ∀ x, run.Covers x → ¬ (first ≤ x ∧ x < first + n)) ∧
    (∀ i, i < count → ∃ answer m', m.release i = .ok (answer, m') ∧
      (∀ n, answer = .ok (.freed n) ↔
        ∃ run ∈ ledger past, run.first = i ∧ run.count = n ∧ run.tenure = .settled) ∧
      (∀ n, answer = .ok (.freed n) →
        ∀ x, m'.use? x = if i ≤ x ∧ x < i + n then some .free else m.use? x) ∧
      (answer = .ok .deferred ↔ ∃ run ∈ ledger past, run.first = i ∧ run.tenure = .inTransit) ∧
      ∀ e, answer = .error e → e = .invalidAddress (base + Address.frameSize * i) ∧ m' = m) ∧
    (∀ first n request answer m', .kernel first n ∈ ledger past → m.Allows past request →
      request ≠ .release first → m.perform request = .ok (answer, m') →
      .kernel first n ∈ ledger (⟨request, answer⟩ :: past) ∧
        ∀ x, first ≤ x → x < first + n → m'.use? x = m.use? x) ∧
    ∀ (memory : Memory) address, memory.coremap = m →
      ∃ piece, Task.free memory address = .ok piece ∧
        (piece.next = .reply (.done (.ok ())) ↔ ∃ run ∈ ledger past,
          address = base + Address.frameSize * run.first ∧ run.tenure ≠ .orphaned) ∧
        (piece.next ≠ .reply (.done (.ok ())) →
          piece = Task.finish memory [] (.done (.error (.invalidAddress address)))) := by
  obtain ⟨hm, -, -⟩ := h.exact hnew
  have hb := h.books hnew
  obtain ⟨rfl, rfl⟩ := h.laid hnew
  refine ⟨⟨hb.apart, fun x u hu => hb.allocated_iff hm.toSound hu⟩, ?_, ?_, ?_, ?_⟩
  · intro request n first m' hallows hwants hperform
    exact hb.claimed hm.toSound hallows hwants hperform
  · intro i hi
    obtain ⟨⟨answer, m'⟩, hrelease⟩ := (hm.release_onlyOverflows hi).exists_ok hfits
    obtain ⟨hreleases, -⟩ := hb.release hm.toSound hrelease
    obtain ⟨hfreed, hdeferred⟩ := hreleases.iff hb
    refine ⟨answer, m', hrelease, hfreed, fun n he => ?_, hdeferred, fun e he => ?_⟩
    · cases hreleases with
      | freed hmem hfirst hsettled huse =>
          cases he
          exact huse
      | deferred => exact nomatch he
      | refused => exact nomatch he
    · cases hreleases with
      | freed => exact nomatch he
      | deferred => exact nomatch he
      | refused horphaned haddress =>
          cases he
          rw [frameAddress_eq haddress]
          exact ⟨rfl, rfl⟩
  · intro first n request answer m' hmem hallows hne hperform
    exact hb.kernel_stays hm.toSound hmem hallows hne hperform
  · rintro memory address rfl
    exact hb.free hm hfits

/-- Beside a run of two kernel frames a page is being evicted: the run is freed as a whole by its
first frame, the release of the victim is put off, and the second frame of the run is refused. -/
theorem frames_are_freed_as_claimed_beside_victim :
    ∃ past m, threeFrames.Reaches past m ∧
      ledger past = [.kernel 1 2, .user 0 ⟨1, 0⟩ .inTransit] ∧
      (∃ m', m.release 1 = .ok (.ok (.freed 2), m')) ∧
      (∃ m', m.release 0 = .ok (.ok .deferred, m')) ∧
      ∀ n m', m.release 2 ≠ .ok (.ok (.freed n), m') := by
  have hevents : (threeFrames.follow [.detachOldest, .claim .kernel 2,
      .claim (.user ⟨1, 0⟩) 1]).map (ledger ·.1) =
      some [.kernel 1 2, .user 0 ⟨1, 0⟩ .inTransit] := by decide +kernel
  obtain ⟨⟨past, m⟩, hfollow, hledger⟩ := Option.map_eq_some_iff.mp hevents
  have hreaches := reaches_of_follow hfollow
  have hnew : create 3 Address.frameSize (.ofPolicy .firstFit) = .ok threeFrames := rfl
  have hfits : Address.frameSize + Address.frameSize * 3 ≤ Word.span Word.bits := by decide
  obtain ⟨-, -, hrelease, -⟩ := frames_are_freed_as_claimed hnew hfits hreaches
  dsimp only at hledger
  rw [hledger] at hrelease
  refine ⟨past, m, hreaches, hledger, ?_, ?_, ?_⟩
  · obtain ⟨answer, m', h, hfreed, -⟩ := hrelease 1 (by decide)
    rw [(hfreed 2).mpr ⟨.kernel 1 2, by decide, rfl, rfl, rfl⟩] at h
    exact ⟨m', h⟩
  · obtain ⟨answer, m', h, -, -, hdeferred, -⟩ := hrelease 0 (by decide)
    rw [hdeferred.mpr ⟨.user 0 ⟨1, 0⟩ .inTransit, by decide, rfl, rfl⟩] at h
    exact ⟨m', h⟩
  · obtain ⟨answer, m', h, hfreed, -⟩ := hrelease 2 (by decide)
    intro n m'' h'
    obtain ⟨run, hmem, hfirst, -⟩ := (hfreed n).mp
      (congrArg Prod.fst (Except.ok.inj (h.symm.trans h')))
    have hstart : ∀ run ∈ [FrameRun.kernel 1 2, .user 0 ⟨1, 0⟩ .inTransit], run.first ≠ 2 := by
      decide
    exact hstart run hmem hfirst

end Coremap

end PhysMem
