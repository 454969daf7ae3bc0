import PhysMem.Proofs.FillAlone
import PhysMem.Proofs.Scrubbing
import PhysMem.Proofs.Teardown

/-!
# Bringing a page back — all or nothing

A page-in that is left alone either puts the page into the newest frame of the chain, with the bytes
of its slot, and frees the slot, or it leaves slot and frames as they were but for one eviction that
made room. So it can be tried again until it succeeds, and what it delivers then is what was in the
slot before the first attempt. What it leaves in the slot is zero, if slots are overwritten and no
write to this one fails.

* **`fillStage_of_performs`** takes a page-in through making room, with the help of
  `Leads.wantStage`, and on through the stages of its filling.
* **`FailsToBringBack`** is one attempt that fails, **`Heirloom`** what attempts that fail pass on.
* **`page_in_is_all_or_nothing`** is the result.
-/

namespace PhysMem

open SlotMap

namespace Task

variable {m r : Memory} {page : Page} {slot : Nat} {p q : Piece} {notices : List Notice}

/-! ## Making room -/

/-- **A page-in that finds no room gives up.** -/
theorem unmet_stage {n : Memory} {e : FrameError} (hm : m.coremap.Exact) (ha : m.swap.Sound)
    (h : m.MakesRoom page slot r) (hcoremap : n.coremap = r.coremap)
    (hslots : n.swap.slots = r.swap.slots)
    (hstored : ∀ x, m.swap.slots.state? x ≠ none →
      n.swap.device.stored x = r.swap.device.stored x)
    (hp : unmet n notices e (.pageIn page slot) = .ok p)
    (he : e ≠ .restoreFailed (.invalidSlot slot)) : FillStage m page slot p := by
  cases unmet_cases hp with
  | pageIn hsettle =>
      rw [hslots] at hsettle
      refine .failed he (h.gaveUp hm ha ?_ hsettle hstored)
      show n.coremap = { r.coremap with placement := n.coremap.placement }
      rw [hcoremap]

/-- A page-in that finds room maps its frame. -/
theorem met_stage {i : Nat} {c : Coremap} (h : m.MakesRoom page slot r)
    (ha : m.swap.Sound) (hclaim : r.coremap.claimPinned page = .ok (some i, c))
    (hp : met { r with coremap := c } notices i (.pageIn page slot) = .ok p) :
    FillStage m page slot p := by
  cases met_cases hp with
  | pageIn haddress =>
      show FillStage m page slot ⟨r.putFrames c r.ram r.swap.device, _, _⟩
      refine .mapping ⟨h, hclaim, Coremap.indexOf?_of_addressOf haddress, ?_, .refl _ _⟩ ?_
      · rw [h.ram]
      · exact h.stored_slot ha

/-- What a page-in comes to when the eviction is over that made room for it, or did not. -/
theorem evictionEnded_stage {n : Memory} {held : SlotMap}
    {result : Except EvictError (Nat × Nat)} (hm : m.coremap.Exact)
    (hin : m.coremap.placement.InTable m.coremap.size) (ha : m.swap.Sound)
    (hold : m.swap.slots.hold slot page = .ok (true, held))
    (hstage : EvictStage (m.putSlots held) n (.reply (.evicted result)))
    (hended : evictionEnded n notices (some (.pageIn page slot)) result = .ok p) :
    FillStage m page slot p := by
  cases hstage with
  | failed hu =>
      have hspare : m.MakesRoom page slot (m.putSlots held) := .spare hold
      have hstored : ∀ x, m.swap.slots.state? x ≠ none →
          n.swap.device.stored x = (m.putSlots held).swap.device.stored x :=
        fun x hx => hu.stored x fun hnone => hx ((Memory.held_state ha hold x).mp hnone)
      cases evictionEnded_cases hended with
      | noVictim hp | failed hp =>
          exact unmet_stage hm ha hspare hu.coremap hu.slots hstored hp nofun
  | ended hevicted =>
      have hroom : m.MakesRoom page slot n := .evicted hold hevicted
      cases evictionEnded_cases hended with
      | room coremap hclaim hp => exact met_stage hroom ha hclaim hp
      | noRoom coremap hclaim hp =>
          obtain ⟨rfl, -⟩ := claimFor_none_same (hroom.exact hm).policy
            (hevicted.coremap.evolves.inTable hin) hclaim
          exact unmet_stage hm ha hroom rfl rfl (fun _ _ => rfl) hp nofun

/-- **A page-in alone that has answered** has gone through the stages of a filling, or has found no
room. -/
theorem provide_stage {held : SlotMap} {reply : Reply} (hm : m.coremap.Exact)
    (hin : m.coremap.placement.InTable m.coremap.size) (ha : m.swap.Sound)
    (hram : m.ram.size = m.coremap.size)
    (hold : m.swap.slots.hold slot page = .ok (true, held))
    (hp : provide (m.putSlots held) (.pageIn page slot) = .ok p) (hlead : Leads p q)
    (hn : q.next = .reply reply) : FillStage m page slot q := by
  have hspare : m.MakesRoom page slot (m.putSlots held) := .spare hold
  have goes : FillStage m page slot p → FillStage m page slot q :=
    fun hstage => hlead.fillStage hm ha hram hstage
  cases provide_cases hp with
  | tooFew _ hp => exact goes (unmet_stage hm ha hspare rfl rfl (fun _ _ => rfl) hp nofun)
  | room coremap _ hclaim hp => exact goes (met_stage hspare ha hclaim hp)
  | noRoom coremap _ hclaim hp =>
      obtain ⟨rfl, -⟩ := claimFor_none_same hm.policy hin hclaim
      have hs := Memory.held_sound ha hold
      cases hlead.wantStage (m := m.putSlots held) hm.toSound hs hp with
      | evicting _ _ _ hn' => exact nomatch hn.symm.trans hn'
      | @ended _ _ _ _ before hr hresult hended hlead =>
          have hstage := evictStage_of_performs (m := m.putSlots held) hm.toSound hs hr
          rw [hresult] at hstage
          have hfirst := evictionEnded_stage hm hin ha hold hstage hended
          exact hlead.fillStage hm ha hram (hfirst.behind before)

theorem fillStage_of_performs {reply : Reply} (hm : m.coremap.Exact)
    (hin : m.coremap.placement.InTable m.coremap.size) (ha : m.swap.Sound)
    (hram : m.ram.size = m.coremap.size) (hidle : m.swap.slots.state? slot = some (page, .idle))
    (h : m.Performs (.pageIn page slot) p) (hn : p.next = .reply reply) :
    FillStage m page slot p := by
  obtain ⟨first, hfirst, hlead⟩ := h
  cases pageIn_cases hfirst with
  | refused hold => exact nomatch hold_of_idle ha.slots hidle hold
  | held slots hold hp => exact provide_stage hm hin ha hram hold hp hlead hn

/-- A page-in whose slot is another's, or nobody's, is refused at once. -/
theorem pageIn_of_other (h : m.swap.slots.owner slot ≠ some page) :
    start false m (.pageIn page slot) =
      .ok (finish m [] (.address (.error (.restoreFailed (.invalidSlot slot))))) := by
  have hold : m.swap.slots.hold slot page = .ok (false, m.swap.slots) := if_pos h
  show (m.swap.slots.hold slot page >>= _) = _
  rw [hold]
  rfl

end Task

/-- An attempt to bring the page back from the slot fails. -/
def Memory.FailsToBringBack (page : Page) (slot : Nat) (m n : Memory) : Prop :=
  ∃ e notices, m.Performs (.pageIn page slot) ⟨n, notices, .reply (.address (.error e))⟩

namespace Machine

variable {m n : Memory} {w : Machine} {moves : List Move} {events : List Event} {page : Page}
  {slot : Nat} {p : Task.Piece} {reply : Reply}

/-! ## One attempt -/

/-- In a state without calls a page-in is refused at once, and nothing changes, or goes through the
stages of a filling. -/
theorem pageIn_ends (hm : m.IsFresh)
    (hrun : (Machine.idle m).run sequential moves = some (w, events)) (hidle : w.calls = [])
    (h : w.memory.Performs (.pageIn page slot) p) (hn : p.next = .reply reply) :
    (w.memory.swap.slots.owner slot ≠ some page ∧
        reply = .address (.error (.restoreFailed (.invalidSlot slot))) ∧
        ∃ d, p.memory = w.memory.putDevice d ∧
          w.memory.swap.device.Touches (fun _ => False) d) ∨
      w.memory.swap.slots.owner slot = some page ∧ Task.FillStage w.memory page slot p := by
  by_cases howner : w.memory.swap.slots.owner slot = some page
  · refine Or.inr ⟨howner, ?_⟩
    have hs := (Intact.of_run hm hrun).1
    have hmanaged := managed_run_of_sequential hrun
    obtain ⟨s, hstate⟩ := state?_of_owner howner
    obtain rfl := hs.idle_of_empty hidle hstate
    exact Task.fillStage_of_performs (exact_of_run hm hmanaged) (inTable_of_run hm hmanaged)
      hs.area hs.ram hstate h hn
  · refine Or.inl ⟨howner, ?_⟩
    obtain ⟨first, hfirst, hlead⟩ := h
    cases (Task.pageIn_of_other howner).symm.trans hfirst
    obtain ⟨hsame, -⟩ := hlead.of_reply rfl
    exact ⟨Task.Next.reply.inj (hn.symm.trans hsame), hlead.putDevice rfl⟩

/-! ## Many attempts -/

/-- What attempts that fail pass on: a state without calls, the owner of the slot, and its
bytes. -/
structure Heirloom (m : Memory) (slot : Nat) (old n : Memory) : Prop where
  reached : ∃ moves events, (Machine.idle m).run sequential moves = some (idle n, events)
  owner : n.swap.slots.owner slot = old.swap.slots.owner slot
  stored : n.swap.device.stored slot = old.swap.device.stored slot

/-- **One attempt that fails** passes on what it found. -/
theorem Heirloom.passed {old n' : Memory} (hm : m.IsFresh) (h : Heirloom m slot old n)
    (hfails : n.FailsToBringBack page slot n') : Heirloom m slot old n' := by
  obtain ⟨moves, events, hrun⟩ := h.reached
  obtain ⟨e, notices, hperforms⟩ := hfails
  obtain ⟨more, later, -, hmore, -⟩ := (performs_iff_run rfl).mp ⟨notices, hperforms⟩
  refine ⟨⟨_, _, run_append.mpr ⟨_, _, _, hrun, hmore, rfl⟩⟩, ?_, ?_⟩
  all_goals
    rcases pageIn_ends hm hrun rfl hperforms rfl with ⟨-, -, d, hd, htouches⟩ | ⟨howner, hstage⟩
  · cases hd
    exact h.owner
  · cases hstage with
    | failed he hgave => exact ((owner_of_state? hgave.held).trans howner.symm).trans h.owner
  · cases hd
    exact (htouches.stored slot id).trans h.stored
  · cases hstage with
    | failed he hgave =>
        obtain ⟨s, hstate⟩ := state?_of_owner howner
        refine (hgave.stored slot ?_).trans h.stored
        exact Option.ne_none_iff_exists'.mpr ⟨_, hstate⟩

/-- **Attempts that fail** pass on what the first of them found. -/
theorem heirloom_of_fails (hm : m.IsFresh)
    (hrun : (Machine.idle m).run sequential moves = some (idle n, events)) {n' : Memory}
    (h : Relation.ReflTransGen (Memory.FailsToBringBack page slot) n n') :
    Heirloom m slot n n' := by
  induction h with
  | refl => exact ⟨⟨moves, events, hrun⟩, rfl, rfl⟩
  | tail _ hfails ih => exact ih.passed hm hfails

/-- **Bringing a page back is all or nothing**, in every state without calls that sequential
operations lead to, for every page and every slot, and wherever the drive fails.

A slot that is not the page's is refused at once, and that is the only reason to answer so; at most
the drive has been told something else meanwhile. An answer with an address means that the page is
there and its slot free, every other answer that slot and frames are as they were but for at most one
eviction and the place where the next search begins. So attempts can fail any number of times: one
that succeeds later delivers what was in the slot before the first.

If slots are overwritten, then a page-in that succeeds leaves zeros in its slot, unless a write to
the slot failed at one of its moves. -/
theorem page_in_is_all_or_nothing (hm : m.IsFresh)
    (hrun : (Machine.idle m).run sequential moves = some (w, events)) (hidle : w.calls = [])
    (page : Page) (slot : Nat) :
    (w.memory.swap.slots.owner slot ≠ some page →
      w.memory.Performs (.pageIn page slot)
        (Task.finish w.memory [] (.address (.error (.restoreFailed (.invalidSlot slot)))))) ∧
    (∀ p reply, w.memory.Performs (.pageIn page slot) p → p.next = .reply reply →
      ∃ result, reply = .address result ∧
        (result = .error (.restoreFailed (.invalidSlot slot)) ↔
          w.memory.swap.slots.owner slot ≠ some page) ∧
        (result = .error (.restoreFailed (.invalidSlot slot)) →
          ∃ d, p.memory = w.memory.putDevice d ∧
            w.memory.swap.device.Touches (fun _ => False) d) ∧
        (∀ a, result = .ok a → w.memory.BroughtBack page slot a p) ∧
        ∀ e, result = .error e → e ≠ .restoreFailed (.invalidSlot slot) →
          w.memory.GaveUp page slot p.memory) ∧
    (∀ n z notices a, Relation.ReflTransGen (Memory.FailsToBringBack page slot) w.memory n →
      n.Performs (.pageIn page slot) ⟨z, notices, .reply (.address (.ok a))⟩ →
      ∃ c, z.contentsAt a = .ok c ∧
        ∀ i : Place, w.memory.swap.device.stored slot i = some (c.get i)) ∧
    ∀ attempt z more a, (∀ move ∈ attempt, move.isQuiet = true) →
      w.run sequential (.start (.pageIn page slot) :: attempt) = some (z, more) →
      .answered 0 (.pageIn page slot) (.address (.ok a)) ∈ more →
      w.memory.swap.scrub = true →
      (∀ made ∈ w.trace (.start (.pageIn page slot) :: attempt),
        made.failsToWrite slot = false) →
      ∀ i : Place, z.memory.swap.device.stored slot i = some .zero := by
  refine ⟨fun howner => ⟨_, Task.pageIn_of_other howner, .refl⟩, ?_, ?_, ?_⟩
  · intro p reply h hn
    rcases pageIn_ends hm hrun hidle h hn with ⟨howner, rfl, hd⟩ | ⟨howner, hstage⟩
    · exact ⟨_, rfl, iff_of_true rfl howner, fun _ => hd, nofun, fun e he hne => absurd
        (Except.error.inj he).symm hne⟩
    · cases hstage with
      | failed he hgave =>
          cases hn
          have hother : ¬ (w.memory.swap.slots.owner slot ≠ some page) := not_not_intro howner
          refine ⟨_, rfl, iff_of_false (fun hr => he (Except.error.inj hr)) hother, fun hr => ?_,
            nofun, fun _ _ _ => hgave⟩
          exact absurd (Except.error.inj hr) he
      | full hback =>
          cases hn
          refine ⟨_, rfl, iff_of_false nofun (not_not_intro howner), nofun, ?_, nofun⟩
          rintro a ⟨⟩
          exact hback
      | _ => exact nomatch hn
  · intro n z notices a hfails hperforms
    obtain ⟨memory, calls⟩ := w
    obtain rfl : calls = [] := hidle
    have hold := heirloom_of_fails hm hrun hfails
    obtain ⟨before, past, hbefore⟩ := hold.reached
    rcases pageIn_ends hm hbefore rfl hperforms rfl with ⟨-, hn, -⟩ | ⟨-, hstage⟩
    · exact nomatch hn
    · cases hstage with
      | full hback =>
          obtain ⟨c, hc, hbytes⟩ := hback.contents
          refine ⟨c, hc, fun i => ?_⟩
          rw [← hold.stored]
          exact hbytes i
  · intro attempt z more a hquiet hattempt hanswer hscrub hworks
    exact zero_of_run (Intact.of_run hm hrun).1 hidle hscrub hquiet hattempt hanswer hworks

/-- A page with some bytes is evicted, and the drive is about to fail. -/
def awayAndFailing : List Move :=
  [.start (.allocate .user 1 (some ⟨1, 0⟩)), .probe (.store 4096 #[1, 2, 3]), .start .evict] ++
    List.replicate 10 .resume ++ [.probe (.setLimit .reads (some 3))]

/-- The first attempt cannot read the fourth sector; the drive works again, and the second brings
the bytes back and leaves zeros in the slot. -/
theorem page_in_is_all_or_nothing_of_awayAndFailing :
    ∃ w events n z notices c,
      (Machine.idle .small).run sequential awayAndFailing = some (w, events) ∧ w.calls = [] ∧
      w.memory.FailsToBringBack ⟨1, 0⟩ 0 n ∧ w.memory.GaveUp ⟨1, 0⟩ 0 n ∧
      n.Performs (.pageIn ⟨1, 0⟩ 0) ⟨z, notices, .reply (.address (.ok 4096))⟩ ∧
      z.contentsAt 4096 = .ok c ∧
      (∀ i : Place, w.memory.swap.device.stored 0 i = some (c.get i)) ∧
      (c.byte 0, c.byte 1, c.byte 2) = (1, 2, 3) ∧
      ∀ i : Place, z.swap.device.stored 0 i = some .zero := by
  let second : List Move := .start (.pageIn ⟨1, 0⟩ 0) :: List.replicate 17 .resume
  have hall : (((Machine.idle .small).run sequential awayAndFailing).bind fun r =>
      (r.1.run sequential (.start (.pageIn ⟨1, 0⟩ 0) :: (List.replicate 5 .resume ++
        [.probe (.setLimit .reads none)]))).bind fun s =>
          (s.1.run sequential second).map fun u =>
            ([r.1.calls, s.1.calls, u.1.calls],
              [decide (.answered 0 (.pageIn ⟨1, 0⟩ 0)
                (.address (.error (.restoreFailed (.io .readError)))) ∈ s.2),
                decide (.answered 0 (.pageIn ⟨1, 0⟩ 0) (.address (.ok 4096)) ∈ u.2),
                s.1.memory.swap.scrub, !(s.1.trace second).any (Made.failsToWrite 0)],
              (u.1.memory.contentsAt 4096).toOption.map fun c => (c.byte 0, c.byte 1, c.byte 2))) =
      some ([[], [], []], [true, true, true, true], some (1, 2, 3)) := by decide +kernel
  obtain ⟨⟨w, events⟩, hrun, hall⟩ := Option.bind_eq_some_iff.mp hall
  obtain ⟨⟨x, failing⟩, hx, hall⟩ := Option.bind_eq_some_iff.mp hall
  obtain ⟨⟨y, later⟩, hy, hall⟩ := Option.map_eq_some_iff.mp hall
  simp only [Prod.mk.injEq, List.cons.injEq, decide_eq_true_eq, Bool.not_eq_true', and_true] at hall
  obtain ⟨⟨hw, hx', hy'⟩, ⟨hfailed, hbrought, hscrub, hworks⟩, hbegins⟩ := hall
  obtain ⟨said, hfirst⟩ := performs_of_run rfl (by decide) hw hx hx' hfailed
  obtain ⟨notices, hsecond⟩ := performs_of_run rfl (by decide) hx' hy hy' hbrought
  obtain ⟨-, hattempt, hlast, -⟩ := page_in_is_all_or_nothing Memory.small_isFresh hrun hw ⟨1, 0⟩ 0
  have hfails : w.memory.FailsToBringBack ⟨1, 0⟩ 0 x.memory := ⟨_, said, hfirst⟩
  obtain ⟨c, hc, hbytes⟩ := hlast _ _ _ _ (.single hfails) hsecond
  obtain ⟨result, hresult, -, -, -, hgave⟩ := hattempt _ _ hfirst rfl
  cases hresult
  rw [hc] at hbegins
  -- the second attempt starts in a state that sequential operations lead to as well
  obtain ⟨-, -, -, hzero⟩ := page_in_is_all_or_nothing Memory.small_isFresh
    (run_append.mpr ⟨_, _, _, hrun, hx, rfl⟩) hx' ⟨1, 0⟩ 0
  refine ⟨w, events, _, _, notices, c, hrun, hw, hfails, hgave _ rfl nofun, hsecond, hc, hbytes,
    Option.some.inj hbegins, ?_⟩
  exact hzero _ y later 4096 (by decide) hy hbrought hscrub fun made hmade =>
    Bool.eq_false_iff.mpr (List.any_eq_false.mp hworks made hmade)

end Machine

end PhysMem
