import PhysMem.Proofs.Evictions
import PhysMem.Proofs.Restores

/-!
# Telling — what the pager hears is so

The pager is told of an eviction at its last call-out. Before that the eviction has stopped at the
mapping of its frame and ahead of each sector, and other operations ran there. An eviction that is
told of has been through all these stops, each sector was written when it went on from there, and
nobody has given its frame up meanwhile.

* **`storedInto`** is what the stores of a run make of a frame. A store that finds the frame lent is
  refused.
* **`OnItsWay`** is the invariant of an eviction on its way to the device. **`OnItsWay.moved`** is its
  preservation by one move, **`Stage.of_run`** by a run.
* **`Told`** — what is so at the moment when the pager is told.
* **`pager_is_told_truthfully`** says that it is so, and what becomes of an eviction whose frame was
  given up.
-/

namespace PhysMem

open SlotMap

namespace Task

/-- The eviction that is on its way to the device. -/
def evicting? : Task → Option Eviction
  | .evictMapping e | .evictWriting e _ => some e
  | _ => none

/-- Where the eviction was stopped before. -/
def passed : Task → List Task
  | .evictWriting e i =>
    .evictMapping e :: ((List.finRange sectorsPerFrame).take i.val).map (.evictWriting e)
  | .evictTelling e => .evictMapping e :: (List.finRange sectorsPerFrame).map (.evictWriting e)
  | _ => []

theorem holds_of_evicting {t : Task} {e : Eviction} (h : t.evicting? = some e) :
    t.holds e.slot e.page := by
  cases t <;> cases h <;> exact Or.inl ⟨rfl, rfl⟩

theorem cargo?_of_evicting {t : Task} {e : Eviction} (h : t.evicting? = some e) :
    t.cargo? = some (evictCargo e) := by
  cases t <;> cases h <;> rfl

/-- A frame that is read into is lent. -/
theorem loan?_of_fills {t : Task} {k : Nat} (h : t.fills k) :
    ∃ loan, t.loan? = some loan ∧ loan.frame = k := by
  cases t with
  | fillReading f i => exact ⟨_, rfl, h.symm⟩
  | _ => exact h.elim

/-- The places up to one, with that one. -/
theorem take_places (i : Place) : (List.finRange sectorsPerFrame).take (i.val + 1) =
    (List.finRange sectorsPerFrame).take i.val ++ [i] := by
  have hlt : i.val < (List.finRange sectorsPerFrame).length := by
    rw [List.length_finRange]
    exact i.isLt
  rw [List.take_add_one, List.getElem?_eq_getElem hlt, List.getElem_finRange]
  rfl

/-- An eviction has come to its next stop from the one before. -/
theorem Follows.passed {t t' : Task} {e : Eviction} (h : t.Follows (.callOut t'))
    (ht : t'.evicting? = some e ∨ t' = .evictTelling e) :
    t.evicting? = some e ∧ t'.passed = t.passed ++ [t] ∧ t'.site ≠ .map := by
  -- only three pieces end at an eviction's own call-outs, each from the stop before
  generalize hn : Next.callOut t' = n at h
  cases h with
  | written e' =>
      cases hn
      obtain rfl := Option.some.inj (ht.resolve_right nofun)
      exact ⟨rfl, rfl, nofun⟩
  | @nextWritten e' i j hij =>
      cases hn
      obtain rfl := Option.some.inj (ht.resolve_right nofun)
      refine ⟨rfl, ?_, nofun⟩
      show Task.evictMapping e' :: _ = _
      rw [nextPlace_eq_some hij, take_places, List.map_append]
      rfl
  | @told e' i hi =>
      cases hn
      obtain rfl : e' = e := by
        cases ht.resolve_left nofun
        rfl
      have hall : (List.finRange sectorsPerFrame).take (i.val + 1) =
          List.finRange sectorsPerFrame := by
        have hlast : sectorsPerFrame - 1 < i.val + 1 :=
          lt_of_nextPlace_eq_none hi ⟨sectorsPerFrame - 1, by decide⟩
        refine List.take_of_length_le ?_
        rw [List.length_finRange]
        omega
      refine ⟨rfl, ?_, nofun⟩
      show Task.evictMapping e' :: _ = _
      rw [← hall, take_places, List.map_append]
      rfl
  | ended e' hat hend =>
      subst hn
      obtain ⟨f, rfl⟩ := hend.fills
      exact ht.elim nofun nofun
  | read f =>
      cases hn
      exact ht.elim nofun nofun
  | nextRead f hij =>
      cases hn
      exact ht.elim nofun nofun
  | scrubbed f hi =>
      cases hn
      exact ht.elim nofun nofun
  | nextScrubbed f hij =>
      cases hn
      exact ht.elim nofun nofun
  | unread f hat ha => exact nomatch hn
  | full f hat ha => exact nomatch hn

end Task

namespace Move

/-- The move gives up the frame of the eviction: the frame is freed, or the page's space torn
down. -/
def GivesUp (e : Eviction) : Move → Prop
  | .start (.tearDown space) => space = e.page.space
  | .start (.free address) => address = e.address
  | .start (.freeSeen seen) => Address.ofKernel? seen = some e.address
  | _ => False

/-- Whether a program stores into the frame at the address. -/
def storesTo (address : Nat) : Move → Bool
  | .probe (.store target _) => target == address
  | _ => false

end Move

/-- Frames hold the same in memories of the same bytes. -/
theorem Memory.contents_of_ram {m m' : Memory} (h : m'.ram = m.ram) (k : Nat) :
    m'.contents k = m.contents k := by
  unfold Memory.contents
  rw [h]

namespace Machine

variable {rules : Machine → Move → Bool} {w w' z : Machine} {move : Move} {moves : List Move}
  {events : List Event}

/-! ## Stores -/

namespace Made

/-- Whether the move is a probe that finds its frame lent. -/
def isRefused (made : Made) : Bool :=
  match made.move with
  | .probe p => p.isRefused (loans made.before.calls) made.before.memory
  | _ => false

/-- What the move makes of the contents of the frame at the address, if only stores get at it. -/
def storesInto (address : Nat) (c : Contents) (made : Made) : Contents :=
  match made.move with
  | .probe (.store target bytes) =>
    if target = address ∧ made.isRefused = false then c.overwrite bytes else c
  | _ => c

/-- The sector of the frame, as it was at the move, could be written. -/
def Wrote (e : Eviction) (i : Place) (made : Made) : Prop :=
  ∃ device, made.before.memory.swap.device.store e.slot i
    ((made.before.memory.contents e.frame).get i) = .ok (.ok (), device)

/-- A store to the address that is refused makes nothing of its frame. -/
theorem storesInto_of_refused {made : Made} {address : Nat} (c : Contents)
    (h : made.move.storesTo address = true → made.isRefused = true) :
    made.storesInto address c = c := by
  unfold storesInto
  split
  · next target bytes hmove =>
      refine if_neg fun ⟨hto, hacts⟩ => ?_
      rw [hmove] at h
      exact nomatch hacts.symm.trans (h (beq_iff_eq.mpr hto))
  · rfl

end Made

/-- What the stores among these moves make of the contents of the frame at the address. -/
def storedInto (address : Nat) (c : Contents) (past : List Made) : Contents :=
  past.foldl (Made.storesInto address) c

theorem storedInto_concat (address : Nat) (c : Contents) (past : List Made) (made : Made) :
    storedInto address c (past ++ [made]) = made.storesInto address (storedInto address c past) :=
  List.foldl_concat ..

/-- **A probe changes a frame by a store that is not refused** and in no other way. -/
theorem contents_of_probe {probe : Probe} {o : Outcome} {m : Memory} {address k : Nat}
    (hram : w.memory.ram.size = w.memory.coremap.size) (hprobe : probe.leavesSlots = true)
    (hk : w.memory.coremap.indexOf? address = some k)
    (h : probe.perform (loans w.calls) w.memory = .ok (o, m)) :
    m.contents k =
      (Made.mk w (.probe probe) events).storesInto address (w.memory.contents k) := by
  rcases Probe.perform_cases h with ⟨hrefused, -, rfl⟩ | ⟨hacts, h⟩
  · have hlent : (Made.mk w (.probe probe) events).isRefused = true := hrefused
    exact (Made.storesInto_of_refused _ fun _ => hlent).symm
  cases probe with
  | store target bytes =>
      obtain ⟨old, hold, h⟩ := Fault.bind_eq_ok.mp h
      cases h
      unfold Memory.contentsAt at hold
      unfold Memory.putContentsAt
      by_cases hto : target = address
      · subst hto
        rw [hk] at hold ⊢
        cases hold
        have hlt : k < w.memory.ram.size := hram ▸ Coremap.lt_size_of_indexOf? hk
        exact (Task.contents_putContents_self _ hlt).trans (if_pos ⟨rfl, hacts⟩).symm
      · refine Eq.trans ?_ (if_neg fun hboth => hto hboth.1).symm
        split
        · next i hi =>
            refine Task.contents_putContents_ne _ ?_
            rintro rfl
            exact hto ((Coremap.eq_of_indexOf? hi).trans (Coremap.eq_of_indexOf? hk).symm)
        · rfl
  | stats | tlbSlot | isReserved | contents =>
      obtain ⟨_, -, h⟩ := Fault.bind_eq_ok.mp h
      cases h
      rfl
  | frameCount | slotOwner | swapInfo | setFailing | setLimit | entry =>
      cases h
      rfl
  | map page target =>
      unfold Probe.act at h
      dsimp only at h
      split at h <;> cases h <;> rfl
  | reserveSlot | holdSlot | settleSlot | releaseSlot | releaseSlotIfOwned | releaseSlots =>
      exact nomatch hprobe

/-- A frame that a call has lent is its cargo, unless the call is a bare restore. -/
theorem cargo?_of_loan (hs : w.Sound) {call : Call} {loan : Task.Loan} (hmem : call ∈ w.calls)
    (hguard : call.op.guardsSlots = true) (h : call.task.loan? = some loan) :
    ∃ c, call.task.cargo? = some c ∧ c.frame = loan.frame := by
  have hserves := hs.serves call hmem
  cases htask : call.task with
  | evictWriting e i =>
      rw [htask] at h
      cases h
      exact ⟨_, rfl, rfl⟩
  | fillReading f i =>
      rw [htask] at h hserves
      cases h
      obtain ⟨page, hpage⟩ := hserves.filling_page hguard rfl
      exact ⟨_, Task.fillCargo?_of_page hpage, rfl⟩
  | _ =>
      rw [htask] at h
      exact nomatch h

/-- A call inside an eviction neither writes the slot of the eviction nor fills its frame, and it is
not the one that has the frame aboard. -/
theorem spares_of_evicting (hs : w.Sound) (hands : HandsSound w.memory w.calls) {call ours : Call}
    {outer : List Call} {e : Eviction} (hcalls : w.calls = call :: outer) (hours : ours ∈ outer)
    (hevicting : ours.task.evicting? = some e) (hguard : call.op.guardsSlots = true) :
    (∀ i, ¬ call.task.writes e.slot i) ∧ ¬ call.task.fills e.frame ∧
      call.task.cargo? ≠ some (Task.evictCargo e) := by
  have hmem : call ∈ w.calls := hcalls ▸ List.mem_cons_self
  have hinside : ours ∈ w.calls := hcalls ▸ List.mem_cons_of_mem call hours
  -- no two calls have one slot in hand, nor one frame aboard
  have hslots := (List.pairwise_cons.mp (hcalls ▸ hands.apart)).1 _ hours
  have hframes := (List.pairwise_cons.mp (hcalls ▸ hs.laden.apart)).1 _ hours
  refine ⟨?_, ?_, ?_⟩
  · intro i hw
    obtain ⟨s, hstate, -⟩ := hands.busy _ hinside _ _ (Task.holds_of_evicting hevicting)
    exact hslots _ _ _
      (Task.owns_of_transfers (transfers_of_writes hs hands hmem hguard hw hstate))
      (Task.holds_of_evicting hevicting)
  · intro hfills
    obtain ⟨loan, hloan, hframe⟩ := Task.loan?_of_fills hfills
    obtain ⟨c, hcargo, hsame⟩ := cargo?_of_loan hs hmem hguard hloan
    exact hframes _ _ hcargo (Task.cargo?_of_evicting hevicting) (hsame.trans hframe)
  · exact fun hcargo => hframes _ _ hcargo (Task.cargo?_of_evicting hevicting) rfl

/-! ## An eviction on its way -/

/-- An eviction that has begun: the calls around it, the operation that it is part of, what it knows,
and what its frame held then. -/
structure Begun where
  outer : List Call
  op : Operation
  eviction : Eviction
  contents : Contents

namespace Begun

variable (b : Begun)

/-- The operation, stopped somewhere. -/
def call (t : Task) : Call := ⟨b.op, t⟩

/-- The eviction is stopped on its way to the device, with some calls inside it. It has been through
the stops before, each sector was written and the pager was told nothing. The frame holds what it did
at first with the stores since then, of which those were refused that came while it was written out.
Slot and frame agree on the sectors that are written, and the frame is orphaned if it was given up. -/
structure OnItsWay (w : Machine) (past : List Made) (inner : List Call) (t : Task) : Prop where
  calls : w.calls = inner ++ b.call t :: b.outer
  evicting : t.evicting? = some b.eviction
  hands : HandsSound w.memory w.calls
  guards : ∀ c ∈ w.calls, c.op.guardsSlots = true
  placed : w.memory.coremap.indexOf? b.eviction.address = some b.eviction.frame
  stops : past.filterMap (Made.goesOn? b.outer.length) = t.passed
  wrote : ∀ made ∈ past, ∀ i, made.goesOn? b.outer.length = some (.evictWriting b.eviction i) →
    made.Wrote b.eviction i
  silent : ∀ made ∈ past, made.goesOn? b.outer.length ≠ none →
    ∀ page slot c, .told page slot c ∉ made.shown
  contents : w.memory.contents b.eviction.frame =
    storedInto b.eviction.address b.contents past
  refusals : ∀ made ∈ past, made.move.storesTo b.eviction.address = true →
    (made.isRefused = true ↔ ∃ c ∈ made.before.calls, ∃ i, c.task = .evictWriting b.eviction i)
  agrees : ∀ i, t = .evictWriting b.eviction i →
    w.memory.Agrees b.eviction.frame b.eviction.slot i
  orphaned : (∃ made ∈ past, made.move.GivesUp b.eviction) →
    w.memory.coremap.Carries (Task.evictCargo b.eviction) true

/-- How far the operation has come. -/
inductive Stage (w : Machine) (past : List Made) : Prop
  | onItsWay {inner : List Call} {t : Task} (h : b.OnItsWay w past inner t)
  /-- The pager was told, or the eviction has failed. -/
  | behind {inner : List Call} {t : Task} (hcalls : w.calls = inner ++ b.call t :: b.outer)
      (ht : t.evicting? = none)
  | answered (h : w.calls.length ≤ b.outer.length)

namespace OnItsWay

variable {b : Begun} {past : List Made} {inner : List Call} {t : Task}

theorem mem (h : b.OnItsWay w past inner t) : b.call t ∈ w.calls := by
  rw [h.calls]
  exact List.mem_append_right _ List.mem_cons_self

theorem carries (hs : w.Sound) (h : b.OnItsWay w past inner t) :
    ∃ o, w.memory.coremap.Carries (Task.evictCargo b.eviction) o :=
  hs.laden.aboard _ h.mem _ (Task.cargo?_of_evicting h.evicting)

/-- The eviction itself fills no frame. -/
theorem not_fills (h : b.OnItsWay w past inner t) (k : Nat) : ¬ t.fills k := by
  have hevicting := h.evicting
  cases t with
  | fillReading f i => exact nomatch hevicting
  | _ => exact id

/-- Nobody but the eviction has its frame aboard. -/
theorem ours (hs : w.Sound) (h : b.OnItsWay w past inner t) {c : Call} {d : Cargo}
    (hc : c ∈ w.calls) (hd : c.task.cargo? = some d) (hframe : d.frame = b.eviction.frame) :
    c = b.call t := by
  have hown := Task.cargo?_of_evicting h.evicting
  have hapart := hs.laden.apart
  rw [h.calls] at hc hapart
  obtain ⟨-, houter, hinner⟩ := List.pairwise_append.mp hapart
  rcases List.mem_append.mp hc with hc | hc
  · exact absurd hframe (hinner c hc _ List.mem_cons_self _ _ hd hown)
  rcases List.mem_cons.mp hc with rfl | hc
  · rfl
  · exact absurd hframe.symm ((List.pairwise_cons.mp houter).1 c hc _ _ hown hd)

/-- **A store into the frame is refused while it is written out**, and at no other time. -/
theorem refuses (hs : w.Sound) (h : b.OnItsWay w past inner t)
    (hto : move.storesTo b.eviction.address = true) :
    (Made.mk w move events).isRefused = true ↔
      ∃ c ∈ w.calls, ∃ i, c.task = .evictWriting b.eviction i := by
  cases move with
  | probe probe =>
      cases probe with
      | store target bytes =>
          obtain rfl : target = b.eviction.address := eq_of_beq hto
          have hrefused : (Made.mk w (.probe (.store b.eviction.address bytes)) events).isRefused =
              (loans w.calls).any fun loan => b.eviction.frame = loan.frame := by
            unfold Made.isRefused Probe.isRefused
            simp only [h.placed, Option.some.injEq]
          rw [hrefused]
          simp only [List.any_eq_true, decide_eq_true_eq]
          constructor
          · rintro ⟨loan, hloan, hframe⟩
            obtain ⟨task, htask, hlends⟩ := List.mem_filterMap.mp hloan
            obtain ⟨c, hc, rfl⟩ := List.mem_map.mp htask
            obtain ⟨d, hd, hsame⟩ := cargo?_of_loan hs hc (h.guards c hc) hlends
            obtain rfl := h.ours hs hc hd (hsame.trans hframe.symm)
            have hevicting := h.evicting
            cases t with
            | evictWriting e i =>
                obtain rfl : e = b.eviction := Option.some.inj hevicting
                exact ⟨_, hc, i, rfl⟩
            | evictMapping e => exact nomatch hlends
            | _ => exact nomatch hevicting
          · rintro ⟨c, hc, i, htask⟩
            refine ⟨⟨b.eviction.frame, false⟩, List.mem_filterMap.mpr ?_, rfl⟩
            exact ⟨c.task, List.mem_map_of_mem hc, by rw [htask]; rfl⟩
      | _ => exact nomatch hto
  | _ => exact nomatch hto

/-- **The eviction stays where it is** at a move that leaves its slot alone and gets at its frame by a
store at most. -/
theorem spared (hs : w.Sound) (h : b.OnItsWay w past inner t) {inner' : List Call}
    (hother : (Made.mk w move events).goesOn? b.outer.length = none)
    (hcalls : w'.calls = inner' ++ b.call t :: b.outer) (hands : HandsSound w'.memory w'.calls)
    (guards : ∀ c ∈ w'.calls, c.op.guardsSlots = true)
    (table : w.memory.coremap.SameTable w'.memory.coremap)
    (stored : w'.memory.swap.device.stored b.eviction.slot =
      w.memory.swap.device.stored b.eviction.slot)
    (contents : w'.memory.contents b.eviction.frame = (Made.mk w move events).storesInto
      b.eviction.address (w.memory.contents b.eviction.frame))
    (orphaned : move.GivesUp b.eviction ∨
      w.memory.coremap.Carries (Task.evictCargo b.eviction) true →
        w'.memory.coremap.Carries (Task.evictCargo b.eviction) true) :
    b.OnItsWay w' (past ++ [⟨w, move, events⟩]) inner' t := by
  refine ⟨hcalls, h.evicting, hands, guards, ?_, ?_, ?_, ?_, ?_, ?_, ?_, ?_⟩
  · rw [table.indexOf?]
    exact h.placed
  · rw [List.filterMap_append, List.filterMap_cons_none hother]
    exact (List.append_nil _).trans h.stops
  · refine List.forall_mem_append.mpr ⟨h.wrote, List.forall_mem_singleton.mpr ?_⟩
    intro i hi
    exact nomatch hother.symm.trans hi
  · refine List.forall_mem_append.mpr ⟨h.silent, List.forall_mem_singleton.mpr ?_⟩
    exact fun hne => absurd hother hne
  · rw [contents, h.contents, storedInto_concat]
  · refine List.forall_mem_append.mpr ⟨h.refusals, List.forall_mem_singleton.mpr ?_⟩
    exact h.refuses hs
  · -- while sectors are written, the frame is lent and stays as it is
    intro i ht j hj
    rw [stored, contents, Made.storesInto_of_refused]
    · exact h.agrees i ht j hj
    · intro hto
      exact (h.refuses hs hto).mpr ⟨_, h.mem, i, ht⟩
  · rintro ⟨last, hlast, hgives⟩
    rcases List.mem_append.mp hlast with hpast | hnow
    · exact orphaned (Or.inr (h.orphaned ⟨last, hpast, hgives⟩))
    · rw [List.mem_singleton.mp hnow] at hgives
      exact orphaned (Or.inl hgives)

/-- Nobody else fills the frame of the eviction, and nobody else has its slot in hand. -/
theorem apart (hs : w.Sound) {call : Call} {rest : List Call}
    (h : b.OnItsWay w past (call :: rest) t) : (∀ i, ¬ call.task.writes b.eviction.slot i) ∧
      ¬ call.task.fills b.eviction.frame ∧
      call.task.cargo? ≠ some (Task.evictCargo b.eviction) :=
  spares_of_evicting hs h.hands h.calls (List.mem_append_right _ List.mem_cons_self) h.evicting
    (h.guards call (h.calls ▸ List.mem_cons_self))

/-- An operation starts at a call-out inside the eviction. -/
theorem started (hs : w.Sound) (h : b.OnItsWay w past inner t) {op : Operation} {held : Bool}
    {p : Task.Piece} (hop : op.guardsSlots = true) (hno : ∀ space, op ≠ .tearDown space)
    (hp : Task.start held w.memory op = .ok p) (takes : Task.Takes w.memory p)
    (hauls : Task.Hauls none op.Grants w.memory p)
    (hands : HandsSound (follow op w.calls p).1.memory (follow op w.calls p).1.calls) :
    b.OnItsWay (follow op w.calls p).1 (past ++ [⟨w, .start op, events⟩])
      (follow op inner p).1.calls t := by
  obtain ⟨o, hcarries⟩ := h.carries hs
  have hmemory := follow_memory op w.calls p
  refine h.spared hs rfl ?_ hands (forall_follow (fun _ _ => hop) h.guards) ?_ ?_ ?_ ?_
  · rw [h.calls]
    exact follow_append op inner _ p
  · rw [hmemory]
    exact takes.table
  · rw [hmemory, takes.device]
  · rw [hmemory]
    exact Memory.contents_of_ram takes.ram _
  · rw [hmemory]
    -- a free or a teardown of the frame orphans it, and whatever else starts keeps it orphaned
    rintro (hgives | hgiven)
    · cases op with
      | free address =>
          obtain rfl : address = b.eviction.address := hgives
          exact Task.free_orphans hs.coremap hcarries h.placed hp
      | freeSeen seen =>
          have hseen : Address.ofKernel? seen = some b.eviction.address := hgives
          have hfree : Task.freeSeen w.memory seen = .ok p := hp
          unfold Task.freeSeen at hfree
          rw [hseen] at hfree
          exact Task.free_orphans hs.coremap hcarries h.placed hfree
      | tearDown space => exact absurd rfl (hno space)
      | _ => exact hgives.elim
    · obtain ⟨o', hc, ho⟩ := hauls.kept _ _ hgiven nofun
      rw [ho rfl] at hc
      exact hc

/-- An address space is torn down inside the eviction. -/
theorem toreDown (hs : w.Sound) (h : b.OnItsWay w past inner t) {space : Nat} {p : Task.Piece}
    (tears : Task.TearsDown space w.memory p)
    (hauls : Task.Hauls none (Operation.tearDown space).Grants w.memory p)
    (gaveUp : ∀ i r, w.memory.coremap.HasRole i r →
      p.memory.coremap.HasRole i (Coremap.roleAfter space r))
    (hands : HandsSound p.memory w.calls) :
    b.OnItsWay ⟨p.memory, w.calls⟩ (past ++ [⟨w, .start (.tearDown space), events⟩]) inner t := by
  obtain ⟨o, hcarries⟩ := h.carries hs
  refine h.spared hs rfl h.calls hands h.guards tears.table (by rw [tears.device])
    (Memory.contents_of_ram tears.ram _) ?_
  · rintro (hgives | hgiven)
    · have hspace : space = b.eviction.page.space := hgives
      have hrole := gaveUp _ _ hcarries
      rw [Coremap.roleAfter_of_space rfl hspace.symm] at hrole
      exact hrole
    · obtain ⟨o', hc, ho⟩ := hauls.kept _ _ hgiven nofun
      rw [ho rfl] at hc
      exact hc

/-- Something is looked at or changed from outside. -/
theorem probed (hs : w.Sound) (h : b.OnItsWay w past inner t) {probe : Probe} {outcome : Outcome}
    {m : Memory} (hprobe : probe.leavesSlots = true)
    (hp : probe.perform (loans w.calls) w.memory = .ok (outcome, m))
    (leaves : Probe.Leaves w.memory m) (hands : HandsSound m w.calls) :
    b.OnItsWay { w with memory := m } (past ++ [⟨w, .probe probe, events⟩]) inner t := by
  have hcoremap : m.coremap = w.memory.coremap := leaves.coremap
  refine h.spared hs rfl h.calls hands h.guards ?_ (leaves.stored _) ?_ ?_
  · show w.memory.coremap.SameTable m.coremap
    rw [hcoremap]
    exact .refl _
  · exact contents_of_probe hs.ram hprobe h.placed hp
  · rintro (hgives | hgiven)
    · exact hgives.elim
    · show m.coremap.Carries _ true
      rw [hcoremap]
      exact hgiven

/-- An operation inside the eviction goes on. -/
theorem inside (hs : w.Sound) {call : Call} {rest : List Call}
    (h : b.OnItsWay w past (call :: rest) t) {p : Task.Piece}
    (resumes : Task.Resumes call.task w.memory p)
    (hauls : Task.Hauls call.task.cargo? call.op.Grants w.memory p)
    (hands : HandsSound (follow call.op (rest ++ b.call t :: b.outer) p).1.memory
      (follow call.op (rest ++ b.call t :: b.outer) p).1.calls) :
    b.OnItsWay (follow call.op (rest ++ b.call t :: b.outer) p).1
      (past ++ [⟨w, .resume, events⟩]) (follow call.op rest p).1.calls t := by
  obtain ⟨hwrites, hfills, hcargo⟩ := h.apart hs
  obtain ⟨hguard, hguards⟩ := List.forall_mem_cons.mp (h.calls ▸ h.guards)
  have hmemory := follow_memory call.op (rest ++ b.call t :: b.outer) p
  refine h.spared hs (Made.goesOn?_of_ne h.calls ?_) (follow_append call.op rest _ p) hands
    (forall_follow (fun _ _ => hguard) hguards) ?_ ?_ ?_ ?_
  · simp only [List.append_eq, List.length_append, List.length_cons]
    omega
  · rw [hmemory]
    exact resumes.table
  · rw [hmemory]
    exact funext fun i => resumes.stored _ i (hwrites i)
  · rw [hmemory]
    exact resumes.contents _ hfills
  · rw [hmemory]
    rintro (hgives | hgiven)
    · exact hgives.elim
    · obtain ⟨o', hc, ho⟩ := hauls.kept _ _ hgiven hcargo
      rw [ho rfl] at hc
      exact hc

/-- The eviction goes on itself, to the next sector. -/
theorem own (hs : w.Sound) (h : b.OnItsWay w past [] t) {held : Bool} {p : Task.Piece}
    (hp : Task.resume held w.memory t = .ok p) (resumes : Task.Resumes t w.memory p)
    (hauls : Task.Hauls t.cargo? b.op.Grants w.memory p) (follows : t.Follows p.next) {t' : Task}
    (hn : p.next = .callOut t') (ht' : t'.evicting? = some b.eviction)
    (hands : HandsSound p.memory (b.call t' :: b.outer)) :
    b.OnItsWay ⟨p.memory, b.call t' :: b.outer⟩
      (past ++ [⟨w, .resume, shown p.memory t'⟩]) [] t' := by
  rw [hn] at follows
  obtain ⟨-, hpassed, hgoes⟩ := follows.passed (Or.inl ht')
  have hproper := hs.proper _ h.mem
  have hours : (Made.mk w .resume (shown p.memory t')).goesOn? b.outer.length = some t :=
    Made.goesOn?_of_calls h.calls
  -- the stop it leaves is added to those it has passed, with its sector written
  refine ⟨rfl, ht', hands, ?_, ?_, ?_, ?_, ?_, ?_, ?_, ?_, ?_⟩
  · obtain ⟨hguard, hguards⟩ := List.forall_mem_cons.mp (h.calls ▸ h.guards)
    exact List.forall_mem_cons.mpr ⟨hguard, hguards⟩
  · show p.memory.coremap.indexOf? _ = _
    rw [hauls.table.indexOf?]
    exact h.placed
  · rw [List.filterMap_append, h.stops, hpassed, List.filterMap_cons_some hours]
    rfl
  · refine List.forall_mem_append.mpr ⟨h.wrote, List.forall_mem_singleton.mpr ?_⟩
    intro i hi
    obtain rfl : t = _ := Option.some.inj (hours.symm.trans hi)
    exact Task.writeNow_stores hp hn hgoes
  · refine List.forall_mem_append.mpr ⟨h.silent, List.forall_mem_singleton.mpr ?_⟩
    intro _ page slot c
    cases t' with
    | evictTelling e => exact nomatch ht'
    | _ => exact List.not_mem_nil
  · rw [storedInto_concat, ← h.contents]
    exact resumes.contents _ (h.not_fills _)
  · refine List.forall_mem_append.mpr ⟨h.refusals, List.forall_mem_singleton.mpr ?_⟩
    exact h.refuses hs
  · rintro i rfl
    cases follows with
    | written e =>
        intro j hj
        exact absurd hj (Nat.not_lt_zero _)
    | nextWritten e hij =>
        rw [Task.nextPlace_eq_some hij]
        exact Task.writeNow_agrees hs.area hproper hp hn hgoes (h.agrees _ rfl)
    | ended e hat hend => exact absurd hend.maps hgoes
  · rintro ⟨last, hlast, hgives⟩
    have hnext : p.next.cargo? = some (Task.evictCargo b.eviction) := by
      rw [hn]
      exact Task.cargo?_of_evicting ht'
    obtain ⟨-, hsame⟩ | ⟨hnot, -⟩ := hauls.next _ hnext
    · rcases List.mem_append.mp hlast with hpast | hnow
      · exact hsame _ (h.orphaned ⟨last, hpast, hgives⟩)
      · rw [List.mem_singleton.mp hnow] at hgives
        exact hgives.elim
    · exact absurd (Task.cargo?_of_evicting h.evicting) hnot

/-- **One move takes an eviction on its way no further than to its next stop**, and nothing that
happens inside it gets at its slot or its frame. -/
theorem moved (hs : w.Sound) (h : b.OnItsWay w past inner t)
    (hrule : within b.outer.length w move = true)
    (hmoved : Moved w move w' events) : b.Stage w' (past ++ [⟨w, move, events⟩]) := by
  have hguard : guarded w move = true := (Bool.and_eq_true_iff.mp hrule).1
  have hands := h.hands.moved hs hguard hmoved
  cases hmoved with
  | started hop hno hp takes hauls serves =>
      exact .onItsWay (h.started hs hguard hno hp takes hauls hands)
  | toreDown tears hauls gaveUp => exact .onItsWay (h.toreDown hs tears hauls gaveUp hands)
  | @resumed call outer p hcalls hp resumes hauls follows =>
      have hsplit := hcalls.symm.trans h.calls
      cases inner with
      | nil =>
          obtain ⟨rfl, rfl⟩ := List.cons.inj hsplit
          unfold follow at hands ⊢
          cases hn : p.next with
          | reply r => exact .answered (Nat.le_refl _)
          | callOut t' =>
              -- the telling and the filling behind a failure are no stops on the way
              cases ht' : t'.evicting? with
              | none => exact .behind (List.nil_append _).symm ht'
              | some e =>
                  have hfollows := follows
                  rw [hn] at hfollows hands
                  obtain ⟨hevicting, -⟩ := hfollows.passed (Or.inl ht')
                  cases hevicting.symm.trans h.evicting
                  exact .onItsWay (h.own hs hp resumes hauls follows hn ht' hands)
      | cons first rest =>
          obtain ⟨rfl, rfl⟩ := List.cons.inj hsplit
          exact .onItsWay (h.inside hs resumes hauls hands)
  | rested hcalls =>
      rw [h.calls] at hcalls
      exact nomatch (List.append_eq_nil_iff.mp hcalls).2
  | probed hp leaves => exact .onItsWay (h.probed hs hguard hp leaves hands)

end OnItsWay

namespace Stage

variable {b : Begun} {past : List Made}

/-- An operation that has an eviction behind it does not begin another one. -/
theorem moved (hs : w.Sound) (h : b.Stage w past)
    (hrule : within b.outer.length w move = true)
    (hmoved : Moved w move w' events) : b.Stage w' (past ++ [⟨w, move, events⟩]) := by
  cases h with
  | onItsWay h => exact h.moved hs hrule hmoved
  | answered h =>
      have hin := of_decide_eq_true (Bool.and_eq_true_iff.mp hrule).2
      exact absurd hin (Nat.not_lt.mpr h)
  | @behind inner t hcalls ht =>
      cases hmoved with
      | @started op p hop hno hp takes hauls serves =>
          have hsplit := follow_append op inner (b.call t :: b.outer) p
          rw [← hcalls] at hsplit
          exact .behind hsplit ht
      | toreDown tears hauls gaveUp => exact .behind hcalls ht
      | @resumed call outer p hcalls' hp resumes hauls follows =>
          have hsplit := hcalls'.symm.trans hcalls
          cases inner with
          | nil =>
              obtain ⟨rfl, rfl⟩ := List.cons.inj hsplit
              unfold follow
              cases hn : p.next with
              | reply r => exact .answered (Nat.le_refl _)
              | callOut t' =>
                  rw [hn] at follows
                  refine .behind (List.nil_append _).symm ?_
                  -- an eviction's stops come behind its own stops only
                  refine Option.eq_none_iff_forall_ne_some.mpr fun e he => ?_
                  exact nomatch ht.symm.trans (follows.passed (Or.inl he)).1
          | cons first rest =>
              obtain ⟨rfl, rfl⟩ := List.cons.inj hsplit
              exact .behind (follow_append call.op rest _ p) ht
      | rested hcalls' => exact .behind hcalls ht
      | probed hp leaves => exact .behind hcalls ht

/-- So does one behind a run inside it. -/
theorem of_run (hs : w.Sound) (h : b.Stage w [])
    (hrun : w.run (within b.outer.length) moves = some (z, events)) :
    z.Sound ∧ b.Stage z (w.trace moves) := by
  refine trace_induction (P := fun w past => w.Sound ∧ b.Stage w past) (l := []) ?_ ⟨hs, h⟩ hrun
  rintro w past move w' events ⟨hs, h⟩ hrule hstep
  have hguard := (Bool.and_eq_true_iff.mp hrule).1
  have hmoved := moved_of_step hs (managed_of_guarded hguard) hstep
  exact ⟨hs.moved hmoved, h.moved hs hrule hmoved⟩

/-- When the operation is the innermost call, there are no calls inside it. -/
theorem innermost (h : b.Stage w past) {t : Task} (hcalls : w.calls = b.call t :: b.outer) :
    b.OnItsWay w past [] t ∨ t.evicting? = none := by
  cases h with
  | onItsWay h =>
      obtain ⟨rfl, hcall⟩ := nil_of_innermost (h.calls.symm.trans hcalls)
      cases hcall
      exact Or.inl h
  | behind hsplit ht =>
      obtain ⟨-, hcall⟩ := nil_of_innermost (hsplit.symm.trans hcalls)
      cases hcall
      exact Or.inr ht
  | answered h =>
      rw [hcalls, List.length_cons] at h
      omega

end Stage

end Begun

/-! ## The telling -/

/-- What is so when the pager is told of an eviction inside `n` calls: the eviction was stopped at the
mapping of its frame and ahead of each sector and nowhere else, each sector was written when it went
on from there, and no earlier move of its own told the pager. The slot is used, idle and the page's,
its sectors are what the frame holds, and the frame is allocated, on its way to swap, not given up
and off the chain. -/
structure Told (n : Nat) (e : Eviction) (past : List Made) (last : Made) (m : Memory) :
    Prop where
  stops : (past ++ [last]).filterMap (Made.goesOn? n) =
    .evictMapping e :: (List.finRange sectorsPerFrame).map (.evictWriting e)
  wrote : ∀ made ∈ past ++ [last], ∀ i, made.goesOn? n = some (.evictWriting e i) →
    made.Wrote e i
  once : ∀ made ∈ past, made.goesOn? n ≠ none → ∀ page slot c, .told page slot c ∉ made.shown
  used : m.swap.slots.isUsed e.slot = .ok true
  idle : m.swap.slots.isBusy e.slot = .ok false
  owner : m.swap.slots.owner e.slot = some e.page
  stored : ∀ i : Place, m.swap.device.stored e.slot i = some ((m.contents e.frame).get i)
  frame : ∃ d, m.coremap.frame e.frame = .ok d ∧ d.allocated = true ∧ d.evicting = true ∧
    d.orphaned = false ∧ d.page = some e.page
  offChain : ∃ l, m.coremap.Linked l ∧ e.frame ∉ l

namespace Begun

variable {b : Begun} {past : List Made} {t : Task} {held : Bool} {p : Task.Piece}

/-- **An eviction that goes on to tell the pager** has been everywhere, and its frame was not given
up. -/
theorem OnItsWay.tells (hs : w.Sound) (h : b.OnItsWay w past [] t)
    (hp : Task.resume held w.memory t = .ok p) (follows : t.Follows p.next)
    (hauls : Task.Hauls t.cargo? b.op.Grants w.memory p)
    (hn : p.next = .callOut (.evictTelling b.eviction)) :
    Told b.outer.length b.eviction past ⟨w, .resume, events⟩ p.memory ∧
      ∀ made ∈ past, ¬ made.move.GivesUp b.eviction := by
  rw [hn] at follows
  obtain ⟨-, hpassed, hgoes⟩ := follows.passed (Or.inr rfl)
  have hproper := hs.proper _ h.mem
  have hours : (Made.mk w .resume events).goesOn? b.outer.length = some t :=
    Made.goesOn?_of_calls h.calls
  obtain ⟨o, hcarries⟩ := h.carries hs
  -- only the last sector leads to the telling, so the agreement is about all sectors
  cases follows with
  | ended e hat hend => exact absurd hend.maps hgoes
  | @told e i hi =>
      have hagrees := Task.writeNow_agrees hs.area hproper hp hn hgoes (h.agrees i rfl)
      obtain ⟨hidle, hbusy, rfl, hcoremap⟩ := Task.writeNow_tells hs.area.slots hcarries hp hn
      have hsound : p.memory.coremap.Sound := hauls.sound
      have hslots : p.memory.swap.slots.Sound := (Task.writeNow_resumes hs.area hproper hp).area.slots
      have howner := owner_of_state? hidle
      have hcarries' : p.memory.coremap.Carries (Task.evictCargo b.eviction) false := by
        rw [hcoremap]
        exact hcarries
      refine ⟨⟨?_, ?_, h.silent, isUsed_of_owner hslots howner, hbusy, howner, ?_, ?_,
        hsound.not_mem_of_transit hcarries'⟩, ?_⟩
      · rw [List.filterMap_append, h.stops, List.filterMap_cons_some hours]
        exact hpassed.symm
      · refine List.forall_mem_append.mpr ⟨h.wrote, List.forall_mem_singleton.mpr ?_⟩
        intro j hj
        cases hours.symm.trans hj
        exact Task.writeNow_stores hp hn hgoes
      · exact fun j => hagrees j (Task.lt_of_nextPlace_eq_none hi j)
      · obtain ⟨d, hd, huse⟩ := Coremap.HasRole.frame hcarries'
        exact ⟨d, hd, congrArg Descriptor.allocated huse, congrArg Descriptor.evicting huse,
          congrArg Descriptor.orphaned huse, congrArg Descriptor.page huse⟩
      · intro made hmade hgives
        have hgiven := h.orphaned ⟨made, hmade, hgives⟩
        exact nomatch (hgiven.unique hcarries rfl).2

/-- An eviction whose frame was given up goes on to its next sector, or is over. -/
theorem OnItsWay.returns (hs : w.Sound) (h : b.OnItsWay w past [] t)
    (hp : Task.resume held w.memory t = .ok p)
    (hgiven : ∃ made ∈ past, made.move.GivesUp b.eviction) :
    (∃ i, p.next = .callOut (.evictWriting b.eviction i)) ∨
      ∃ n result, Task.Returns b.eviction n result p := by
  have hevicting := h.evicting
  have hstops : t = .evictMapping b.eviction ∨ ∃ i, t = .evictWriting b.eviction i := by
    cases t with
    | evictMapping e =>
        cases hevicting
        exact Or.inl rfl
    | evictWriting e i =>
        cases hevicting
        exact Or.inr ⟨i, rfl⟩
    | _ => exact nomatch hevicting
  obtain ⟨s, hstate, -⟩ := h.hands.busy _ h.mem _ _ (Task.holds_of_evicting hevicting)
  exact Task.resume_returns hstops hs.area.slots hs.coremap (owner_of_state? hstate)
    (h.orphaned hgiven) hp

end Begun

/-- The pager is told nothing when an operation starts. -/
theorem not_told_of_start {op : Operation} (hop : op.isManaged = true)
    (h : w.step (.start op) = .ok (w', events)) {page : Page} {slot : Nat} {c : Contents} :
    .told page slot c ∉ events := by
  obtain ⟨p, hp, hfollow⟩ := start_cases h
  intro htold
  obtain rfl := congrArg Prod.snd hfollow
  obtain ⟨e, hn, -⟩ := told_of_follow htold
  exact nomatch (Task.start_serves hop hp hn).2

/-- An eviction begins with the frame at its address. -/
theorem placed_of_start {op : Operation} {e : Eviction} (hop : op.isManaged = true)
    (h : w.step (.start op) = .ok (w', events))
    (hcalls : w'.calls = ⟨op, .evictMapping e⟩ :: w.calls) :
    w'.memory.coremap.indexOf? e.address = some e.frame := by
  obtain ⟨p, hp, hfollow⟩ := start_cases h
  obtain rfl := congrArg Prod.fst hfollow
  obtain ⟨hmemory, ⟨task, hn, hnext, -⟩ | ⟨reply, -, hnext, -⟩⟩ := follow_calls op w.calls p
  · obtain ⟨hcall, -⟩ := List.cons.inj (hnext.symm.trans hcalls)
    injection hcall with _ htask
    rw [htask] at hn
    rw [hmemory]
    exact Task.start_places hop hp hn
  · have hlen := congrArg List.length (hnext.symm.trans hcalls)
    rw [List.length_cons] at hlen
    omega

/-- An eviction that has just begun is on its way, and nothing has happened to it. -/
theorem onItsWay_of_start {op : Operation} {e : Eviction} (hw : w.Sound)
    (hands : HandsSound w.memory w.calls) (guards : ∀ c ∈ w.calls, c.op.guardsSlots = true)
    (hop : op.guardsSlots = true) (h : w.step (.start op) = .ok (w', events))
    (hcalls : w'.calls = ⟨op, .evictMapping e⟩ :: w.calls) :
    (Begun.mk w.calls op e (w'.memory.contents e.frame)).OnItsWay w' [] [] (.evictMapping e) where
  calls := hcalls
  evicting := rfl
  hands :=
    have hrule : guarded w (.start op) = true := hop
    hands.moved hw hrule (moved_of_step hw (managed_of_guarded hrule) h)
  guards := hcalls ▸ List.forall_mem_cons.mpr ⟨hop, guards⟩
  placed := placed_of_start (isManaged_of_guardsSlots hop) h hcalls
  stops := rfl
  wrote := List.forall_mem_nil _
  silent := List.forall_mem_nil _
  contents := rfl
  refusals := List.forall_mem_nil _
  agrees := nofun
  orphaned := fun ⟨_, hmem, _⟩ => (List.not_mem_nil hmem).elim

/-- An eviction that begins behind a run without bare restores, and a run inside it. -/
theorem Begun.Stage.of_start {m : Memory} {before : List Move} {y : Machine} {past now : List Event}
    {op : Operation} {e : Eviction} (hm : m.IsFresh)
    (hrun : (Machine.idle m).run guarded before = some (w, past)) (hop : op.guardsSlots = true)
    (hstart : w.step (.start op) = .ok (y, now))
    (hbegun : y.calls = ⟨op, .evictMapping e⟩ :: w.calls)
    (hinside : y.run (within w.calls.length) moves = some (z, events)) :
    z.Sound ∧ (Begun.mk w.calls op e (y.memory.contents e.frame)).Stage z (y.trace moves) := by
  obtain ⟨hw, hands⟩ := HandsSound.of_run hm hrun
  have hrule : managed w (.start op) = true := isManaged_of_guardsSlots hop
  exact Begun.Stage.of_run (hw.moved (moved_of_step hw hrule hstart))
    (.onItsWay (onItsWay_of_start hw hands (guards_of_run hm hrun) hop hstart hbegun)) hinside

/-- Whoever tells the pager inside no others is the eviction that has begun. -/
theorem Begun.Stage.telling {b : Begun} {past : List Made} {t : Task} {p : Task.Piece} {page : Page}
    {slot : Nat} {c : Contents} (h : b.Stage w past) (hcalls : w.calls = b.call t :: b.outer)
    (follows : t.Follows p.next) (htold : .told page slot c ∈ (follow b.op b.outer p).2) :
    b.OnItsWay w past [] t ∧ p.next = .callOut (.evictTelling b.eviction) ∧
      page = b.eviction.page ∧ slot = b.eviction.slot ∧
      c = p.memory.contents b.eviction.frame := by
  obtain ⟨e, hn, rfl, rfl, rfl⟩ := told_of_follow htold
  rw [hn] at follows
  obtain ⟨hevicting, -⟩ := follows.passed (Or.inr rfl)
  rcases h.innermost hcalls with h | hnone
  · obtain rfl : e = b.eviction := Option.some.inj (hevicting.symm.trans h.evicting)
    exact ⟨h, hn, rfl, rfl, rfl⟩
  · exact nomatch hevicting.symm.trans hnone

/-- A run in which a move gives the frame up traces that move. -/
theorem gaveUp_of_run {e : Eviction} (h : w.run rules moves = some (z, events))
    (hgiven : ∃ move ∈ moves, move.GivesUp e) : ∃ made ∈ w.trace moves, made.move.GivesUp e := by
  obtain ⟨move, hmove, hgives⟩ := hgiven
  rw [← trace_moves h] at hmove
  obtain ⟨made, hmade, rfl⟩ := List.mem_map.mp hmove
  exact ⟨made, hmade, hgives⟩

/-- **The pager is told the truth, and at most once.**

An operation that evicts starts in any run without bare restores, and any such operations run at the
call-outs of the eviction, with any failures of the drive and any stores of programs. If the pager is
told when the operation goes on, it is told of the page and the slot of this eviction, which has been
through all its stops and has written all its sectors, and all is as `Told` says. If the frame was
freed or the page's space torn down at an earlier call-out, the pager is not told: as long as the
eviction goes on it goes on to the next sector, and when it returns, frame and slot are free, whether
the sectors could be written or not. -/
theorem pager_is_told_truthfully {m : Memory} {before : List Move} {y : Machine}
    {past now : List Event} (hm : m.IsFresh)
    (hrun : (Machine.idle m).run guarded before = some (w, past)) {op : Operation}
    (hop : op.guardsSlots = true) (hstart : w.step (.start op) = .ok (y, now)) :
    (∀ page slot c, .told page slot c ∉ now) ∧
    ∀ e moves z later t z' last, y.calls = ⟨op, .evictMapping e⟩ :: w.calls →
      y.run (within w.calls.length) moves = some (z, later) →
      z.calls = ⟨op, t⟩ :: w.calls → z.step .resume = .ok (z', last) →
      (∀ page slot c, .told page slot c ∈ last →
        page = e.page ∧ slot = e.slot ∧ c = z'.memory.contents e.frame ∧
          Told w.calls.length e (y.trace moves) ⟨z, .resume, last⟩ z'.memory) ∧
      ((∃ move ∈ moves, move.GivesUp e) →
        (∀ page slot c, .told page slot c ∉ last) ∧
        (t.evicting? ≠ none → (∃ i, z'.calls = ⟨op, .evictWriting e i⟩ :: w.calls) ∨
          ∃ p n result, (z', last) = follow op w.calls p ∧ Task.Returns e n result p)) := by
  refine ⟨fun page slot c => not_told_of_start (isManaged_of_guardsSlots hop) hstart, ?_⟩
  intro e moves z later t z' last hbegun hinside hcalls hstep
  obtain ⟨hz, hstage⟩ := Begun.Stage.of_start hm hrun hop hstart hbegun hinside
  have hmem : ⟨op, t⟩ ∈ z.calls := hcalls ▸ List.mem_cons_self
  have hserves := hz.serves _ hmem
  obtain ⟨p, hp, rfl, rfl⟩ := resume_of_calls hcalls hstep
  have hauls := Task.resume_hauls hz.coremap hserves (hz.laden.aboard _ hmem) hp
  have follows := Task.resume_follows hserves.isManaged hp
  rw [follow_memory]
  have tells : ∀ page slot c, .told page slot c ∈ (follow op w.calls p).2 →
      (page = e.page ∧ slot = e.slot ∧ c = p.memory.contents e.frame ∧
        Told w.calls.length e (y.trace moves) ⟨z, .resume, (follow op w.calls p).2⟩ p.memory) ∧
      ∀ made ∈ y.trace moves, ¬ made.move.GivesUp e := by
    intro page slot c htold
    obtain ⟨h, hn, hpage, hslot, hc⟩ := hstage.telling hcalls follows htold
    obtain ⟨htold, hkept⟩ := h.tells hz hp follows hauls hn
    exact ⟨⟨hpage, hslot, hc, htold⟩, hkept⟩
  refine ⟨fun page slot c htold => (tells page slot c htold).1, fun hgiven => ⟨?_, ?_⟩⟩
  · intro page slot c htold
    obtain ⟨made, hmade, hup⟩ := gaveUp_of_run hinside hgiven
    exact (tells page slot c htold).2 made hmade hup
  · intro hevicting
    have h := (hstage.innermost hcalls).resolve_right hevicting
    rcases h.returns hz hp (gaveUp_of_run hinside hgiven) with ⟨i, hn⟩ | ⟨n, result, hreturns⟩
    · refine Or.inl ⟨i, ?_⟩
      unfold follow
      rw [hn]
    · exact Or.inr ⟨p, n, result, rfl, hreturns⟩

/-- Space 1 is torn down ahead of the first sector that is written. -/
def tornDownInside : List Move :=
  [.resume, .start (.tearDown 1)] ++ List.replicate 7 .resume

/-- A page of space 1 goes to slot 0 and the pager is told, or its space is torn down inside the
eviction and frame and slot are free. -/
theorem pager_is_told_truthfully_of_tornDownInside :
    ∃ w past y now e, (Machine.idle .small).run guarded
        [.start (.allocate .user 1 (some ⟨1, 0⟩))] = some (w, past) ∧
      w.step (.start .evict) = .ok (y, now) ∧ y.calls = ⟨.evict, .evictMapping e⟩ :: w.calls ∧
      (∃ z later z' last c,
        y.run (within w.calls.length) (List.replicate 8 .resume) = some (z, later) ∧
        z.step .resume = .ok (z', last) ∧ .told ⟨1, 0⟩ 0 c ∈ last ∧
        Told w.calls.length e (y.trace (List.replicate 8 .resume)) ⟨z, .resume, last⟩ z'.memory) ∧
      ∃ z later z' last,
        y.run (within w.calls.length) tornDownInside = some (z, later) ∧
        z.step .resume = .ok (z', last) ∧ z'.calls = w.calls ∧
        ∃ p n result, (z', last) = follow .evict w.calls p ∧ Task.Returns e n result p := by
  let e : Eviction := ⟨0, 4096, ⟨1, 0⟩, 0, none⟩
  have htells : (((Machine.idle .small).run guarded
      [.start (.allocate .user 1 (some ⟨1, 0⟩))]).bind fun r =>
        (r.1.run guarded [.start .evict]).bind fun s =>
          (s.1.run (within r.1.calls.length) (List.replicate 8 .resume)).bind fun u =>
            (u.1.run guarded [.resume]).map fun v =>
              ([r.1.calls, s.1.calls, u.1.calls], v.2.any (tells ⟨1, 0⟩ 0))) =
      some ([[], [⟨.evict, .evictMapping e⟩], [⟨.evict, .evictWriting e ⟨7, by decide⟩⟩]],
        true) := by decide +kernel
  have hreturns : (((Machine.idle .small).run guarded
      [.start (.allocate .user 1 (some ⟨1, 0⟩))]).bind fun r =>
        (r.1.run guarded [.start .evict]).bind fun s =>
          (s.1.run (within r.1.calls.length) tornDownInside).bind fun u =>
            (u.1.run guarded [.resume]).map fun v => (u.1.calls, v.1.calls)) =
      some ([⟨.evict, .evictWriting e ⟨7, by decide⟩⟩], []) := by decide +kernel
  obtain ⟨⟨w, past⟩, hw, htells⟩ := Option.bind_eq_some_iff.mp htells
  rw [hw, Option.bind_some] at hreturns
  obtain ⟨⟨y, now⟩, hy, htells⟩ := Option.bind_eq_some_iff.mp htells
  rw [hy, Option.bind_some] at hreturns
  obtain ⟨⟨z, later⟩, hz, htells⟩ := Option.bind_eq_some_iff.mp htells
  obtain ⟨⟨z', last⟩, hz', htells⟩ := Option.map_eq_some_iff.mp htells
  obtain ⟨⟨x, gone⟩, hx, hreturns⟩ := Option.bind_eq_some_iff.mp hreturns
  obtain ⟨⟨x', final⟩, hx', hreturns⟩ := Option.map_eq_some_iff.mp hreturns
  simp only [Prod.mk.injEq, List.cons.injEq, and_true] at htells hreturns
  obtain ⟨⟨hempty, hbegun, hcalls⟩, htold⟩ := htells
  obtain ⟨hcalls', hover⟩ := hreturns
  obtain ⟨c, hc⟩ := told_of_any htold
  have hstart := (run_one hy).2
  have hbegun' : y.calls = ⟨.evict, .evictMapping e⟩ :: w.calls := by
    rw [hbegun, hempty]
  have truthful := (pager_is_told_truthfully Memory.small_isFresh hw rfl hstart).2 e
  have told := (truthful _ _ _ _ _ _ hbegun' hz (by rw [hcalls, hempty]) (run_one hz').2).1
  have given := (truthful _ _ _ _ _ _ hbegun' hx (by rw [hcalls', hempty]) (run_one hx').2).2
  refine ⟨w, past, y, now, e, hw, hstart, hbegun', ⟨z, later, z', last, c, hz, (run_one hz').2, hc,
    (told _ _ _ hc).2.2.2⟩, x, gone, x', final, hx, (run_one hx').2, hover.trans hempty.symm, ?_⟩
  rcases (given ⟨.start (.tearDown 1), by decide, rfl⟩).2 nofun with ⟨i, hi⟩ | hover'
  · exact nomatch hover.symm.trans hi
  · exact hover'

end Machine

end PhysMem
