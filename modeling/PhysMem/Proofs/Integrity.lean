import PhysMem.Proofs.BusySlots
import PhysMem.Proofs.Transfers

/-!
# Integrity — what was evicted comes back

A page that was evicted stands in its slot until it is brought back or restored, or its space is torn
down. As long as one operation follows the other, the slot stays the page's and its bytes stay those
of the frame that was evicted, whatever else is evicted, brought back or torn down meanwhile, and
whatever transfer fails where. So a page that is brought back has the bytes that it had.

* **`Stands`** reads off the events which pages stand in which slots.
* **`Intact`** is the invariant: it ties what stands to the slot map, to the sectors and to the frame
  of the operation under way. **`Intact.moved`** is its preservation by one move.
* **`page_comes_back_intact`** is what it says of every sequential run.
-/

namespace PhysMem

open SlotMap

/-- Whether the probe only tells the drive which transfers fail. -/
def Probe.isFault : Probe → Bool
  | .setFailing .. | .setLimit .. => true
  | _ => false

/-- A probe that tells the drive something needs no frame. -/
theorem Probe.perform_of_isFault {p : Probe} (hp : p.isFault = true) (loans : List Task.Loan)
    (m : Memory) : p.perform loans m = p.act m := by
  cases p with
  | setFailing | setLimit => rfl
  | _ => exact nomatch hp

theorem Probe.ram_of_isFault {loans : List Task.Loan} {p : Probe} {m m' : Memory} {o : Outcome}
    (hp : p.isFault = true) (h : p.perform loans m = .ok (o, m')) : m'.ram = m.ram := by
  rw [perform_of_isFault hp] at h
  cases p with
  | setFailing direction failing =>
      cases h
      rfl
  | setLimit direction limit =>
      cases h
      rfl
  | _ => exact nomatch hp

/-! ## What stands where -/

/-- The event takes the page out of its slot: it came back, its slot was restored, or its space was
torn down. -/
def Event.Ends (page : Page) (slot : Nat) : Event → Prop
  | .answered _ (.pageIn q x) (.address (.ok _)) => q = page ∧ x = slot
  | .answered _ (.restore x _) (.transferred (.ok ())) => x = slot
  | .answered _ (.tearDown space) _ => space = page.space
  | _ => False

/-- The page went to the slot with these contents, and nothing has taken it out. -/
def Stands (page : Page) (slot : Nat) (c : Contents) (l : List Event) : Prop :=
  ∃ before after, l = before ++ .told page slot c :: after ∧ ∀ e ∈ after, ¬ e.Ends page slot

/-- What stands now stood before, or has just gone to its slot. -/
theorem Stands.of_append {page : Page} {slot : Nat} {c : Contents} {l now : List Event}
    (h : Stands page slot c (l ++ now)) :
    (Stands page slot c l ∧ ∀ e ∈ now, ¬ e.Ends page slot) ∨ .told page slot c ∈ now := by
  obtain ⟨before, after, he, hafter⟩ := h
  rcases List.append_eq_append_iff.mp he with ⟨mid, -, hnow⟩ | ⟨mid, hl, hrest⟩
  · rw [hnow]
    exact Or.inr (List.mem_append_right _ List.mem_cons_self)
  · cases mid with
    | nil =>
        rw [List.nil_append] at hrest
        rw [← hrest]
        exact Or.inr List.mem_cons_self
    | cons first more =>
        obtain ⟨hfirst, rfl⟩ := List.cons.inj hrest
        subst hfirst
        refine Or.inl ⟨⟨before, more, hl, fun e hmem => ?_⟩, fun e hmem => ?_⟩
        · exact hafter e (List.mem_append_left _ hmem)
        · exact hafter e (List.mem_append_right _ hmem)

namespace Machine

/-- Runs where operations follow each other: none starts and nothing is changed from outside while
another is in flight, but the drive may start and stop to fail at any moment. -/
def sequential : Machine → Move → Bool
  | w, .start op => w.calls.isEmpty && op.isManaged
  | _, .resume => true
  | w, .probe p => p.leavesSlots && (w.calls.isEmpty || p.isFault)

theorem managed_of_sequential {w : Machine} {move : Move} (h : sequential w move = true) :
    managed w move = true := by
  cases move with
  | start op => exact (Bool.and_eq_true_iff.mp h).2
  | resume => rfl
  | probe p => exact (Bool.and_eq_true_iff.mp h).1

/-! ## The invariant -/

/-- The slot is the page's, and busy only while the page is being brought back. -/
def Reserved (w : Machine) (page : Page) (slot : Nat) : Prop :=
  w.memory.swap.slots.state? slot = some (page, .idle) ∨
    w.memory.swap.slots.state? slot = some (page, .busy) ∧ ∃ c ∈ w.calls, c.op = .pageIn page slot

theorem Reserved.state {w : Machine} {page : Page} {slot : Nat} (h : w.Reserved page slot) :
    ∃ s, w.memory.swap.slots.state? slot = some (page, s) :=
  h.elim (fun h => ⟨_, h⟩) fun h => ⟨_, h.1⟩

/-- How far the transfer of an operation has come: an eviction and a filling agree on the sectors
behind them, and what is being overwritten is in its frame. -/
def Underway (m : Memory) (l : List Event) : Task → Prop
  | .evictWriting e i => m.Agrees e.frame e.slot i
  | .fillMapping f => m.coremap.indexOf? f.address = some f.frame
  | .fillReading f i =>
    m.coremap.indexOf? f.address = some f.frame ∧ m.Agrees f.frame f.slot i
  | .fillScrubbing f _ =>
    m.coremap.indexOf? f.address = some f.frame ∧
      ∀ page c, Stands page f.slot c l → m.contents f.frame = c
  | _ => True

/-- What stands in a slot is there and is the page's, and what an operation under way has in its
hands is its own. -/
structure Intact (w : Machine) (l : List Event) : Prop where
  alone : w.calls.length ≤ 1
  hands : ∀ c ∈ w.calls, ∀ x q, c.task.holds x q →
    w.memory.swap.slots.state? x = some (q, .busy)
  cargo : ∀ c ∈ w.calls, ∀ d, c.task.cargo? = some d → w.memory.coremap.Carries d false
  underway : ∀ c ∈ w.calls, Underway w.memory l c.task
  reserved : ∀ page slot c, Stands page slot c l → w.Reserved page slot
  stored : ∀ page slot c, Stands page slot c l → (∀ d ∈ w.calls, ¬ d.task.scrubs slot) →
    ∀ i, w.memory.swap.device.stored slot i = some (c.get i)

/-- Nothing stands in the slots of a memory system at rest. -/
theorem Intact.idle (m : Memory) : (Machine.idle m).Intact [] := by
  have none : ∀ {page slot c}, ¬ Stands page slot c [] := by
    rintro page slot c ⟨before, after, he, -⟩
    exact nomatch (List.append_eq_nil_iff.mp he.symm).2
  exact ⟨Nat.zero_le _, List.forall_mem_nil _,
    List.forall_mem_nil _, List.forall_mem_nil _,
    fun _ _ _ h => (none h).elim, fun _ _ _ h => (none h).elim⟩

variable {w w' : Machine} {l : List Event}

/-- No operation is around the one under way. -/
theorem Intact.outer_eq_nil (h : w.Intact l) {call : Call} {outer : List Call}
    (hcalls : w.calls = call :: outer) : outer = [] := by
  have hlen := h.alone
  rw [hcalls, List.length_cons] at hlen
  exact List.length_eq_zero_iff.mp (by omega)

/-- An eviction on its way to the device has a slot in which nothing stands. -/
theorem Intact.vacant (hs : w.Sound) (h : w.Intact l) {call : Call} (hc : call ∈ w.calls)
    {e : Eviction} (ht : call.task = .evictMapping e ∨ ∃ i, call.task = .evictWriting e i)
    {page : Page} : ¬ w.Reserved page e.slot := by
  intro hres
  -- the slot is busy, so the operation is a page-in of what stands there
  have hheld : call.task.holds e.slot e.page ∧ (∀ op, call.task.Serves op →
      Task.NeedServes op e.need) ∧ e.Apart := by
    have hproper := hs.proper call hc
    rcases ht with ht | ⟨i, ht⟩
    · rw [ht] at hproper ⊢
      exact ⟨Or.inl ⟨rfl, rfl⟩, fun _ hop => hop, hproper⟩
    · rw [ht] at hproper ⊢
      exact ⟨Or.inl ⟨rfl, rfl⟩, fun _ hop => hop, hproper.1⟩
  obtain ⟨hholds, hserves, hapart⟩ := hheld
  have hbusy := h.hands call hc _ _ hholds
  rcases hres with hidle | ⟨-, c, hmem, hop⟩
  · exact nomatch hbusy.symm.trans hidle
  · have hsame : c = call := by
      obtain ⟨only, honly⟩ : ∃ only, w.calls = [only] := by
        have hlen := h.alone
        have hpos := List.length_pos_of_mem hc
        exact List.length_eq_one_iff.mp (by omega)
      rw [honly, List.mem_singleton] at hc hmem
      rw [hc, hmem]
    have hneed := hserves _ (hs.serves call hc)
    rw [← hsame, hop] at hneed
    refine hapart e.slot e.page page ⟨rfl, rfl⟩ ?_
    rw [hneed.of_pageIn]
    exact ⟨rfl, rfl⟩

/-! ## Going on -/

/-- The operation under way goes on by a piece: what it had hold of was its own, and its frame was not
given up. -/
structure Goes (m : Memory) (op : Operation) (t : Task) (p : Task.Piece) : Prop where
  piece : ∃ held, Task.resume held m t = .ok p
  proper : t.Proper m.swap.device
  serves : t.Serves op
  hands : ∀ x q, t.holds x q → m.swap.slots.state? x = some (q, .busy)
  cargo : ∀ d, t.cargo? = some d → m.coremap.Carries d false
  resumes : Task.Resumes t m p
  hauls : Task.Hauls t.cargo? op.Grants m p
  follows : t.Follows p.next

namespace Goes

open PhysMem.Task

variable {m : Memory} {op : Operation} {t : Task} {p : Piece} {f : Filling} {page : Page}
  {slot k : Nat} {r : Reply}

/-- A filling that succeeds takes the page out of its slot. -/
theorem ends (h : Goes m op t p) (hf : t.filling? = some f)
    (hpage : f.page = none ∨ f.page = some page) :
    Event.Ends page f.slot (.answered k op (doneReply f)) := by
  have hserves := h.serves.filling hf
  unfold doneReply
  rcases hpage with hpage | hpage
  · rw [hserves.of_none hpage, hpage]
    exact rfl
  · rw [hserves.of_page hpage, hpage]
    exact ⟨rfl, rfl⟩

/-- A page-in that has read its slot succeeds. -/
theorem full (h : Goes m op t p) (hf : t.filling? = some f) (hpage : f.page = some page)
    (hn : p.next = .reply r) (hfull : Full f r) : r = doneReply f := by
  unfold Full at hfull
  unfold doneReply
  rw [hpage] at hfull ⊢
  rcases hfull with hok | hlost
  · exact hok
  · -- the frame was not given up
    have hcargo : t.cargo? = some ⟨f.frame, true, page⟩ := by
      rw [cargo?_of_filling hf]
      unfold fillCargo?
      rw [hpage]
      rfl
    rw [hlost] at hn
    exact absurd (h.cargo _ hcargo) (h.hauls.lost _ hcargo rfl hn)

/-- A page-in whose slot could not be read, or that found no room, has its slot idle again. -/
theorem keeps (h : Goes m op t p) (hk : t.keeps slot page) (hno : ¬ p.next.holds slot page)
    (hends : ∀ r, p.next = .reply r → ¬ Event.Ends page slot (.answered k op r)) :
    p.memory.swap.slots.state? slot = some (page, .idle) := by
  have hbusy := h.hands slot page (holds_of_keeps hk)
  have failed : ∀ e, p.next = .reply (.address (.error e)) → e ≠ .ownerReleased →
      p.memory.swap.slots.state? slot = some (page, .idle) :=
    fun e hn he => h.resumes.kept slot page e hk hn he hbusy
  have hfollows := h.follows
  generalize hnext : p.next = n at hfollows
  rw [hnext] at hno hends failed
  cases hfollows with
  | written e => exact absurd (Or.inr hk) hno
  | nextWritten e hij => exact absurd (Or.inr hk) hno
  | told e hi => exact absurd hk hno
  | read g => exact absurd hk hno
  | nextRead g hij => exact absurd hk hno
  | scrubbed g hi => exact absurd hk hno
  | nextScrubbed g hij => exact absurd hk hno
  | ended e ht hend =>
      have hneed : Need.holds e.need slot page := by
        rcases ht with rfl | ⟨i, rfl⟩ | rfl
        · exact hk
        · exact hk
        · exact hk
      obtain ⟨e, rfl, he⟩ := hend.fails hneed hno
      exact failed e rfl he
  | unread g ht ha =>
      have hpage : g.page = some page := by
        rcases ht with rfl | ⟨i, rfl⟩
        · exact hk.2
        · exact hk.2
      obtain ⟨e, rfl⟩ := ha.of_page hpage
      exact failed _ rfl nofun
  | @full g t r ht ha =>
      have hg : t.filling? = some g ∧ g.holds slot page := by
        rcases ht with ⟨i, rfl, -⟩ | ⟨i, rfl⟩
        · exact ⟨rfl, hk⟩
        · exact ⟨rfl, hk⟩
      obtain ⟨hg, rfl, hpage⟩ := hg
      have hr := h.full hg hpage hnext ha
      subst hr
      exact absurd (h.ends hg (Or.inr hpage)) (hends _ rfl)

/-- **The slot of a page that is not taken out stays the page's.** -/
theorem stays (hm : m.swap.Sound) (hc : m.coremap.Sound) (h : Goes m op t p)
    {s : SlotMap.SlotState} (hs : m.swap.slots.state? slot = some (page, s))
    (hvacant : ∀ e, (t = .evictMapping e ∨ ∃ i, t = .evictWriting e i) → slot ≠ e.slot)
    (hends : ∀ r, p.next = .reply r → ¬ Event.Ends page slot (.answered k op r)) :
    p.memory.swap.slots.state? slot = some (page, s) ∨
      p.memory.swap.slots.state? slot = some (page, .idle) := by
  rcases h.resumes.slots.state slot with hsame | ⟨q, s', hq, ⟨howns, hno⟩, -⟩
  · exact Or.inl (hsame.trans hs)
  · have hpage : page = q := congrArg Prod.fst (Option.some.inj (hs.symm.trans hq))
    subst hpage
    have kept : t.keeps slot page → p.memory.swap.slots.state? slot = some (page, .idle) :=
      fun hk => h.keeps hk hno hends
    have filling : ∀ f, t.filling? = some f → f.owns slot page → (f.holds slot page →
        t.keeps slot page) → p.memory.swap.slots.state? slot = some (page, s) ∨
          p.memory.swap.slots.state? slot = some (page, .idle) := by
      rintro f hf ⟨rfl, hnone | hsome⟩ hk
      · obtain ⟨held, hp⟩ := h.piece
        cases resume_restores hm.slots hnone hf hp with
        | released hn sets =>
            have hdone : p.next = .reply (doneReply f) := by
              unfold doneReply
              rw [hnone]
              exact hn
            exact absurd (h.ends hf (Or.inl hnone)) (hends _ hdone)
        | left hn slots =>
            rw [slots]
            exact Or.inl hs
      · exact Or.inr (kept (hk ⟨rfl, hsome⟩))
    cases ht : t with
    | evictMapping e =>
        rw [ht] at howns kept
        rcases howns with hown | hneed
        · exact absurd hown.1 (hvacant e (Or.inl ht))
        · exact Or.inr (kept hneed)
    | evictWriting e i =>
        rw [ht] at howns kept
        rcases howns with hown | hneed
        · exact absurd hown.1 (hvacant e (Or.inr ⟨i, ht⟩))
        · exact Or.inr (kept hneed)
    | evictTelling e =>
        rw [ht] at howns kept
        rcases howns with hown | hneed
        · -- the frame was not given up, so the slot is left to the page
          obtain ⟨held, hp⟩ := h.piece
          have hproper := h.proper
          have hcarries : m.coremap.Carries (evictCargo e) false := by
            refine h.cargo _ ?_
            rw [ht]
            rfl
          rw [ht] at hp hproper
          have hspared := toldPager_spares hc hm.slots hproper hcarries hp
          rw [← hown.1] at hspared
          exact Or.inl (hspared.trans hs)
        · exact Or.inr (kept hneed)
    | fillMapping f =>
        rw [ht] at howns filling
        exact filling f rfl howns id
    | fillReading f i =>
        rw [ht] at howns filling
        exact filling f rfl howns id
    | fillScrubbing f i =>
        rw [ht] at howns filling
        exact filling f rfl howns id
    | slotReading x buffer i =>
        rw [ht] at howns
        exact howns.elim
    | slotWriting x data i =>
        rw [ht] at howns
        exact howns.elim

/-- **The bytes of a page that is not taken out stay where they are**, unless they are being
overwritten, and what is being overwritten is taken out in the end. -/
theorem spares (hm : m.swap.Sound) (h : Goes m op t p) {s : SlotMap.SlotState}
    (hs : m.swap.slots.state? slot = some (page, s))
    (hvacant : ∀ e, (t = .evictMapping e ∨ ∃ i, t = .evictWriting e i) → slot ≠ e.slot)
    (hends : ∀ r, p.next = .reply r → ¬ Event.Ends page slot (.answered k op r))
    (hscrubs : ∀ t, p.next = .callOut t → ¬ t.scrubs slot) (i : Place) :
    ¬ t.scrubs slot ∧ p.memory.swap.device.stored slot i = m.swap.device.stored slot i := by
  have hidle : ¬ t.scrubs slot := by
    intro hslot
    cases ht : t with
    | fillScrubbing f j =>
        rw [ht] at hslot
        cases hslot
        have hf : t.filling? = some f := by
          rw [ht]
          rfl
        have hfollows := h.follows
        rw [ht] at hfollows
        generalize hnext : p.next = n at hfollows
        cases hfollows with
        | nextScrubbed g hij => exact hscrubs _ hnext rfl
        | ended e ht' hend => rcases ht' with ht' | ⟨i, ht'⟩ | ht' <;> exact nomatch ht'
        | unread g ht' ha => rcases ht' with ht' | ⟨i, ht'⟩ <;> exact nomatch ht'
        | @full g _ r ht' ha =>
            have hg : g = f := by
              rcases ht' with ⟨i, ht', -⟩ | ⟨i, ht'⟩
              · exact nomatch ht'
              · injection ht' with hg
                exact hg.symm
            subst hg
            cases hpage : g.page with
            | some q =>
                have hbusy := h.hands g.slot q (by rw [ht]; exact ⟨rfl, hpage⟩)
                have hq : page = q := congrArg Prod.fst (Option.some.inj (hs.symm.trans hbusy))
                subst hq
                have hr := h.full hf hpage hnext ha
                subst hr
                exact hends _ hnext (h.ends hf (Or.inr hpage))
            | none =>
                obtain ⟨held, hp⟩ := h.piece
                rw [ht] at hp
                have hlt : g.slot < m.swap.slots.capacity :=
                  lt_capacity_of_owner (owner_of_state? hs)
                have hr := (scrubNow_restores hm.slots hpage hp).2 hlt r hnext
                have hdone : r = doneReply g := by
                  unfold doneReply
                  rw [hpage]
                  exact hr
                subst hdone
                exact hends _ hnext (h.ends hf (Or.inl hpage))
    | _ =>
        rw [ht] at hslot
        exact hslot.elim
  refine ⟨hidle, h.resumes.stored slot i fun hw => ?_⟩
  cases ht : t with
  | evictWriting e j =>
      rw [ht] at hw
      exact hvacant e (Or.inr ⟨j, ht⟩) hw.1
  | fillScrubbing f j =>
      rw [ht] at hw hidle
      exact hidle hw.1
  | _ =>
      rw [ht] at hw
      exact hw.elim

/-- An eviction that the pager is told of is in its slot. -/
theorem told (hm : m.swap.Sound) (h : Goes m op t p) {l : List Event} (hu : Underway m l t)
    {e : Eviction} (hn : p.next = .callOut (.evictTelling e)) :
    p.memory.swap.slots.state? e.slot = some (e.page, .idle) ∧
      ∀ i : Place, p.memory.swap.device.stored e.slot i = some ((p.memory.contents e.frame).get i) := by
  have hfollows := h.follows
  generalize hnext : p.next = n at hfollows
  cases hfollows with
  | @told e' i hi =>
      cases hn.symm.trans hnext
      obtain ⟨held, hp⟩ := h.piece
      refine ⟨state?_of_settle hm.slots (writeNow_settles hp hn).1, fun j => ?_⟩
      exact writeNow_agrees hm h.proper hp hn nofun hu j (lt_of_nextPlace_eq_none hi j)
  | ended e' ht hend =>
      rw [← hnext, hn] at hend
      exact nomatch hend.maps
  | _ => exact nomatch hn.symm.trans hnext

/-- A filling that has read its whole slot has in its frame what stands there. -/
theorem reads (hm : m.swap.Sound) (hram : m.ram.size = m.coremap.size) (h : Goes m op t p)
    {i : Place} (ht : t = .fillReading f i) (hi : nextPlace i = none)
    (hplaced : m.coremap.indexOf? f.address = some f.frame) (hagrees : m.Agrees f.frame f.slot i)
    (hread : ∀ r, p.next = .reply r → ¬ Unread f r) {c : Contents}
    (hc : ∀ j : Place, m.swap.device.stored f.slot j = some (c.get j)) :
    p.memory.contents f.frame = c := by
  obtain ⟨held, hp⟩ := h.piece
  have hproper := h.proper
  have hstored := h.resumes.stored f.slot
  rw [ht] at hp hproper hstored
  have hlt : f.frame < m.ram.size := hram ▸ Coremap.lt_size_of_indexOf? hplaced
  have hall := readNow_agrees hm hproper hlt hp hread hagrees
  refine Vector.ext fun j hj => ?_
  have hj' := hall ⟨j, hj⟩ (lt_of_nextPlace_eq_none hi _)
  rw [hstored _ nofun, hc ⟨j, hj⟩] at hj'
  exact (Option.some.inj hj').symm

/-- **The transfer goes on where it stopped.** -/
theorem underway (hm : m.swap.Sound) (hram : m.ram.size = m.coremap.size) (h : Goes m op t p)
    {l : List Event} (hu : Underway m l t)
    (hstored : ∀ page slot c, Stands page slot c l → ¬ t.scrubs slot →
      ∀ i : Place, m.swap.device.stored slot i = some (c.get i))
    {t' : Task} (hn : p.next = .callOut t') :
    Underway p.memory (l ++ shown p.memory t') t' := by
  obtain ⟨held, hp⟩ := h.piece
  have hplaced : ∀ f : Filling, m.coremap.indexOf? f.address = some f.frame →
      p.memory.coremap.indexOf? f.address = some f.frame := by
    intro f hf
    rw [h.resumes.table.indexOf?]
    exact hf
  have hread : ∀ f r, p.next = .reply r → ¬ Unread f r := by
    intro f r hr
    rw [hn] at hr
    exact nomatch hr
  have hfollows := h.follows
  generalize hnext : p.next = n at hfollows
  cases hfollows with
  | written e =>
      cases hn.symm.trans hnext
      exact fun j hj => absurd hj (Nat.not_lt_zero _)
  | @nextWritten e i j hij =>
      cases hn.symm.trans hnext
      have hagrees := writeNow_agrees hm h.proper hp hn nofun hu
      rw [← nextPlace_eq_some hij] at hagrees
      exact hagrees
  | told e hi =>
      cases hn.symm.trans hnext
      trivial
  | ended e ht hend =>
      rw [← hnext, hn] at hend
      obtain ⟨f, rfl⟩ := hend.fills
      exact h.hauls.placed f hn
  | read f =>
      cases hn.symm.trans hnext
      exact ⟨hplaced f hu, fun j hj => absurd hj (Nat.not_lt_zero _)⟩
  | @nextRead f i j hij =>
      cases hn.symm.trans hnext
      have hlt : f.frame < m.ram.size := hram ▸ Coremap.lt_size_of_indexOf? hu.1
      have hagrees := readNow_agrees hm h.proper hlt hp (hread f) hu.2
      rw [← nextPlace_eq_some hij] at hagrees
      exact ⟨hplaced f hu.1, hagrees⟩
  | @scrubbed f i hi =>
      cases hn.symm.trans hnext
      refine ⟨hplaced f hu.1, fun page c hc => ?_⟩
      have hc' : Stands page f.slot c l := List.append_nil l ▸ hc
      exact h.reads hm hram rfl hi hu.1 hu.2 (hread f) (hstored page f.slot c hc' id)
  | nextScrubbed f hij =>
      cases hn.symm.trans hnext
      refine ⟨hplaced f hu.1, fun page c hc => ?_⟩
      have hc' : Stands page f.slot c l := List.append_nil l ▸ hc
      rw [h.resumes.contents f.frame nofun]
      exact hu.2 page c hc'
  | unread f ht ha => exact nomatch hn.symm.trans hnext
  | full f ht ha => exact nomatch hn.symm.trans hnext

/-- **A filling that succeeds leaves in its frame what stood in its slot.** -/
theorem brings (hm : m.swap.Sound) (hram : m.ram.size = m.coremap.size) (h : Goes m op t p)
    {l : List Event} (hu : Underway m l t)
    (hstored : ∀ page slot c, Stands page slot c l → ¬ t.scrubs slot →
      ∀ i : Place, m.swap.device.stored slot i = some (c.get i))
    (hf : t.filling? = some f) (hn : p.next = .reply (doneReply f)) {c : Contents}
    (hc : Stands page f.slot c l) : p.memory.contentsAt f.address = .ok c := by
  have hread : ∀ r, p.next = .reply r → ¬ Unread f r := by
    intro r hr
    rw [hn] at hr
    cases hr
    unfold Unread doneReply
    cases f.page with
    | none => exact fun ⟨_, he⟩ => nomatch he
    | some q => exact fun ⟨_, he⟩ => nomatch he
  have hcontents : m.coremap.indexOf? f.address = some f.frame ∧
      p.memory.contents f.frame = c := by
    have hfollows := h.follows
    generalize hnext : p.next = n at hfollows
    cases hfollows with
    | ended e ht hend =>
        rcases ht with rfl | ⟨i, rfl⟩ | rfl
        · exact nomatch hf
        · exact nomatch hf
        · exact nomatch hf
    | unread g ht ha =>
        have hg : g = f := by
          rcases ht with rfl | ⟨i, rfl⟩
          · exact Option.some.inj hf
          · exact Option.some.inj hf
        subst hg
        exact absurd ha (hread _ hnext)
    | full g ht ha =>
        rcases ht with ⟨i, rfl, hi⟩ | ⟨i, rfl⟩
        · cases hf
          exact ⟨hu.1, h.reads hm hram rfl hi hu.1 hu.2 hread (hstored page f.slot c hc id)⟩
        · cases hf
          rw [h.resumes.contents f.frame nofun]
          exact ⟨hu.1, hu.2 page c hc⟩
    | _ => exact nomatch hn.symm.trans hnext
  unfold Memory.contentsAt
  rw [h.resumes.table.indexOf?, hcontents.1]
  exact congrArg Except.ok hcontents.2

end Goes

/-! ## Moves -/

theorem follow_alone (op : Operation) (p : Task.Piece) :
    (follow op [] p).1.calls.length ≤ 1 := by
  obtain ⟨-, ⟨task, -, hcalls, -⟩ | ⟨reply, -, hcalls, -⟩⟩ := follow_calls op [] p
  · rw [hcalls]
    exact Nat.le_refl 1
  · rw [hcalls]
    exact Nat.zero_le 1

/-- An operation starts where none is under way. -/
theorem Intact.started (h : w.Intact l) (hempty : w.calls = []) {op : Operation} {p : Task.Piece}
    (takes : Task.Takes w.memory p) (hauls : Task.Hauls none op.Grants w.memory p)
    (serves : ∀ t, p.next = .callOut t → t.Serves op ∧ t.site = .map) :
    (follow op w.calls p).1.Intact (l ++ (follow op w.calls p).2) := by
  rw [hempty]
  have stood : ∀ {page slot c}, Stands page slot c (l ++ (follow op [] p).2) →
      Stands page slot c l := by
    intro page slot c hc
    rcases hc.of_append with hc | hc
    · exact hc.1
    · obtain ⟨e, hn, -⟩ := told_of_follow hc
      exact nomatch (serves _ hn).2
  have idle : ∀ {page slot c}, Stands page slot c l →
      w.memory.swap.slots.state? slot = some (page, .idle) := by
    intro page slot c hc
    rcases h.reserved page slot c hc with hidle | ⟨-, call, hmem, -⟩
    · exact hidle
    · rw [hempty] at hmem
      exact (List.not_mem_nil hmem).elim
  refine ⟨follow_alone op p, ?_, ?_, ?_, ?_, ?_⟩
  · rw [follow_memory]
    refine forall_follow ?_ (List.forall_mem_nil _)
    intro t ht x q hx
    refine (takes.taken x q ?_).1
    rw [ht]
    exact hx
  · rw [follow_memory]
    refine forall_follow ?_ (List.forall_mem_nil _)
    intro t ht d hd
    rcases hauls.next d (by rw [ht]; exact hd) with ⟨hown, -⟩ | ⟨-, hnew, -⟩
    · exact nomatch hown
    · exact hnew
  · rw [follow_memory]
    refine forall_follow ?_ (List.forall_mem_nil _)
    intro t ht
    have hmaps := (serves t ht).2
    cases t with
    | evictMapping e => trivial
    | fillMapping f => exact hauls.placed f ht
    | _ => exact nomatch hmaps
  · intro page slot c hc
    have hidle := idle (stood hc)
    by_cases hx : ∃ q, p.next.holds slot q
    · -- the operation brings the page back
      obtain ⟨q, hx⟩ := hx
      obtain ⟨hbusy, hfree | ⟨hold, hk⟩⟩ := takes.taken slot q hx
      · exact nomatch hidle.symm.trans hfree
      · cases hold.symm.trans hidle
        obtain ⟨hmem, ⟨task, hnext, hcalls, -⟩ | ⟨reply, hnext, -, -⟩⟩ := follow_calls op [] p
        · refine Or.inr ⟨by rw [hmem]; exact hbusy, ⟨op, task⟩, ?_, ?_⟩
          · rw [hcalls]
            exact List.mem_cons_self
          · rw [hnext] at hk
            exact (serves task hnext).1.of_keeps hk
        · rw [hnext] at hx
          exact hx.elim
    · refine Or.inl ?_
      rw [follow_memory, takes.kept slot fun q hq => hx ⟨q, hq⟩]
      exact hidle
  · intro page slot c hc _ i
    rw [follow_memory, takes.device]
    refine h.stored page slot c (stood hc) ?_ i
    rw [hempty]
    exact fun _ hd => (List.not_mem_nil hd).elim

/-- An address space is torn down where no operation is under way. -/
theorem Intact.toreDown (h : w.Intact l) (hempty : w.calls = []) {space frames cleared n : Nat}
    {p : Task.Piece} (tears : Task.TearsDown space w.memory p) :
    (Machine.mk p.memory w.calls).Intact (l ++ [.answered n (.tearDown space)
      (.tornDown frames cleared)]) := by
  rw [hempty]
  have stood : ∀ {page slot c}, Stands page slot c (l ++ [.answered n (.tearDown space)
      (.tornDown frames cleared)]) → Stands page slot c l ∧ page.space ≠ space := by
    intro page slot c hc
    rcases hc.of_append with ⟨hc, hends⟩ | hc
    · exact ⟨hc, fun he => hends _ List.mem_cons_self he.symm⟩
    · exact nomatch List.mem_singleton.mp hc
  refine ⟨Nat.zero_le 1, List.forall_mem_nil _,
    List.forall_mem_nil _, List.forall_mem_nil _, ?_, ?_⟩
  · intro page slot c hc
    obtain ⟨hc, hspace⟩ := stood hc
    refine Or.inl ?_
    show p.memory.swap.slots.state? slot = _
    rw [tears.state]
    rcases h.reserved page slot c hc with hidle | ⟨-, call, hmem, -⟩
    · rw [hidle, swept_other hspace]
    · rw [hempty] at hmem
      exact (List.not_mem_nil hmem).elim
  · intro page slot c hc _ i
    show p.memory.swap.device.stored slot i = _
    rw [tears.device]
    refine h.stored page slot c (stood hc).1 ?_ i
    rw [hempty]
    exact fun _ hd => (List.not_mem_nil hd).elim

/-- The operation under way goes on. -/
theorem Intact.goes (hs : w.Sound) (h : w.Intact l) {call : Call} (hcalls : w.calls = [call])
    {p : Task.Piece} (hp : Task.resume (deviceHeld []) w.memory call.task = .ok p)
    (resumes : Task.Resumes call.task w.memory p)
    (hauls : Task.Hauls call.task.cargo? call.op.Grants w.memory p)
    (follows : call.task.Follows p.next) : Goes w.memory call.op call.task p := by
  have hmem : call ∈ w.calls := hcalls ▸ List.mem_cons_self
  exact ⟨⟨_, hp⟩, hs.proper call hmem, hs.serves call hmem, h.hands call hmem,
    h.cargo call hmem, resumes, hauls, follows⟩

/-- The bytes of what stands and is not being overwritten are in its slot. -/
theorem Intact.unscrubbed (h : w.Intact l) {call : Call} (hcalls : w.calls = [call]) :
    ∀ page slot c, Stands page slot c l → ¬ call.task.scrubs slot →
      ∀ i : Place, w.memory.swap.device.stored slot i = some (c.get i) := by
  intro page slot c hc hidle
  refine h.stored page slot c hc ?_
  rw [hcalls]
  exact fun d hd => List.mem_singleton.mp hd ▸ hidle

/-- **What stands still stands when the operation under way goes on.** -/
theorem Intact.resumed (hs : w.Sound) (h : w.Intact l) {call : Call} (hcalls : w.calls = [call])
    {p : Task.Piece} (hgoes : Goes w.memory call.op call.task p) :
    (follow call.op [] p).1.Intact (l ++ (follow call.op [] p).2) := by
  have hmem : call ∈ w.calls := hcalls ▸ List.mem_cons_self
  have vacant : ∀ {page slot c}, Stands page slot c l → ∀ e, (call.task = .evictMapping e ∨
      ∃ i, call.task = .evictWriting e i) → slot ≠ e.slot := by
    rintro page slot c hc e he rfl
    exact h.vacant hs hmem he (h.reserved page _ c hc)
  have ends : ∀ {page slot}, (∀ e ∈ (follow call.op [] p).2, ¬ e.Ends page slot) →
      ∀ r, p.next = .reply r → ¬ Event.Ends page slot (.answered 0 call.op r) :=
    fun hends r hr => hends _ (mem_follow_of_reply hr)
  have hu := h.underway call hmem
  have hstored := h.unscrubbed hcalls
  refine ⟨follow_alone call.op p, ?_, ?_, ?_, ?_, ?_⟩
  · rw [follow_memory]
    refine forall_follow ?_ (List.forall_mem_nil _)
    intro t ht x q hx
    have hnext : p.next.holds x q := by
      rw [ht]
      exact hx
    exact hgoes.resumes.slots.unowned (hgoes.hands x q (hgoes.resumes.hands x q hnext))
      fun ho => ho.2 hnext
  · rw [follow_memory]
    refine forall_follow ?_ (List.forall_mem_nil _)
    intro t ht d hd
    rcases hgoes.hauls.next d (by rw [ht]; exact hd) with ⟨hown, hsame⟩ | ⟨-, hnew, -⟩
    · exact hsame false (hgoes.cargo d hown)
    · exact hnew
  · rw [follow_memory]
    refine forall_follow ?_ (List.forall_mem_nil _)
    intro t ht
    have hgo := hgoes.underway hs.area hs.ram hu hstored ht
    unfold follow
    rw [ht]
    exact hgo
  · intro page slot c hc
    rcases hc.of_append with ⟨hc, hends⟩ | hc
    · have hres := h.reserved page slot c hc
      obtain ⟨s, hstate⟩ := hres.state
      have hstays := hgoes.stays hs.area hs.coremap hstate (vacant hc) (ends hends)
      rcases hres with hidle | ⟨hbusy, other, hother, hop⟩
      · cases hstate.symm.trans hidle
        refine Or.inl ?_
        rw [follow_memory]
        exact hstays.elim id id
      · cases hstate.symm.trans hbusy
        rcases hstays with hbusy' | hidle
        · -- the page-in has not let go of its slot, so it is still in flight
          rw [hcalls, List.mem_singleton] at hother
          subst hother
          have hholds : other.task.holds slot page := by
            refine holds_of_serves ?_
            rw [← hop]
            exact hgoes.serves
          have hnext : p.next.holds slot page := by
            by_cases hx : p.next.holds slot page
            · exact hx
            · exact nomatch hgoes.resumes.done slot page .busy hholds hx hbusy'
          obtain ⟨hmem', ⟨task, -, hcalls', -⟩ | ⟨reply, hreply, -, -⟩⟩ :=
            follow_calls other.op [] p
          · refine Or.inr ⟨by rw [hmem']; exact hbusy', ⟨other.op, task⟩, ?_, hop⟩
            rw [hcalls']
            exact List.mem_cons_self
          · rw [hreply] at hnext
            exact hnext.elim
        · refine Or.inl ?_
          rw [follow_memory]
          exact hidle
    · obtain ⟨e, hn, rfl, rfl, -⟩ := told_of_follow hc
      refine Or.inl ?_
      rw [follow_memory]
      exact (hgoes.told hs.area hu hn).1
  · intro page slot c hc hscrubs i
    rw [follow_memory]
    rcases hc.of_append with ⟨hc, hends⟩ | hc
    · obtain ⟨s, hstate⟩ := (h.reserved page slot c hc).state
      have hscrubs' : ∀ t, p.next = .callOut t → ¬ t.scrubs slot := by
        intro t ht
        refine hscrubs ⟨call.op, t⟩ ?_
        unfold follow
        rw [ht]
        exact List.mem_cons_self
      obtain ⟨hidle, hsame⟩ := hgoes.spares hs.area hstate (vacant hc) (ends hends) hscrubs' i
      rw [hsame]
      exact hstored page slot c hc hidle i
    · obtain ⟨e, hn, rfl, rfl, rfl⟩ := told_of_follow hc
      exact (hgoes.told hs.area hu hn).2 i

/-- What stands is not touched by a probe. -/
theorem Intact.probed (h : w.Intact l) {m : Memory} (leaves : Probe.Leaves w.memory m)
    (hquiet : w.calls = [] ∨ m.ram = w.memory.ram) :
    ({ w with memory := m } : Machine).Intact (l ++ []) := by
  rw [List.append_nil]
  refine ⟨h.alone, ?_, ?_, ?_, ?_, ?_⟩
  · intro c hc x q hx
    show m.swap.slots.state? x = _
    rw [leaves.slots]
    exact h.hands c hc x q hx
  · intro c hc d hd
    show m.coremap.Carries d false
    rw [leaves.coremap]
    exact h.cargo c hc d hd
  · intro c hc
    rcases hquiet with hempty | hram
    · have hc' : c ∈ w.calls := hc
      rw [hempty] at hc'
      exact (List.not_mem_nil hc').elim
    · have hcontents : ∀ k, m.contents k = w.memory.contents k := by
        intro k
        unfold Memory.contents
        rw [hram]
      have hu := h.underway c hc
      have hagrees : ∀ frame slot n, w.memory.Agrees frame slot n → m.Agrees frame slot n := by
        intro frame slot n ha i hi
        rw [leaves.stored, hcontents]
        exact ha i hi
      unfold Underway at hu ⊢
      rw [leaves.coremap]
      split at hu
      · exact hagrees _ _ _ hu
      · exact hu
      · exact ⟨hu.1, hagrees _ _ _ hu.2⟩
      · refine ⟨hu.1, fun page b hb => ?_⟩
        rw [hcontents]
        exact hu.2 page b hb
      · trivial
  · intro page slot c hc
    unfold Reserved
    show m.swap.slots.state? slot = _ ∨ m.swap.slots.state? slot = _ ∧ _
    rw [leaves.slots]
    exact h.reserved page slot c hc
  · intro page slot c hc hscrubs i
    show m.swap.device.stored slot i = _
    rw [leaves.stored]
    exact h.stored page slot c hc hscrubs i

theorem Intact.moved {move : Move} {events : List Event} (hs : w.Sound) (h : w.Intact l)
    (hrule : sequential w move = true) (hmoved : Moved w move w' events) :
    w'.Intact (l ++ events) := by
  cases hmoved with
  | @started op p hop hno hp takes hauls serves =>
      have hempty := List.isEmpty_iff.mp (Bool.and_eq_true_iff.mp hrule).1
      exact h.started hempty takes hauls serves
  | toreDown tears hauls gaveUp =>
      have hempty := List.isEmpty_iff.mp (Bool.and_eq_true_iff.mp hrule).1
      exact h.toreDown hempty tears
  | @resumed call outer p hcalls hp resumes hauls follows =>
      obtain rfl := h.outer_eq_nil hcalls
      exact h.resumed hs hcalls (h.goes hs hcalls hp resumes hauls follows)
  | rested hcalls =>
      rw [List.append_nil]
      exact h
  | @probed probe o m hp leaves =>
      refine h.probed leaves ?_
      rcases Bool.or_eq_true_iff.mp (Bool.and_eq_true_iff.mp hrule).2 with hempty | hfault
      · exact Or.inl (List.isEmpty_iff.mp hempty)
      · exact Or.inr (Probe.ram_of_isFault hfault hp)

theorem Intact.of_run {m : Memory} {moves : List Move} {events : List Event} (hm : m.IsFresh)
    (hrun : (Machine.idle m).run sequential moves = some (w, events)) :
    w.Sound ∧ w.Intact events :=
  Sound.run_induction (P := Intact) (l := []) (fun _ _ => managed_of_sequential)
    (fun _ _ _ _ _ hs h hrule hmoved => h.moved hs hrule hmoved) (.idle hm) (.idle m) hrun

/-! ## Integrity -/

/-- What the operation under way answers shows a filling that has succeeded. -/
theorem Goes.done {m : Memory} {op : Operation} {t : Task} {p : Task.Piece} {page : Page}
    {slot address : Nat} (h : Goes m op t p)
    (hanswer : op = .pageIn page slot ∧ p.next = .reply (.address (.ok address)) ∨
      op = .restore slot address ∧ p.next = .reply (.transferred (.ok ()))) :
    ∃ f, t.filling? = some f ∧ f.slot = slot ∧ f.address = address ∧
      p.next = .reply (Task.doneReply f) := by
  have hserves := h.serves
  have hfollows := h.follows
  unfold Task.doneReply
  rcases hanswer with ⟨rfl, hn⟩ | ⟨rfl, hn⟩
  · rw [hn] at hfollows ⊢
    rcases hfollows.pageIn_reply hserves with ⟨e, he⟩ | ⟨f, hf, hpage, hslot, hr⟩
    · exact nomatch he
    · cases hr
      exact ⟨f, hf, hslot, rfl, by rw [hpage]⟩
  · rw [hn] at hfollows ⊢
    obtain ⟨f, hf, hpage, hslot, haddress⟩ := hfollows.restore_reply hserves
    exact ⟨f, hf, hslot, haddress, by rw [hpage]⟩

/-- A page-in and a restore that end with success bring back what stood in the slot. -/
theorem Intact.brought (hs : w.Sound) (h : w.Intact l) {move : Move} {now : List Event}
    (hmoved : Moved w move w' now) {page : Page} {slot n address : Nat} {c : Contents}
    (hrule : sequential w move = true) (hc : Stands page slot c l)
    (hanswer : .answered n (.pageIn page slot) (.address (.ok address)) ∈ now ∨
      .answered n (.restore slot address) (.transferred (.ok ())) ∈ now) :
    w'.memory.contentsAt address = .ok c := by
  cases hmoved with
  | @started op p hop hno hp takes hauls serves =>
      rcases hanswer with ha | ha
      · obtain ⟨hn, rfl, -⟩ := answered_of_follow ha
        obtain ⟨e, he⟩ := Task.pageIn_reply hp hn
        exact nomatch he
      · obtain ⟨hn, rfl, -⟩ := answered_of_follow ha
        obtain ⟨e, he⟩ := Task.restore_reply hp hn
        exact nomatch he
  | toreDown tears hauls gaveUp =>
      rcases hanswer with ha | ha <;> exact nomatch List.mem_singleton.mp ha
  | @resumed call outer p hcalls hp resumes hauls follows =>
      obtain rfl := h.outer_eq_nil hcalls
      have hgoes := h.goes hs hcalls hp resumes hauls follows
      have hmem : call ∈ w.calls := hcalls ▸ List.mem_cons_self
      have hanswered : call.op = .pageIn page slot ∧ p.next = .reply (.address (.ok address)) ∨
          call.op = .restore slot address ∧ p.next = .reply (.transferred (.ok ())) := by
        rcases hanswer with ha | ha
        · obtain ⟨hn, hop, -⟩ := answered_of_follow ha
          exact Or.inl ⟨hop.symm, hn⟩
        · obtain ⟨hn, hop, -⟩ := answered_of_follow ha
          exact Or.inr ⟨hop.symm, hn⟩
      obtain ⟨f, hf, rfl, rfl, hn⟩ := hgoes.done hanswered
      rw [follow_memory]
      exact hgoes.brings hs.area hs.ram (h.underway call hmem) (h.unscrubbed hcalls) hf hn hc
  | rested hcalls => rcases hanswer with ha | ha <;> exact (List.not_mem_nil ha).elim
  | probed hp leaves => rcases hanswer with ha | ha <;> exact (List.not_mem_nil ha).elim

/-- **Integrity of swapped pages**, at every moment of every sequential run.

A page that went to a slot and was not taken out has the slot, and the slot has the bytes that its
frame had, unless a page-in or a restore of the slot is overwriting them, which has read them before
and is going to succeed. When a page-in of the page or a restore of the slot succeeds, the frame at
its address has those bytes. -/
theorem page_comes_back_intact {m : Memory} {moves : List Move} {events : List Event}
    (hm : m.IsFresh) (hrun : (Machine.idle m).run sequential moves = some (w, events))
    {page : Page} {slot : Nat} {c : Contents} (hc : Stands page slot c events) :
    w.memory.swap.slots.isUsed slot = .ok true ∧ w.memory.swap.slots.owner slot = some page ∧
    ((∀ call ∈ w.calls, ¬ call.task.scrubs slot) →
      ∀ i, w.memory.swap.device.stored slot i = some (c.get i)) ∧
    ∀ move w' now n address, sequential w move = true → w.step move = .ok (w', now) →
      .answered n (.pageIn page slot) (.address (.ok address)) ∈ now ∨
        .answered n (.restore slot address) (.transferred (.ok ())) ∈ now →
      w'.memory.contentsAt address = .ok c := by
  obtain ⟨hs, h⟩ := Intact.of_run hm hrun
  obtain ⟨s, hstate⟩ := (h.reserved page slot c hc).state
  have howner := owner_of_state? hstate
  refine ⟨isUsed_of_owner hs.area.slots howner, howner, h.stored page slot c hc, ?_⟩
  intro move w' now n address hrule hstep hanswer
  exact h.brought hs (moved_of_step hs (managed_of_sequential hrule) hstep) hrule hc hanswer

/-- What an event is about: a page and its slot, or an operation. -/
def subject : Event → (Page × Nat) ⊕ Operation
  | .told page slot _ => .inl (page, slot)
  | .answered _ op _ => .inr op

/-- A program stores into the frame of a page, the page is evicted and comes back up to the last
sector that is overwritten in its slot. -/
def swapCycle : List Move :=
  [.start (.allocate .user 1 (some ⟨1, 0⟩)), .probe (.store 4096 #[1, 2, 3]), .start .evict] ++
    List.replicate 10 .resume ++ [.start (.pageIn ⟨1, 0⟩ 0)] ++ List.replicate 16 .resume

/-- The page comes back with what was stored. -/
theorem page_comes_back_intact_after_store :
    ∃ w events c, (Machine.idle .small).run sequential swapCycle = some (w, events) ∧
      Stands ⟨1, 0⟩ 0 c events ∧ ∃ w' now, w.step .resume = .ok (w', now) ∧
        now = [.answered 0 (.pageIn ⟨1, 0⟩ 0) (.address (.ok 4096))] ∧
        w'.memory.contentsAt 4096 = .ok c ∧ (c.byte 0, c.byte 1, c.byte 2) = (1, 2, 3) := by
  have hevents : ((Machine.idle .small).run sequential swapCycle).map (fun r => r.2.map subject) =
      some [.inr (.allocate .user 1 (some ⟨1, 0⟩)), .inl (⟨1, 0⟩, 0), .inr .evict] := by
    decide +kernel
  have hnext : ((Machine.idle .small).run sequential swapCycle).map
        (fun r => (r.1.step .resume).toOption.map fun s =>
          (s.2, (s.1.memory.contentsAt 4096).toOption.map fun c => (c.byte 0, c.byte 1, c.byte 2))) =
      some (some ([.answered 0 (.pageIn ⟨1, 0⟩ 0) (.address (.ok 4096))], some (1, 2, 3))) := by
    decide +kernel
  obtain ⟨⟨w, events⟩, hrun, hshapes⟩ := Option.map_eq_some_iff.mp hevents
  rw [hrun] at hnext
  obtain ⟨first, rest, rfl, -, hrest⟩ := List.map_eq_cons_iff.mp hshapes
  obtain ⟨told, rest, rfl, htold, hrest⟩ := List.map_eq_cons_iff.mp hrest
  obtain ⟨last, rest, rfl, hlast, hrest⟩ := List.map_eq_cons_iff.mp hrest
  cases List.map_eq_nil_iff.mp hrest
  -- the pager was told of the eviction, and since then only the eviction has answered
  obtain ⟨c, rfl⟩ : ∃ c, told = .told ⟨1, 0⟩ 0 c := by
    cases told with
    | told page slot c =>
        cases htold
        exact ⟨c, rfl⟩
    | answered n op r => exact nomatch htold
  have hstands : Stands ⟨1, 0⟩ 0 c [first, .told ⟨1, 0⟩ 0 c, last] := by
    refine ⟨[first], [last], rfl, fun e he => ?_⟩
    rw [List.mem_singleton.mp he]
    cases last with
    | told page slot c => exact id
    | answered n op r =>
        cases hlast
        exact id
  cases hstep : w.step .resume with
  | error fault =>
      rw [Option.map_some, hstep] at hnext
      exact nomatch hnext
  | ok z =>
      rw [Option.map_some, hstep] at hnext
      obtain ⟨hnow, hbegins⟩ := Prod.mk.inj (Option.some.inj (Option.some.inj hnext))
      have hcontents := (page_comes_back_intact Memory.small_isFresh hrun hstands).2.2.2 .resume
        z.1 z.2 0 4096 rfl hstep (Or.inl (by rw [hnow]; exact List.mem_cons_self))
      rw [hcontents] at hbegins
      exact ⟨w, _, c, hrun, hstands, z.1, z.2, hstep, hnow, hcontents, Option.some.inj hbegins⟩

end Machine

end PhysMem
