import PhysMem.Proofs.BusySlots
import PhysMem.Proofs.Transfers

/-!
# Teardowns — what is left of an address space

A teardown frees what is at rest and orphans what is in transit, so that every operation in flight
frees its own frame and its own slot in the end. There is one gap: a page-in that waits for an
eviction to make room has no frame yet that could be orphaned. It claims one later, and nothing tells
it that its page is gone.

* **`MakesRoom`** are the page-ins in the gap, **`Revived`** the pages that they bring back.
* **`Leaving`** is what holds of the calls in flight behind a teardown, **`Cleared`** what holds of
  frames and slots: whatever is left of the address space is orphaned, or was brought back.
* **`Leaving.moved`** and **`Cleared.moved`** carry them along a move.
* **`teardown_completes_iff`** — a teardown is complete unless a page is brought back.
-/

namespace PhysMem

open SlotMap

/-- Whether the operation claims frames or holds a slot for a page of the address space. -/
def Operation.isFor (space : Nat) : Operation → Bool
  | .allocate _ _ (some page) => page.space == space
  | .pageIn page _ => page.space == space
  | _ => false

theorem Operation.ne_space_of_grants {op : Operation} {page : Page} {space : Nat}
    (h : op.isFor space = false) (hg : op.Grants page) : page.space ≠ space := by
  obtain ⟨kind, count, rfl⟩ := hg
  exact ne_of_beq_false h

theorem Operation.ne_space_of_pageIn {page : Page} {slot space : Nat}
    (h : (Operation.pageIn page slot).isFor space = false) : page.space ≠ space :=
  ne_of_beq_false h

namespace Task

/-- Only a page-in pins its cargo. -/
theorem Serves.of_pinned {op : Operation} {t : Task} {c : Cargo} (h : t.Serves op)
    (hc : t.cargo? = some c) (hp : c.pinned = true) :
    ∃ f, t.filling? = some f ∧ op = .pageIn c.page f.slot := by
  have filling : ∀ f, t.filling? = some f → fillCargo? f = some c →
      ∃ f, t.filling? = some f ∧ op = .pageIn c.page f.slot := by
    intro f hf hcargo
    obtain ⟨page, hpage, rfl⟩ := Option.map_eq_some_iff.mp hcargo
    exact ⟨f, hf, (h.filling hf).of_page hpage⟩
  cases t with
  | evictMapping e =>
      cases hc
      exact nomatch hp
  | evictWriting e i =>
      cases hc
      exact nomatch hp
  | evictTelling e =>
      cases hc
      exact nomatch hp
  | fillMapping f => exact filling f rfl hc
  | fillReading f i => exact filling f rfl hc
  | fillScrubbing f i => exact filling f rfl hc
  | slotReading slot buffer i => exact nomatch hc
  | slotWriting slot data i => exact nomatch hc

/-- An operation that has just started has hold of the slot of a page-in, or of a victim's. -/
theorem keeps_or_evicts {t : Task} {x : Nat} {q : Page} (hmaps : t.site = .map)
    (h : t.holds x q) : t.keeps x q ∨ ∃ frame, t.cargo? = some ⟨frame, false, q⟩ := by
  cases t with
  | evictMapping e =>
      rcases h with ⟨-, rfl⟩ | hneed
      · exact Or.inr ⟨e.frame, rfl⟩
      · exact Or.inl hneed
  | fillMapping f => exact Or.inl h
  | _ => exact nomatch hmaps

namespace Hauls

variable {own : Option Cargo} {grants : Page → Prop} {m : Memory} {p : Piece} {c : Cargo}

/-- Cargo of others that is not orphaned was not before. -/
theorem not_orphaned (h : Hauls own grants m p) (hc : ∃ o, m.coremap.Carries c o)
    (hne : own ≠ some c) (hfalse : p.memory.coremap.Carries c false) :
    m.coremap.Carries c false := by
  obtain ⟨o, ho⟩ := hc
  rcases h.only c false hfalse with hn | ⟨-, o', ho', himp⟩
  · rcases h.next c hn with ⟨hown, -⟩ | ⟨-, -, honly, -⟩
    · exact absurd hown hne
    · exact absurd (honly c o ho rfl) hne
  · cases o' with
    | false => exact ho'
    | true => exact nomatch himp rfl

/-- The operation's own cargo that is not orphaned was not before. -/
theorem not_orphaned_own (h : Hauls own grants m p) (hc : ∃ o, m.coremap.Carries c o)
    (hown : own = some c) (hn : p.next.cargo? = some c)
    (hfalse : p.memory.coremap.Carries c false) : m.coremap.Carries c false := by
  obtain ⟨o, ho⟩ := hc
  rcases h.next c hn with ⟨-, hsame⟩ | ⟨hne, -⟩
  · rw [← ((hsame o ho).unique hfalse rfl).2] at ho
    exact ho
  · exact absurd hown hne

end Hauls

end Task

namespace Machine

/-! ## Calls at their depth -/

/-- The call inside `n` others. -/
def At : List Call → Nat → Call → Prop
  | [], _, _ => False
  | c :: outer, n, d => n = outer.length ∧ d = c ∨ At outer n d

theorem At.mem {calls : List Call} {n : Nat} {c : Call} (h : At calls n c) : c ∈ calls := by
  induction calls with
  | nil => exact h.elim
  | cons d outer ih =>
      rcases h with ⟨-, rfl⟩ | h
      · exact List.mem_cons_self
      · exact List.mem_cons_of_mem _ (ih h)

theorem At.lt {calls : List Call} {n : Nat} {c : Call} (h : At calls n c) : n < calls.length := by
  induction calls with
  | nil => exact h.elim
  | cons d outer ih =>
      rcases h with ⟨rfl, -⟩ | h
      · exact Nat.lt_succ_self _
      · exact Nat.lt_succ_of_lt (ih h)

/-- Only one call is inside so many others. -/
theorem At.unique {calls : List Call} {n : Nat} {c c' : Call} (h : At calls n c)
    (h' : At calls n c') : c = c' := by
  induction calls with
  | nil => exact h.elim
  | cons d outer ih =>
      rcases h with ⟨rfl, rfl⟩ | h
      · rcases h' with ⟨-, rfl⟩ | h'
        · rfl
        · exact absurd h'.lt (Nat.lt_irrefl _)
      · rcases h' with ⟨rfl, -⟩ | h'
        · exact absurd h.lt (Nat.lt_irrefl _)
        · exact ih h h'

/-- A property of calls at their depth that holds of those around a piece and of what it leaves. -/
theorem forall_at_follow {P : Nat → Call → Prop} {op : Operation} {outer : List Call}
    {p : Task.Piece} (hnew : ∀ t, p.next = .callOut t → P outer.length ⟨op, t⟩)
    (hold : ∀ n c, At outer n c → P n c) :
    ∀ n c, At (follow op outer p).1.calls n c → P n c := by
  obtain ⟨-, ⟨task, hnext, hcalls, -⟩ | ⟨reply, -, hcalls, -⟩⟩ := follow_calls op outer p
  · rw [hcalls]
    rintro n c (⟨rfl, rfl⟩ | h)
    · exact hnew task hnext
    · exact hold n c h
  · rw [hcalls]
    exact hold

/-- Runs of the allocator in which nothing is claimed or held for an address space. -/
def without (space : Nat) (w : Machine) (move : Move) : Bool :=
  managed w move && match move with
    | .start op => !op.isFor space
    | _ => true

/-- Inside `n` calls the operation waits for an eviction to make room: no frame is its own yet. -/
def MakesRoom (w : Machine) (n : Nat) (op : Operation) : Prop :=
  ∃ t, At w.calls n ⟨op, t⟩ ∧ t.filling? = none

/-- A page-in among the early ones has brought the page back. -/
def Revived (early : Nat → Operation → Prop) (l : List Event) (page : Page) : Prop :=
  ∃ n slot a, early n (.pageIn page slot) ∧ .answered n (.pageIn page slot) (.address (.ok a)) ∈ l

/-! ## Page-ins behind a teardown -/

/-- Behind a teardown, a page-in of the address space that was not making room then has an orphaned
frame, and fails. -/
structure Leaving (space : Nat) (early : Nat → Operation → Prop) (w : Machine) (l : List Event) :
    Prop where
  allocs : ∀ c ∈ w.calls, ∀ page, c.op.Grants page → page.space ≠ space
  fills : ∀ n c, At w.calls n c → ∀ page slot, c.op = .pageIn page slot → page.space = space →
    early n c.op ∨ ∃ f, c.task.filling? = some f
  orphaned : ∀ n c, At w.calls n c → ∀ d, c.task.cargo? = some d → d.page.space = space →
    d.pinned = true → early n c.op ∨ ¬ w.memory.coremap.Carries d false
  answers : ∀ n page slot r, .answered n (.pageIn page slot) r ∈ l → page.space = space →
    early n (.pageIn page slot) ∧ (∃ a, r = .address (.ok a)) ∨ ∃ e, r = .address (.error e)

variable {space : Nat} {early : Nat → Operation → Prop} {w w' : Machine} {l events : List Event}

/-- **Page-ins go on so** behind every move that starts nothing for the address space. -/
theorem Leaving.moved (hs : w.Sound) (h : Leaving space early w l) {move : Move}
    (hrule : without space w move = true) (hmoved : Moved w move w' events) :
    Leaving space early w' (l ++ events) := by
  have hstart := (Bool.and_eq_true_iff.mp hrule).2
  cases hmoved with
  | @started op p hop hno hp takes hauls serves =>
      have hother : op.isFor space = false := Bool.eq_false_iff.mpr (by simpa using hstart)
      refine ⟨forall_follow (fun _ _ _ hg => Operation.ne_space_of_grants hother hg) h.allocs,
        forall_at_follow ?_ h.fills, forall_at_follow ?_ ?_, ?_⟩
      · rintro t - page slot rfl hspace
        exact absurd hspace (Operation.ne_space_of_pageIn hother)
      · intro t ht d hd hspace hpinned
        obtain ⟨f, -, rfl⟩ := (serves t ht).1.of_pinned hd hpinned
        exact absurd hspace (Operation.ne_space_of_pageIn hother)
      · intro n c hc d hd hspace hpinned
        rw [follow_memory]
        exact (h.orphaned n c hc d hd hspace hpinned).imp id
          (mt (hauls.not_orphaned (hs.laden.aboard c hc.mem d hd) nofun))
      · intro n page slot r ha hspace
        rcases List.mem_append.mp ha with ha | ha
        · exact h.answers n page slot r ha hspace
        · obtain ⟨-, rfl, -⟩ := answered_of_follow ha
          exact absurd hspace (Operation.ne_space_of_pageIn hother)
  | toreDown tears hauls gaveUp =>
      refine ⟨h.allocs, h.fills, ?_, ?_⟩
      · intro n c hc d hd hspace hpinned
        exact (h.orphaned n c hc d hd hspace hpinned).imp id
          (mt (hauls.not_orphaned (hs.laden.aboard c hc.mem d hd) nofun))
      · intro n page slot r ha hspace
        rcases List.mem_append.mp ha with ha | ha
        · exact h.answers n page slot r ha hspace
        · exact nomatch List.mem_singleton.mp ha
  | @resumed call outer p hcalls hp resumes hauls follows =>
      have hladen := hs.laden
      rw [hcalls] at hladen
      obtain ⟨hown, haboard⟩ := List.forall_mem_cons.mp hladen.aboard
      have hapart := (List.pairwise_cons.mp hladen.apart).1
      have hserves := hs.serves call (hcalls ▸ List.mem_cons_self)
      obtain ⟨halloc, hallocs⟩ := List.forall_mem_cons.mp (hcalls ▸ h.allocs)
      have hfills := h.fills
      have horphaned := h.orphaned
      rw [hcalls] at hfills horphaned
      have hhere := hfills outer.length call (Or.inl ⟨rfl, rfl⟩)
      have hcargo := horphaned outer.length call (Or.inl ⟨rfl, rfl⟩)
      refine ⟨forall_follow (fun _ _ => halloc) hallocs,
        forall_at_follow ?_ fun n c hc => hfills n c (Or.inr hc), forall_at_follow ?_ ?_, ?_⟩
      · intro t ht page slot hop hspace
        rw [ht] at follows
        refine (hhere page slot hop hspace).imp id ?_
        rintro ⟨f, hf⟩
        exact ⟨f, follows.filling hf⟩
      · intro t ht d hd hspace hpinned
        have hnext : p.next.cargo? = some d := by
          rw [ht]
          exact hd
        rw [ht] at follows
        obtain ⟨f, hf, hop⟩ := (follows.serves hserves).of_pinned hd hpinned
        rcases hhere d.page f.slot hop hspace with hearly | ⟨g, hg⟩
        · exact Or.inl hearly
        · -- the page-in was filling its frame, so its cargo is the same
          have hsame : call.task.cargo? = some d := by
            rw [Task.cargo?_of_filling hg, ← Task.cargo?_of_filling (follows.filling hg)]
            exact hd
          rw [follow_memory]
          exact (hcargo d hsame hspace hpinned).imp id
            (mt (hauls.not_orphaned_own (hown d hsame) hsame hnext))
      · intro n c hc d hd hspace hpinned
        rw [follow_memory]
        refine (horphaned n c (Or.inr hc) d hd hspace hpinned).imp id
          (mt (hauls.not_orphaned (haboard c hc.mem d hd) fun he => ?_))
        exact hapart c hc.mem d d he hd rfl
      · intro n page slot r ha hspace
        rcases List.mem_append.mp ha with ha | ha
        · exact h.answers n page slot r ha hspace
        · obtain ⟨hn, hop, rfl⟩ := answered_of_follow ha
          rw [← hop] at hserves
          rw [hn] at follows
          rcases follows.pageIn_reply hserves with he | ⟨f, hf, hpage, -, rfl⟩
          · exact Or.inr he
          · have hsame : call.task.cargo? = some ⟨f.frame, true, page⟩ := by
              rw [Task.cargo?_of_filling hf, Task.fillCargo?_of_page hpage]
            rcases hcargo _ hsame hspace rfl with hearly | hlost
            · exact Or.inl ⟨hop ▸ hearly, f.address, rfl⟩
            · exact absurd (hauls.answers _ f.address hsame rfl hn) hlost
  | rested hcalls =>
      rw [List.append_nil]
      exact h
  | @probed probe o m hp leaves =>
      rw [List.append_nil]
      refine ⟨h.allocs, h.fills, ?_, h.answers⟩
      intro n c hc
      show ∀ d, _ → _ → _ → early n c.op ∨ ¬ m.coremap.Carries d false
      rw [leaves.coremap]
      exact h.orphaned n c hc

/-! ## Frames and slots behind a teardown -/

/-- Behind a teardown, whatever is resident, on its way out or in a slot for the address space is
orphaned or was brought back. -/
structure Cleared (space : Nat) (early : Nat → Operation → Prop) (w : Machine) (l : List Event) :
    Prop where
  frames : ∀ i page, w.memory.coremap.HasRole i (.resident page) → page.space = space →
    Revived early l page
  evicted : ∀ c ∈ w.calls, ∀ d, c.task.cargo? = some d → d.page.space = space →
    d.pinned = false → w.memory.coremap.Carries d false → Revived early l d.page
  slots : ∀ x page s, w.memory.swap.slots.state? x = some (page, s) → page.space = space →
    s = .orphaned ∨ Revived early l page

theorem Revived.append {page : Page} (h : Revived early l page) :
    Revived early (l ++ events) page := by
  obtain ⟨n, slot, a, hearly, hmem⟩ := h
  exact ⟨n, slot, a, hearly, List.mem_append_left _ hmem⟩

theorem Cleared.append (h : Cleared space early w l) : Cleared space early w (l ++ events) := by
  refine ⟨?_, ?_, ?_⟩
  · intro i page hr hspace
    exact (h.frames i page hr hspace).append
  · intro c hc d hd hspace hpinned hcarry
    exact (h.evicted c hc d hd hspace hpinned hcarry).append
  · intro x page s hs hspace
    exact (h.slots x page s hs hspace).imp id Revived.append

/-- An operation that is not for the address space starts. -/
theorem Cleared.started (hs : w.Sound) (h : Cleared space early w l) {op : Operation}
    {p : Task.Piece} (hother : op.isFor space = false) (takes : Task.Takes w.memory p)
    (hauls : Task.Hauls none op.Grants w.memory p)
    (serves : ∀ t, p.next = .callOut t → t.Serves op ∧ t.site = .map) :
    Cleared space early (follow op w.calls p).1 l := by
  -- what the operation evicts was resident
  have victim : ∀ d, p.next.cargo? = some d → d.page.space = space → d.pinned = false →
      Revived early l d.page := by
    intro d hd hspace hpinned
    rcases hauls.next d hd with ⟨hown, -⟩ | ⟨-, -, -, hpin | hresident⟩
    · exact nomatch hown
    · exact nomatch hpinned.symm.trans hpin
    · exact h.frames _ _ hresident hspace
  refine ⟨?_, forall_follow ?_ ?_, ?_⟩
  · intro i page hr hspace
    rw [follow_memory] at hr
    rcases hauls.resident i page hr with hr | ⟨d, hown, -⟩ | hg
    · exact h.frames i page hr hspace
    · exact nomatch hown
    · exact absurd hspace (Operation.ne_space_of_grants hother hg)
  · intro t ht d hd hspace hpinned _
    exact victim d (by rw [ht]; exact hd) hspace hpinned
  · intro c hc d hd hspace hpinned hcarry
    rw [follow_memory] at hcarry
    exact h.evicted c hc d hd hspace hpinned
      (hauls.not_orphaned (hs.laden.aboard c hc d hd) nofun hcarry)
  · intro x page s hstate hspace
    rw [follow_memory] at hstate
    by_cases hx : ∃ q, p.next.holds x q
    · obtain ⟨q, hx⟩ := hx
      cases hstate.symm.trans (takes.taken x q hx).1
      cases hn : p.next with
      | reply r =>
          rw [hn] at hx
          exact hx.elim
      | callOut t =>
          rw [hn] at hx
          obtain ⟨hserves, hmaps⟩ := serves t hn
          rcases Task.keeps_or_evicts hmaps hx with hk | ⟨frame, hcargo⟩
          · have hop := hserves.of_keeps hk
            subst hop
            exact absurd hspace (Operation.ne_space_of_pageIn hother)
          · exact Or.inr (victim ⟨frame, false, page⟩ (by rw [hn]; exact hcargo) hspace rfl)
    · rw [takes.kept x fun q hq => hx ⟨q, hq⟩] at hstate
      exact h.slots x page s hstate hspace

/-- Some address space is torn down, this one or another. -/
theorem Cleared.toreDown (hs : w.Sound) (h : Cleared space early w l) {other : Nat}
    {grants : Page → Prop} {p : Task.Piece} (tears : Task.TearsDown other w.memory p)
    (hauls : Task.Hauls none grants w.memory p) (hnone : ∀ page, ¬ grants page) :
    Cleared space early ⟨p.memory, w.calls⟩ l := by
  refine ⟨?_, ?_, ?_⟩
  · intro i page hr hspace
    rcases hauls.resident i page hr with hr | ⟨d, hown, -⟩ | hg
    · exact h.frames i page hr hspace
    · exact nomatch hown
    · exact absurd hg (hnone page)
  · intro c hc d hd hspace hpinned hcarry
    exact h.evicted c hc d hd hspace hpinned
      (hauls.not_orphaned (hs.laden.aboard c hc d hd) nofun hcarry)
  · intro x page s hstate hspace
    have hswept : swept other (w.memory.swap.slots.state? x) = some (page, s) :=
      (tears.state x).symm.trans hstate
    rcases swept_eq_some hswept with ⟨-, hx⟩ | ⟨-, rfl, -⟩
    · exact h.slots x page s hx hspace
    · exact Or.inl rfl

/-- The innermost call goes on; if it is a page-in that was making room, it may bring its page
back. -/
theorem Cleared.resumed (hs : w.Sound) (hleaving : Leaving space early w l)
    (h : Cleared space early w l) {call : Call} {outer : List Call} {p : Task.Piece}
    (hcalls : w.calls = call :: outer) (resumes : Task.Resumes call.task w.memory p)
    (hauls : Task.Hauls call.task.cargo? call.op.Grants w.memory p) :
    Cleared space early (follow call.op outer p).1 (l ++ (follow call.op outer p).2) := by
  have hmem : call ∈ w.calls := hcalls ▸ List.mem_cons_self
  have hat : At w.calls outer.length call := hcalls ▸ Or.inl ⟨rfl, rfl⟩
  have haboard := hs.laden.aboard
  have hserves := hs.serves call hmem
  have hapart := hs.laden.apart
  rw [hcalls] at hapart
  refine ⟨?_, forall_follow ?_ ?_, ?_⟩
  · intro i page hr hspace
    rw [follow_memory] at hr
    rcases hauls.resident i page hr with hr | ⟨d, hown, rfl, hcarry, hends⟩ | hg
    · exact (h.frames i page hr hspace).append
    · cases hpinned : d.pinned with
      | false => exact (h.evicted call hmem d hown hspace hpinned hcarry).append
      | true =>
          obtain ⟨a, hn⟩ := hends hpinned
          obtain ⟨f, -, hop⟩ := hserves.of_pinned hown hpinned
          rcases hleaving.orphaned _ call hat d hown hspace hpinned with hearly | hlost
          · rw [hop] at hearly ⊢
            exact ⟨_, f.slot, a, hearly, List.mem_append_right _ (mem_follow_of_reply hn)⟩
          · exact absurd hcarry hlost
    · exact absurd hspace (hleaving.allocs call hmem page hg)
  · intro t ht d hd hspace hpinned hcarry
    have hnext : p.next.cargo? = some d := by
      rw [ht]
      exact hd
    rw [follow_memory] at hcarry
    by_cases hown : call.task.cargo? = some d
    · exact (h.evicted call hmem d hown hspace hpinned
        (hauls.not_orphaned_own (haboard call hmem d hown) hown hnext hcarry)).append
    · rcases hauls.next d hnext with ⟨he, -⟩ | ⟨-, -, -, hpin | hresident⟩
      · exact absurd he hown
      · exact nomatch hpinned.symm.trans hpin
      · exact (h.frames _ _ hresident hspace).append
  · intro c hc d hd hspace hpinned hcarry
    have hc' : c ∈ w.calls := hcalls ▸ List.mem_cons_of_mem _ hc
    rw [follow_memory] at hcarry
    refine (h.evicted c hc' d hd hspace hpinned
      (hauls.not_orphaned (haboard c hc' d hd) (fun he => ?_) hcarry)).append
    exact (List.pairwise_cons.mp hapart).1 c hc d d he hd rfl
  · intro x page s hstate hspace
    rw [follow_memory] at hstate
    rcases resumes.slots.state x with hx | ⟨q, u, hu, -, hx | ⟨hne, hx⟩⟩
    · exact (h.slots x page s (hx.symm.trans hstate) hspace).imp id Revived.append
    · exact nomatch hx.symm.trans hstate
    · cases hx.symm.trans hstate
      exact Or.inr ((h.slots x page u hu hspace).resolve_left hne).append

/-- **Whatever is not orphaned was brought back**, behind every move that starts nothing for the
address space. -/
theorem Cleared.moved (hs : w.Sound) (hleaving : Leaving space early w l)
    (h : Cleared space early w l) {move : Move} (hrule : without space w move = true)
    (hmoved : Moved w move w' events) : Cleared space early w' (l ++ events) := by
  have hstart := (Bool.and_eq_true_iff.mp hrule).2
  cases hmoved with
  | @started op p hop hno hp takes hauls serves =>
      have hother : op.isFor space = false := Bool.eq_false_iff.mpr (by simpa using hstart)
      exact (h.started hs hother takes hauls serves).append
  | toreDown tears hauls gaveUp =>
      refine (h.toreDown hs tears hauls ?_).append
      rintro page ⟨kind, count, he⟩
      exact nomatch he
  | resumed hcalls hp resumes hauls follows => exact h.resumed hs hleaving hcalls resumes hauls
  | rested hcalls => exact h.append
  | @probed probe o m hp leaves =>
      refine Cleared.append ⟨?_, ?_, ?_⟩
      · show ∀ i page, m.coremap.HasRole i (.resident page) → _
        rw [leaves.coremap]
        exact h.frames
      · show ∀ c ∈ w.calls, ∀ d, _ → _ → _ → m.coremap.Carries d false → _
        rw [leaves.coremap]
        exact h.evicted
      · show ∀ x page s, m.swap.slots.state? x = some (page, s) → _
        rw [leaves.slots]
        exact h.slots

/-! ## The teardown itself -/

section

variable {grants : Page → Prop} {p : Task.Piece}

/-- Cargo of the address space that is torn down is orphaned. -/
theorem orphaned_of_tearDown (hs : w.Sound) (hauls : Task.Hauls none grants w.memory p)
    (gaveUp : ∀ i r, w.memory.coremap.HasRole i r →
      p.memory.coremap.HasRole i (Coremap.roleAfter space r))
    {c : Call} (hc : c ∈ w.calls) {d : Cargo} (hd : c.task.cargo? = some d)
    (hspace : d.page.space = space) : ¬ p.memory.coremap.Carries d false := by
  intro hfalse
  have hrole := gaveUp _ _ (hauls.not_orphaned (hs.laden.aboard c hc d hd) nofun hfalse)
  have hpage : (d.role false).page? = some d.page := rfl
  rw [Coremap.roleAfter_of_space hpage hspace] at hrole
  exact nomatch hrole.unique hfalse

/-- Behind a teardown the page-ins that have a frame have lost it. -/
theorem Leaving.of_tearDown (hs : w.Sound)
    (hnone : ∀ c ∈ w.calls, ∀ page, c.op.Grants page → page.space ≠ space)
    (hauls : Task.Hauls none grants w.memory p)
    (gaveUp : ∀ i r, w.memory.coremap.HasRole i r →
      p.memory.coremap.HasRole i (Coremap.roleAfter space r)) :
    Leaving space (MakesRoom w) ⟨p.memory, w.calls⟩ [] := by
  refine ⟨hnone, ?_, ?_, fun _ _ _ _ ha => nomatch ha⟩
  · intro n c hc page slot hop hspace
    cases hf : c.task.filling? with
    | none => exact Or.inl ⟨c.task, hc, hf⟩
    | some f => exact Or.inr ⟨f, rfl⟩
  · intro n c hc d hd hspace hpinned
    exact Or.inr (orphaned_of_tearDown hs hauls gaveUp hc.mem hd hspace)

/-- Behind a teardown everything of the address space is free or orphaned. -/
theorem Cleared.of_tearDown {early : Nat → Operation → Prop} (hs : w.Sound)
    (tears : Task.TearsDown space w.memory p) (hauls : Task.Hauls none grants w.memory p)
    (hnone : ∀ page, ¬ grants page)
    (gaveUp : ∀ i r, w.memory.coremap.HasRole i r →
      p.memory.coremap.HasRole i (Coremap.roleAfter space r)) :
    Cleared space early ⟨p.memory, w.calls⟩ [] := by
  refine ⟨?_, ?_, ?_⟩
  · intro i page hr hspace
    rcases hauls.resident i page hr with hr' | ⟨d, hown, -⟩ | hg
    · have hrole := gaveUp i _ hr'
      rw [Coremap.roleAfter_of_space rfl hspace] at hrole
      exact nomatch hrole.unique hr
    · exact nomatch hown
    · exact absurd hg (hnone page)
  · intro c hc d hd hspace hpinned hcarry
    exact absurd hcarry (orphaned_of_tearDown hs hauls gaveUp hc hd hspace)
  · intro x page s hstate hspace
    have hswept : swept space (w.memory.swap.slots.state? x) = some (page, s) :=
      (tears.state x).symm.trans hstate
    rcases swept_eq_some hswept with ⟨hne, -⟩ | ⟨-, rfl, -⟩
    · exact absurd hspace hne
    · exact Or.inl rfl

end

/-! ## Until all operations have returned -/

theorem At.follow {op : Operation} {outer : List Call} {p : Task.Piece} {n : Nat} {c : Call}
    (h : At outer n c) : At (Machine.follow op outer p).1.calls n c := by
  obtain ⟨-, ⟨task, -, hcalls, -⟩ | ⟨reply, -, hcalls, -⟩⟩ := follow_calls op outer p
  · rw [hcalls]
    exact Or.inr h
  · rw [hcalls]
    exact h

/-- A call in flight stays so, or it comes to its end. -/
theorem Moved.pursues {move : Move} (h : Moved w move w' events) {n : Nat} {c : Call}
    (hc : At w.calls n c) :
    (∃ t, At w'.calls n ⟨c.op, t⟩) ∨ ∃ r, .answered n c.op r ∈ events := by
  cases h with
  | started hop hno hp takes hauls serves => exact Or.inl ⟨c.task, hc.follow⟩
  | toreDown tears hauls gaveUp => exact Or.inl ⟨c.task, hc⟩
  | @resumed call outer p hcalls hp resumes hauls follows =>
      rw [hcalls] at hc
      rcases hc with ⟨rfl, rfl⟩ | hc
      · obtain ⟨-, ⟨task, -, hcalls', -⟩ | ⟨reply, hn, -⟩⟩ := follow_calls c.op outer p
        · rw [hcalls']
          exact Or.inl ⟨task, Or.inl ⟨rfl, rfl⟩⟩
        · exact Or.inr ⟨reply, mem_follow_of_reply hn⟩
      · exact Or.inl ⟨c.task, hc.follow⟩
  | rested hcalls => exact Or.inl ⟨c.task, hc⟩
  | probed hp leaves => exact Or.inl ⟨c.task, hc⟩

/-- Each of these calls is in flight or has come to its end. -/
def Pursued (calls : List Call) (w : Machine) (l : List Event) : Prop :=
  ∀ n c, At calls n c → (∃ t, At w.calls n ⟨c.op, t⟩) ∨ ∃ r, .answered n c.op r ∈ l

theorem Pursued.moved {calls : List Call} (h : Pursued calls w l) {move : Move}
    (hmoved : Moved w move w' events) : Pursued calls w' (l ++ events) := by
  intro n c hc
  rcases h n c hc with ⟨t, ht⟩ | ⟨r, hr⟩
  · refine (hmoved.pursues ht).imp id ?_
    rintro ⟨r, hr⟩
    exact ⟨r, List.mem_append_right _ hr⟩
  · exact Or.inr ⟨r, List.mem_append_left _ hr⟩

/-- **What a run leaves behind a teardown**: the page-ins and what is left are as they should be, and
no call is lost. -/
theorem tearDown_leaves {m : Memory} (hm : m.IsFresh) {before moves : List Move}
    {y z : Machine} {past now later : List Event}
    (hrun : (Machine.idle m).run managed before = some (w, past))
    (hnone : ∀ c ∈ w.calls, ∀ page, c.op.Grants page → page.space ≠ space)
    (htear : w.step (.start (.tearDown space)) = .ok (y, now))
    (hlater : y.run (without space) moves = some (z, later)) :
    z.Sound ∧ Leaving space (MakesRoom w) z later ∧ Cleared space (MakesRoom w) z later ∧
      Pursued w.calls z later := by
  have hw := Sound.of_run hm hrun
  have hmoved := moved_of_step hw rfl htear
  have hy := hw.moved hmoved
  have hstart : Leaving space (MakesRoom w) y [] ∧ Cleared space (MakesRoom w) y [] ∧
      Pursued w.calls y [] := by
    cases hmoved with
    | started hop hno => exact absurd rfl (hno space)
    | toreDown tears hauls gaveUp =>
        refine ⟨.of_tearDown hw hnone hauls gaveUp, .of_tearDown hw tears hauls ?_ gaveUp,
          fun n c hc => Or.inl ⟨c.task, hc⟩⟩
        rintro page ⟨kind, count, he⟩
        exact nomatch he
  refine Sound.run_induction (l := []) (P := fun z l => Leaving space (MakesRoom w) z l ∧
    Cleared space (MakesRoom w) z l ∧ Pursued w.calls z l)
    (fun _ _ hr => (Bool.and_eq_true_iff.mp hr).1) ?_ hy hstart hlater
  rintro u l move u' events hu ⟨hleaving, hcleared, hpursued⟩ hrule hmoved
  exact ⟨hleaving.moved hu hrule hmoved, hcleared.moved hu hleaving hrule hmoved,
    hpursued.moved hmoved⟩

/-- With no call in flight a frame that has a page is resident. -/
theorem Sound.resident_of_empty (hw : w.Sound) (hempty : w.calls = []) {i : Nat} {d : Descriptor}
    {page : Page} (hd : w.memory.coremap.frames[i]? = some d) (hpage : d.page = some page) :
    w.memory.coremap.HasRole i (.resident page) := by
  obtain ⟨r, hr, huse⟩ := hw.coremap.hasRole (Coremap.use?_of_getElem? hd)
  have hp : r.use.page = some page := by
    rw [← huse]
    exact hpage
  cases r with
  | free => exact nomatch hp
  | kernel tail => exact nomatch hp
  | resident q =>
      cases hp
      exact hr
  | transit pinned q orphaned =>
      obtain ⟨call, hcall, -⟩ := hw.laden.carried ⟨i, pinned, q⟩ orphaned hr
      rw [hempty] at hcall
      exact nomatch hcall

/-- With no call in flight every slot in use is idle. -/
theorem Sound.idle_of_empty (hw : w.Sound) (hempty : w.calls = []) {x : Nat} {page : Page}
    {s : SlotState} (hs : w.memory.swap.slots.state? x = some (page, s)) : s = .idle := by
  refine Decidable.byContradiction fun hne => ?_
  obtain ⟨call, hcall, -⟩ := hw.held x page s hs hne
  rw [hempty] at hcall
  exact nomatch hcall

/-- A frame or a slot has the page. -/
def Remains (w : Machine) (page : Page) : Prop :=
  (∃ (i : Nat) (d : Descriptor), w.memory.coremap.frames[i]? = some d ∧ d.page = some page) ∨
    ∃ x, w.memory.swap.slots.owner x = some page

/-- The operation inside `n` calls has answered with an error and not with an address. -/
def Fails (n : Nat) (op : Operation) (l : List Event) : Prop :=
  (∃ e, .answered n op (.address (.error e)) ∈ l) ∧
    ∀ a, .answered n op (.address (.ok a)) ∉ l

/-- Nothing is left of the address space, and its page-ins that were in flight have failed. -/
structure IsGone (space : Nat) (calls : List Call) (w : Machine) (l : List Event) : Prop where
  gone : ∀ page, page.space = space → ¬ Remains w page
  failed : ∀ n page slot t, At calls n ⟨.pageIn page slot, t⟩ → page.space = space →
    Fails n (.pageIn page slot) l

/-- What is left when all have returned was brought back. -/
theorem Cleared.revived (h : Cleared space early w l) (hw : w.Sound) (hempty : w.calls = [])
    {page : Page} (hspace : page.space = space) (hleft : Remains w page) :
    Revived early l page := by
  rcases hleft with ⟨i, d, hd, hpage⟩ | ⟨x, hx⟩
  · exact h.frames i page (hw.resident_of_empty hempty hd hpage) hspace
  · obtain ⟨s, hs⟩ := state?_of_owner hx
    refine (h.slots x page s hs hspace).resolve_left ?_
    rw [hw.idle_of_empty hempty hs]
    exact nofun

/-- A page-in that has returned failed, or it was making room and succeeded. -/
theorem Leaving.failed {calls : List Call} (h : Leaving space early w l)
    (hpursued : Pursued calls w l) (hempty : w.calls = []) {n slot : Nat} {page : Page} {t : Task}
    (hcall : At calls n ⟨.pageIn page slot, t⟩) (hspace : page.space = space)
    (hfails : early n (.pageIn page slot) →
      ∀ a, .answered n (.pageIn page slot) (.address (.ok a)) ∉ l) :
    Fails n (.pageIn page slot) l := by
  refine ⟨?_, fun a ha => ?_⟩
  · rcases hpursued n _ hcall with ⟨t', ht'⟩ | ⟨r, hr⟩
    · rw [hempty] at ht'
      exact ht'.elim
    · rcases h.answers n page slot r hr hspace with ⟨hearly, a, rfl⟩ | ⟨e, rfl⟩
      · exact absurd hr (hfails hearly a)
      · exact ⟨e, hr⟩
  · rcases h.answers n page slot _ ha hspace with ⟨hearly, -⟩ | ⟨e, he⟩
    · exact hfails hearly a ha
    · exact nomatch he

/-- **A teardown is complete unless a page-in that was making room succeeds**: once all operations
have returned, whatever is left of the address space was brought back so, the page-ins that had a
frame have failed, and nothing is left at all exactly if no page was brought back. -/
theorem teardown_completes_iff {m : Memory} (hm : m.IsFresh) {before moves : List Move}
    {y z : Machine} {past now later : List Event}
    (hrun : (Machine.idle m).run managed before = some (w, past))
    (hnone : ∀ c ∈ w.calls, ∀ page, c.op.Grants page → page.space ≠ space)
    (htear : w.step (.start (.tearDown space)) = .ok (y, now))
    (hlater : y.run (without space) moves = some (z, later)) (hempty : z.calls = []) :
    (∀ page, page.space = space → Remains z page → Revived (MakesRoom w) later page) ∧
      (∀ n page slot t, At w.calls n ⟨.pageIn page slot, t⟩ → page.space = space →
        (∃ f, t.filling? = some f) → Fails n (.pageIn page slot) later) ∧
      (IsGone space w.calls z later ↔
        ∀ page, page.space = space → ¬ Revived (MakesRoom w) later page) := by
  obtain ⟨hz, hleaving, hcleared, hpursued⟩ := tearDown_leaves hm hrun hnone htear hlater
  refine ⟨fun page hspace hleft => hcleared.revived hz hempty hspace hleft, ?_, ?_, ?_⟩
  · rintro n page slot t hcall hspace ⟨f, hf⟩
    refine hleaving.failed hpursued hempty hcall hspace ?_
    rintro ⟨t', hcall', hnot⟩
    cases hcall'.unique hcall
    exact nomatch hf.symm.trans hnot
  · rintro hgone page hspace ⟨n, slot, a, ⟨t, hcall, -⟩, hmem⟩
    exact (hgone.failed n page slot t hcall hspace).2 a hmem
  · intro hnever
    refine ⟨fun page hspace hleft => ?_, fun n page slot t hcall hspace => ?_⟩
    · exact hnever page hspace (hcleared.revived hz hempty hspace hleft)
    · refine hleaving.failed hpursued hempty hcall hspace fun hearly a ha => ?_
      exact hnever page hspace ⟨n, slot, a, hearly, ha⟩

/-- A page of space 1 is evicted to slot 0, another one becomes resident, and a page-in has begun to
read the first. -/
def readsBack : List Move :=
  [.start (.allocate .user 1 (some ⟨1, 0⟩)), .start .evict] ++ List.replicate 10 .resume ++
    [.start (.allocate .user 1 (some ⟨1, 1⟩)), .start (.pageIn ⟨1, 0⟩ 0), .resume]

/-- The space is torn down meanwhile, and nothing is left of it. -/
theorem teardown_completes_iff_of_readsBack :
    ∃ w past y now z later, (Machine.idle .small).run managed readsBack = some (w, past) ∧
      w.step (.start (.tearDown 1)) = .ok (y, now) ∧
      y.run (without 1) (List.replicate 16 .resume) = some (z, later) ∧ z.calls = [] ∧
      w.calls = [⟨.pageIn ⟨1, 0⟩ 0, .fillReading ⟨1, 8192, 0, some ⟨1, 0⟩⟩ Task.firstPlace⟩] ∧
      IsGone 1 w.calls z later := by
  have hbefore : ((Machine.idle .small).run managed readsBack).map (fun r => r.1.calls) =
      some [⟨.pageIn ⟨1, 0⟩ 0, .fillReading ⟨1, 8192, 0, some ⟨1, 0⟩⟩ Task.firstPlace⟩] := by
    decide +kernel
  have hafter : (((Machine.idle .small).run managed readsBack).bind fun r =>
      (r.1.run managed [.start (.tearDown 1)]).bind fun s =>
        (s.1.run (without 1) (List.replicate 16 .resume)).map fun u => u.1.calls) = some [] := by
    decide +kernel
  obtain ⟨⟨w, past⟩, hrun, hw⟩ := Option.map_eq_some_iff.mp hbefore
  rw [hrun, Option.bind_some] at hafter
  obtain ⟨⟨y, now⟩, hy, hafter⟩ := Option.bind_eq_some_iff.mp hafter
  obtain ⟨⟨z, later⟩, hz, hempty⟩ := Option.map_eq_some_iff.mp hafter
  dsimp only at hw hempty
  have htear := (run_one hy).2
  refine ⟨w, past, y, now, z, later, hrun, htear, hz, hempty, hw, ?_⟩
  refine (teardown_completes_iff Memory.small_isFresh hrun ?_ htear hz hempty).2.2.mpr ?_
  · rw [hw]
    rintro c hc page ⟨kind, count, hop⟩
    rw [List.mem_singleton.mp hc] at hop
    exact nomatch hop
  · -- the page-in has a frame, so it was not making room
    rintro page - ⟨n, slot, a, ⟨t, hcall, hnot⟩, -⟩
    rw [hw] at hcall
    rcases hcall with ⟨-, hc⟩ | hc
    · cases hc
      exact nomatch hnot
    · exact hc

/-- A page of space 1 is evicted to slot 0, pages of space 2 fill the memory, and a page-in of the
first waits for one of them to be evicted. -/
def makesRoom : List Move :=
  [.start (.allocate .user 1 (some ⟨1, 0⟩)), .start .evict] ++ List.replicate 10 .resume ++
    [.start (.allocate .user 1 (some ⟨2, 0⟩)), .start (.allocate .user 1 (some ⟨2, 1⟩)),
      .start (.pageIn ⟨1, 0⟩ 0)]

/-- The space is torn down meanwhile, and yet the page-in succeeds and the page is left. -/
theorem teardown_misses_waiting_page_in :
    ∃ w past y now z later, (Machine.idle .small).run managed makesRoom = some (w, past) ∧
      w.step (.start (.tearDown 1)) = .ok (y, now) ∧
      y.run (without 1) (List.replicate 27 .resume) = some (z, later) ∧ z.calls = [] ∧
      w.calls = [⟨.pageIn ⟨1, 0⟩ 0,
        .evictMapping ⟨0, 4096, ⟨2, 0⟩, 1, some (.pageIn ⟨1, 0⟩ 0)⟩⟩] ∧
      .answered 0 (.pageIn ⟨1, 0⟩ 0) (.address (.ok 4096)) ∈ later ∧ Remains z ⟨1, 0⟩ := by
  have hbefore : ((Machine.idle .small).run managed makesRoom).map (fun r => r.1.calls) =
      some [⟨.pageIn ⟨1, 0⟩ 0,
        .evictMapping ⟨0, 4096, ⟨2, 0⟩, 1, some (.pageIn ⟨1, 0⟩ 0)⟩⟩] := by decide +kernel
  have hafter : (((Machine.idle .small).run managed makesRoom).bind fun r =>
      (r.1.run managed [.start (.tearDown 1)]).bind fun s =>
        (s.1.run (without 1) (List.replicate 27 .resume)).map fun u =>
          (u.1.calls, u.1.memory.coremap.frames[0]?.bind Descriptor.page,
            decide (.answered 0 (.pageIn ⟨1, 0⟩ 0) (.address (.ok 4096)) ∈ u.2))) =
      some ([], some ⟨1, 0⟩, true) := by decide +kernel
  obtain ⟨⟨w, past⟩, hrun, hw⟩ := Option.map_eq_some_iff.mp hbefore
  rw [hrun, Option.bind_some] at hafter
  obtain ⟨⟨y, now⟩, hy, hafter⟩ := Option.bind_eq_some_iff.mp hafter
  obtain ⟨⟨z, later⟩, hz, hleft⟩ := Option.map_eq_some_iff.mp hafter
  obtain ⟨hempty, hleft⟩ := Prod.mk.inj hleft
  obtain ⟨hpage, hanswer⟩ := Prod.mk.inj hleft
  obtain ⟨d, hd, hpage⟩ := Option.bind_eq_some_iff.mp hpage
  exact ⟨w, past, y, now, z, later, hrun, (run_one hy).2, hz, hempty, hw,
    of_decide_eq_true hanswer, Or.inl ⟨0, d, hd, hpage⟩⟩

end Machine

end PhysMem
