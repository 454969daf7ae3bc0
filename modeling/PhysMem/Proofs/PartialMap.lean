import Mathlib.Logic.Function.Basic
import PhysMem.Proofs.SlotRequests

/-!
# A partial map — what a slot map stands for

Seen from outside, a slot map is a partial map from slot numbers to pages, each with where its
transfer stands. Nothing that three packed bit vectors, a table of pages and a counter do to one
another can be told from what the requests do to that partial map, for no number of slots: the places
of the last word behind the last slot neither hide a free slot nor make one up.

* **`Acts`** has one rule for each thing that can happen to the partial map.
* **`Coherent.acts`** is the step: the slot map follows the rules.
* **`InStep`** is what can be seen of the parts of the map.
* **`slot_map_is_a_partial_map`** — all of it holds after every list of requests.
-/

namespace PhysMem.SlotMap

variable {m m' : SlotMap} {n slot x : Nat} {page : Page} {f : Nat → Option (Page × SlotState)}
  {s : Option (Page × SlotState)} {request : Request} {answer : Answer}

/-- The rules of a partial map `f` of `n` slots: what is answered to a request, and what becomes of
the map. -/
inductive Acts (n : Nat) (f : Nat → Option (Page × SlotState)) :
    Request → Answer → (Nat → Option (Page × SlotState)) → Prop where
  /-- The lowest free slot is the page's, and busy. -/
  | reserve {slot : Nat} (page : Page) : slot < n → f slot = none →
    (∀ x, x < slot → f x ≠ none) →
    Acts n f (.reserve page) (.reserved (.ok slot)) (Function.update f slot (some (page, .busy)))
  | full (page : Page) : (∀ x, x < n → f x ≠ none) →
    Acts n f (.reserve page) (.reserved (.error .swapFull)) f
  | hold {slot : Nat} {page : Page} : f slot = some (page, .idle) →
    Acts n f (.hold slot page) (.held true) (Function.update f slot (some (page, .busy)))
  | holdRefused {slot : Nat} {page : Page} : f slot ≠ some (page, .idle) →
    Acts n f (.hold slot page) (.held false) f
  | settle {slot : Nat} {page : Page} {s : SlotState} : f slot = some (page, s) → s ≠ .orphaned →
    Acts n f (.settle slot page) (.settled true) (Function.update f slot (some (page, .idle)))
  /-- The address space of the page is gone. -/
  | settleOrphaned {slot : Nat} {page : Page} : f slot = some (page, .orphaned) →
    Acts n f (.settle slot page) (.settled false) (Function.update f slot none)
  | settleOther {slot : Nat} {page : Page} : (∀ s, f slot ≠ some (page, s)) →
    Acts n f (.settle slot page) (.settled false) f
  /-- The slot is free, whoever had it. -/
  | release {slot : Nat} : slot < n →
    Acts n f (.release slot) (.released (.ok ())) (Function.update f slot none)
  | releaseOutside {slot : Nat} : n ≤ slot →
    Acts n f (.release slot) (.released (.error (.invalidSlot slot))) f
  | releaseOwned {slot : Nat} {page : Page} {s : SlotState} : f slot = some (page, s) →
    Acts n f (.releaseIfOwned slot page) (.owned true) (Function.update f slot none)
  | releaseOther {slot : Nat} {page : Page} : (∀ s, f slot ≠ some (page, s)) →
    Acts n f (.releaseIfOwned slot page) (.owned false) f
  /-- Idle slots of the address space are free, and its busy ones are orphaned. -/
  | releaseSpace (space : Nat) :
    Acts n f (.releaseSpace space)
      (.swept ((List.range n).countP fun x => restsIn space (f x))) (fun x => swept space (f x))

/-! ## One request -/

theorem Sets.update (h : m.Sets slot s m') : m'.state? = Function.update m.state? slot s := by
  funext x
  rw [h.state, Function.update_apply]

/-- A slot that is not the page's, in the words of the partial map. -/
theorem state?_ne_of_owner (h : m.owner slot ≠ some page) (s : SlotState) :
    m.state? slot ≠ some (page, s) := fun hs => h (owner_of_state? hs)

theorem Sound.used_iff (hm : m.Sound) : m.used.bit x = true ↔ m.state? x ≠ none := by
  rw [hm.used_bit, Option.isSome_iff_ne_none]

theorem Sound.free_iff (hm : m.Sound) : m.used.bit x = false ↔ m.state? x = none := by
  rw [hm.used_bit, Option.isSome_eq_false_iff, Option.isNone_iff_eq_none]

theorem Coherent.reserve_acts {result : Except SwapError Nat} (hm : m.Coherent)
    (h : m.reserve page = .ok (result, m')) :
    Acts m.capacity m.state? (.reserve page) (.reserved result) m'.state? := by
  rcases hm.reserve_total page with ⟨slot, m₁, h₁, hslot, hfree, hbelow⟩ | ⟨h₁, hfull⟩
  · cases h₁.symm.trans h
    rw [(reserve_ok hm.toSound h).2.update]
    exact .reserve page hslot (hm.free_iff.mp hfree) fun x hx => hm.used_iff.mp (hbelow x hx)
  · cases h₁.symm.trans h
    exact .full page fun x hx => hm.used_iff.mp (hfull x hx)

theorem Sound.hold_acts {b : Bool} (hm : m.Sound) (h : m.hold slot page = .ok (b, m')) :
    Acts n m.state? (.hold slot page) (.held b) m'.state? := by
  cases b with
  | true =>
      obtain ⟨hidle, hset⟩ := hold_true hm h
      rw [hset.update]
      exact .hold hidle
  | false =>
      obtain rfl := hold_false h
      exact .holdRefused fun hidle => nomatch hold_of_idle hm hidle h

theorem Sound.settle_acts {b : Bool} (hm : m.Sound) (h : m.settle slot page = .ok (b, m')) :
    Acts n m.state? (.settle slot page) (.settled b) m'.state? := by
  rcases settle_ok hm h with ⟨hother, rfl, rfl⟩ | ⟨hs, rfl, hset⟩ | ⟨⟨s, hs, hne⟩, rfl, hset⟩
  · exact .settleOther (state?_ne_of_owner hother)
  · rw [hset.update]
    exact .settleOrphaned hs
  · rw [hset.update]
    exact .settle hs hne

theorem Sound.release_acts {result : Except SwapError Unit} (hm : m.Sound)
    (h : m.release slot = .ok (result, m')) :
    Acts m.capacity m.state? (.release slot) (.released result) m'.state? := by
  cases release_cases h with
  | outside hslot => exact .releaseOutside hslot
  | cleared hslot =>
      rw [(release_ok hm h).update]
      exact .release hslot

theorem Sound.releaseIfOwned_acts {b : Bool} (hm : m.Sound)
    (h : m.releaseIfOwned slot page = .ok (b, m')) :
    Acts n m.state? (.releaseIfOwned slot page) (.owned b) m'.state? := by
  rcases releaseIfOwned_ok hm h with ⟨hother, rfl, rfl⟩ | ⟨howner, rfl, hset⟩
  · exact .releaseOther (state?_ne_of_owner hother)
  · obtain ⟨s, hs⟩ := state?_of_owner howner
    rw [hset.update]
    exact .releaseOwned hs

theorem Coherent.releaseSpace_acts {space released : Nat} (hm : m.Coherent)
    (h : m.releaseSpace space = .ok (released, m')) :
    Acts m.capacity m.state? (.releaseSpace space) (.swept released) m'.state? := by
  obtain ⟨-, rfl⟩ := hm.releaseSpace h
  rw [show m'.state? = fun x => swept space (m.state? x) from
    funext (releaseSpace_ok hm.toSound h).2.2]
  exact .releaseSpace space

/-- **The slot map follows the rules of the partial map**, whatever is asked. -/
theorem Coherent.acts (hm : m.Coherent) (h : m.perform request = .ok (answer, m')) :
    Acts m.capacity m.state? request answer m'.state? := by
  cases perform_cases h with
  | reserve page answer h₁ => exact hm.reserve_acts h₁
  | hold slot page isHeld h₁ => exact hm.hold_acts h₁
  | settle slot page isLive h₁ => exact hm.settle_acts h₁
  | release slot answer h₁ => exact hm.release_acts h₁
  | releaseIfOwned slot page isOwned h₁ => exact hm.releaseIfOwned_acts h₁
  | releaseSpace space released h₁ => exact hm.releaseSpace_acts h₁

/-! ## Sequences of requests -/

/-- **A slot that is handed out was free** right before. -/
theorem Coherent.free_before_reserved (hm : m.Coherent) {later : List Request}
    {answers : List Answer} (h : m.run later = .ok (answers, m'))
    (hmem : .reserved (.ok slot) ∈ answers) :
    ∃ earlier answers₁ m₁, earlier <+: later ∧ m.run earlier = .ok (answers₁, m₁) ∧
      m₁.used.bit slot = false := by
  induction later generalizing m answers with
  | nil =>
      cases h
      exact absurd hmem List.not_mem_nil
  | cons request rest ih =>
      obtain ⟨⟨answer, m₁⟩, h₁, h⟩ := Fault.bind_eq_ok.mp h
      obtain ⟨⟨answers', m₂⟩, h₂, h⟩ := Fault.bind_eq_ok.mp h
      cases h
      rcases List.mem_cons.mp hmem with rfl | hmem
      · refine ⟨[], [], m, List.nil_prefix, rfl, ?_⟩
        have hacts := hm.acts h₁
        generalize m₁.state? = g at hacts
        cases hacts with
        | reserve page hslot hfree hbelow => exact hm.free_iff.mpr hfree
      · obtain ⟨earlier, answers₁, m₃, hprefix, hrun, hfree⟩ := ih (hm.perform h₁) h₂ hmem
        refine ⟨request :: earlier, answer :: answers₁, m₃,
          List.cons_prefix_cons.mpr ⟨rfl, hprefix⟩, ?_, hfree⟩
        exact Fault.bind_eq_ok.mpr ⟨_, h₁, Fault.bind_eq_ok.mpr ⟨_, hrun, rfl⟩⟩

/-! ## The result -/

/-- What can be seen of the parts of a map of `n` slots: they agree with each other, nothing is set
behind the last slot, and every slot number can be asked for. -/
structure InStep (m : SlotMap) (n : Nat) : Prop where
  capacity : m.capacity = n
  used_iff : ∀ slot, m.used.bit slot = true ↔ ∃ page, m.owner slot = some page
  used_of_busy : ∀ slot, m.busy.bit slot = true → m.used.bit slot = true
  busy_of_orphaned : ∀ slot, m.orphaned.bit slot = true → m.busy.bit slot = true
  past : ∀ slot, n ≤ slot →
    m.used.bit slot = false ∧ m.busy.bit slot = false ∧ m.orphaned.bit slot = false
  count : m.count = (List.range n).countP m.used.bit
  count_le : m.count ≤ n
  isUsed : ∀ slot, m.isUsed slot = .ok (m.used.bit slot)
  isBusy : ∀ slot, m.isBusy slot = .ok (m.busy.bit slot)

theorem Coherent.past (hm : m.Coherent) (h : m.capacity ≤ x) :
    m.used.bit x = false ∧ m.busy.bit x = false ∧ m.orphaned.bit x = false := by
  have hused : m.used.bit x = false := by
    rw [hm.used_eq, Option.isSome_eq_false_iff, Option.isNone_iff_eq_none]
    cases ho : m.owner x with
    | none => rfl
    | some page => exact absurd (lt_capacity_of_owner ho) (Nat.not_lt.mpr h)
  have hbusy : m.busy.bit x = false :=
    Bool.eq_false_iff.mpr fun hset => Bool.eq_false_iff.mp hused (hm.used_of_busy x hset)
  exact ⟨hused, hbusy,
    Bool.eq_false_iff.mpr fun hset => Bool.eq_false_iff.mp hbusy (hm.busy_of_orphaned x hset)⟩

theorem Coherent.inStep (hm : m.Coherent) : m.InStep m.capacity := by
  refine ⟨rfl, fun slot => ?_, hm.used_of_busy, hm.busy_of_orphaned,
    fun slot hslot => hm.past hslot, hm.count_eq, hm.count_le, fun slot => ?_, fun slot => ?_⟩
  · rw [hm.used_eq, Option.isSome_iff_exists]
  · unfold isUsed
    split
    · next hslot => exact Bits.get_eq_ok (Nat.lt_of_lt_of_le hslot hm.usedRoom)
    · next hslot => rw [(hm.past (Nat.le_of_not_lt hslot)).1]
  · unfold isBusy
    split
    · next hslot => exact Bits.get_eq_ok (Nat.lt_of_lt_of_le hslot hm.busyRoom)
    · next hslot => rw [(hm.past (Nat.le_of_not_lt hslot)).2.1]

/-- **A slot map cannot be told from a partial map**, for any number of slots that is a word and
after any list of requests, whatever slots and pages these name.

All of them are answered, and so is the next. The parts of the map are in step, and each request acts
by the rules of the partial map: a reservation takes the lowest slot that is not set, or answers that
the swap area is full and leaves the map as it is, exactly if all are set. So a slot that is set is
not handed out again before it is cleared. -/
theorem slot_map_is_a_partial_map (hn : n < Word.span Word.bits) (past : List Request) :
    ∃ answers m, (empty n).run past = .ok (answers, m) ∧ m.InStep n ∧
      (∀ request, ∃ answer m', m.perform request = .ok (answer, m') ∧
        Acts n m.state? request answer m'.state?) ∧
      (∀ page, m.reserve page = .ok (.error .swapFull, m) ↔
        ∀ slot, slot < n → m.used.bit slot = true) ∧
      ∀ slot later answers' m', m.run later = .ok (answers', m') →
        .reserved (.ok slot) ∈ answers' →
        ∃ earlier answers₁ m₁, earlier <+: later ∧ m.run earlier = .ok (answers₁, m₁) ∧
          m₁.used.bit slot = false := by
  obtain ⟨answers, m, hrun, hm, hshape⟩ := (empty_coherent hn).run_total past
  have hcap : m.capacity = n := hshape.capacity.trans (empty_spec n).2.1
  refine ⟨answers, m, hrun, hcap ▸ hm.inStep, fun request => ?_,
    fun page => ⟨fun h => ?_, fun h => ?_⟩,
    fun slot later answers' m' h hmem => hm.free_before_reserved h hmem⟩
  · obtain ⟨answer, m', h⟩ := hm.perform_total request
    exact ⟨answer, m', h, hcap ▸ hm.acts h⟩
  · rcases hm.reserve_total page with ⟨slot, m', h', -⟩ | ⟨-, hfull⟩
    · exact nomatch h.symm.trans h'
    · exact hcap ▸ hfull
  · rcases hm.reserve_total page with ⟨slot, m', -, hslot, hfree, -⟩ | ⟨h', -⟩
    · exact nomatch (h slot (hcap ▸ hslot)).symm.trans hfree
    · exact h'

/-- Of 65 slots the last is alone in its word. It is handed out like the others, and the rest of the
word is not. -/
theorem slot_map_is_a_partial_map_of_two_words :
    ∃ answers m, (empty 65).run (List.replicate 65 (.reserve ⟨1, 0⟩)) = .ok (answers, m) ∧
      m.InStep 65 ∧ m.count = 65 ∧ m.used.bit 64 = true ∧ m.used.bit 65 = false ∧
      m.reserve ⟨1, 1⟩ = .ok (.error .swapFull, m) := by
  obtain ⟨answers, m, hrun, hstep, -, hfull, -⟩ := slot_map_is_a_partial_map
    (n := 65) (by decide) (List.replicate 65 (.reserve ⟨1, 0⟩))
  have hall : ((empty 65).run (List.replicate 65 (.reserve ⟨1, 0⟩))).toOption.map
      (fun r => (r.2.count, (List.range 65).all r.2.used.bit)) = some (65, true) := by
    decide +kernel
  rw [hrun] at hall
  obtain ⟨hcount, hused⟩ := Prod.mk.inj (Option.some.inj hall)
  have hset : ∀ slot, slot < 65 → m.used.bit slot = true := fun slot hslot =>
    List.all_eq_true.mp hused slot (List.mem_range.mpr hslot)
  exact ⟨answers, m, hrun, hstep, hcount, hset 64 (by decide), (hstep.past 65 (by decide)).1,
    (hfull ⟨1, 1⟩).mpr hset⟩

end PhysMem.SlotMap
