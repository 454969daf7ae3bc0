import Mathlib.Data.List.Nodup
import Mathlib.Data.List.Perm.Subperm
import Mathlib.Tactic.MkIffOfInductiveProp
import PhysMem.Frame.Verify
import PhysMem.Proofs.Chain

/-!
# Verification — what the check of a coremap decides

The check walks a bounded number of links and counts. That it decides more than that, two arguments
show. The forward walk compares every frame with the one before it, so a frame that came twice would
have the frames before it twice as well, and so on back to the first, which has none before it: the
walk repeats nothing, and is shorter than its bound. And as many frames as are resident on a list of
resident frames without repetitions are all of them.

* **`Strung`** says that the links are those of a list, **`WellFormed`** what is checked for, both
  without a walk.
* **`Backed`** is what the forward walk compares; **`Backed.nodup`** is the first argument.
* **`chainFlaw?_eq`** — two of the checks never fail, **`flaw?_eq_none_iff`** — the others decide
  **`WellFormed`**.
* **`verification_decides_wellFormed`** is the result.
-/

namespace PhysMem

/-! ## Descriptors -/

namespace Descriptor

variable {d : Descriptor}

/-- A descriptor that is well formed on its own. -/
@[mk_iff]
structure WellFormed (d : Descriptor) : Prop where
  /-- A kernel frame names no neighbours. -/
  kernel : d.allocated = true → d.isUser = false → d.prev = none ∧ d.next = none
  /-- A user frame names its page. -/
  user : d.allocated = true → d.isUser = true → ∃ page, d.page = some page
  /-- A free frame has no mark and names no page. -/
  free : d.allocated = false → d.isUser = false ∧ d.tail = false ∧ d.evicting = false ∧
    d.orphaned = false ∧ d.pinned = false ∧ d.page = none

theorem isResident_iff : d.isResident = true ↔ d.allocated = true ∧
    d.isUser = true ∧ d.evicting = false ∧ d.pinned = false := by
  rw [isResident, kind?]
  cases d.allocated <;> cases d.isUser <;> simp [and_comm]

theorem flaw?_eq_none_iff : d.flaw? = none ↔ d.WellFormed := by
  rw [wellFormed_iff, flaw?, kind?]
  cases d.allocated <;> cases d.isUser <;> cases d.page <;> cases d.prev <;> simp [and_assoc]

end Descriptor

/-! ## Successors -/

section Successors

variable {step : Nat → Option Nat} {l : List Nat}

/-- At most `limit` numbers from `start` on, each followed by the one `step` names. -/
def successors (step : Nat → Option Nat) : Nat → Option Nat → List Nat
  | 0, _ | _, none => []
  | limit + 1, some i => i :: successors step limit (step i)

theorem length_successors_le (limit : Nat) (start : Option Nat) :
    (successors step limit start).length ≤ limit := by
  induction limit generalizing start with
  | zero => exact Nat.le_refl 0
  | succ limit ih =>
      cases start with
      | none => exact Nat.zero_le _
      | some i => exact Nat.succ_le_succ (ih (step i))

/-- What `step` keeps holds of all that is listed. -/
theorem of_mem_successors {P : Nat → Prop} (hstep : ∀ i j, step i = some j → P j) {limit : Nat}
    {start : Option Nat} (hstart : ∀ i, start = some i → P i) :
    ∀ i ∈ successors step limit start, P i := by
  induction limit generalizing start with
  | zero => exact fun i hi => nomatch hi
  | succ limit ih =>
      cases start with
      | none => exact fun i hi => nomatch hi
      | some first =>
          intro i hi
          rcases List.mem_cons.mp hi with rfl | hi
          · exact hstart i rfl
          · exact ih (hstep first) i hi

/-- A list that `step` goes along is listed, as far as the limit allows. -/
theorem successors_eq_take (h : ∀ before i rest, l = before ++ i :: rest → step i = rest.head?)
    (limit : Nat) : successors step limit l.head? = l.take limit := by
  induction limit generalizing l with
  | zero => rfl
  | succ limit ih =>
      cases l with
      | nil => rfl
      | cons i rest =>
          rw [List.head?_cons, List.take_succ_cons, successors, h [] i rest rfl]
          exact congrArg (i :: ·) (ih fun before j behind hrest => h (i :: before) j behind (by
            rw [hrest]
            rfl))

theorem head?_successors {limit : Nat} (hlimit : 0 < limit) (start : Option Nat) :
    (successors step limit start).head? = start := by
  obtain ⟨limit, rfl⟩ := Nat.exists_eq_succ_of_ne_zero (Nat.ne_of_gt hlimit)
  cases start <;> rfl

/-- A list shorter than its limit follows every number by the one `step` names, up to its end. -/
theorem step_of_successors {limit : Nat} {start : Option Nat}
    (hshort : (successors step limit start).length < limit) {before rest : List Nat} {i : Nat}
    (h : successors step limit start = before ++ i :: rest) : step i = rest.head? := by
  induction limit generalizing start before with
  | zero => exact absurd hshort (Nat.not_lt_zero _)
  | succ limit ih =>
      cases start with
      | none => exact absurd h.symm (List.append_ne_nil_of_right_ne_nil _ (List.cons_ne_nil _ _))
      | some first =>
          have hrest : (successors step limit (step first)).length < limit :=
            Nat.lt_of_succ_lt_succ hshort
          cases before with
          | nil =>
              obtain ⟨rfl, rfl⟩ := List.cons.inj h
              exact (head?_successors (Nat.zero_lt_of_lt hrest) _).symm
          | cons _ before => exact ih hrest (List.cons.inj h).2

end Successors

namespace Coremap

variable {m : Coremap} {l : List Nat} {i : Nat}

theorem walk_eq (limit : Nat) (start : Option Nat) :
    m.walk limit start = successors (fun i => (m.frames[i]?).bind (·.next)) limit start := by
  induction limit generalizing start with
  | zero => cases start <;> rfl
  | succ limit ih =>
      cases start with
      | none => rfl
      | some i => exact congrArg (i :: ·) (ih _)

theorem walkBack_eq (limit : Nat) (start : Option Nat) :
    m.walkBack limit start = successors (fun i => (m.frames[i]?).bind (·.prev)) limit start := by
  induction limit generalizing start with
  | zero => cases start <;> rfl
  | succ limit ih =>
      cases start with
      | none => rfl
      | some i => exact congrArg (i :: ·) (ih _)

/-! ## Frames on a string -/

/-- The frames of `l` are strung by their links, from the oldest to the newest. Frames off the list
may name anything. -/
structure Strung (m : Coremap) (l : List Nat) : Prop where
  nodup : l.Nodup
  oldest : m.oldest = l.head?
  newest : m.newest = l.getLast?
  link : ∀ older i newer, l = older ++ i :: newer →
    ∃ d, m.frames[i]? = some d ∧ d.prev = older.getLast? ∧ d.next = newer.head?

theorem Linked.strung (hl : m.Linked l) : m.Strung l := by
  refine ⟨hl.nodup, hl.oldest, hl.newest, fun older i newer h => ?_⟩
  obtain ⟨d, hd, hlink⟩ := Option.map_eq_some_iff.mp (hl.link older i newer h)
  obtain ⟨hprev, hnext⟩ := Prod.mk.inj hlink
  exact ⟨d, hd, hprev, hnext⟩

/-- A walk from the oldest frame lists the string. -/
theorem Strung.walk (hl : m.Strung l) (limit : Nat) : m.walk limit m.oldest = l.take limit := by
  rw [walk_eq, hl.oldest]
  refine successors_eq_take (fun older i newer h => ?_) limit
  obtain ⟨d, hd, -, hnext⟩ := hl.link older i newer h
  rw [hd, Option.bind_some, hnext]

/-- A walk from the newest frame lists the string in reverse. -/
theorem Strung.walkBack (hl : m.Strung l) (limit : Nat) :
    m.walkBack limit m.newest = l.reverse.take limit := by
  rw [walkBack_eq, hl.newest, ← List.head?_reverse]
  refine successors_eq_take (fun newer i older h => ?_) limit
  obtain ⟨d, hd, hprev, -⟩ := hl.link older.reverse i newer.reverse (by
    rw [← List.reverse_reverse l, h]
    simp)
  rw [hd, Option.bind_some, hprev, List.getLast?_reverse]

theorem Strung.lt_size (hl : m.Strung l) (hi : i ∈ l) : i < m.size := by
  obtain ⟨older, newer, h⟩ := List.append_of_mem hi
  obtain ⟨d, hd, -, -⟩ := hl.link older i newer h
  exact (Array.getElem?_eq_some_iff.mp hd).1

/-- Frames of the table without repetitions are no more than it has. -/
theorem length_le_of_nodup (hnodup : l.Nodup) (hlt : ∀ i ∈ l, i < m.size) : l.length ≤ m.size := by
  have hsub : l ⊆ List.range m.size := fun i hi => List.mem_range.mpr (hlt i hi)
  have hle := (hnodup.subperm hsub).length_le
  rwa [List.length_range] at hle

theorem Strung.length_le (hl : m.Strung l) : l.length ≤ m.size :=
  length_le_of_nodup hl.nodup fun _ hi => hl.lt_size hi

/-- **The string is listed** by the walk from the oldest frame. -/
theorem Strung.chain (hl : m.Strung l) : m.chain = l := by
  rw [Coremap.chain, hl.walk, List.take_of_length_le]
  exact Nat.le_succ_of_le hl.length_le

/-- **The string is listed backwards** by the walk from the newest frame. -/
theorem Strung.chainBack (hl : m.Strung l) : m.chainBack = l.reverse := by
  rw [Coremap.chainBack, hl.walkBack, List.take_of_length_le]
  rw [List.length_reverse]
  exact Nat.le_succ_of_le hl.length_le

/-! ## What is checked for -/

/-- A resident frame: a user frame that is neither evicting nor pinned. -/
def IsResident (m : Coremap) (i : Nat) : Prop :=
  ∃ d, m.frames[i]? = some d ∧ d.allocated = true ∧ d.isUser = true ∧ d.evicting = false ∧
    d.pinned = false

/-- What the check is for. -/
structure WellFormed (m : Coremap) : Prop where
  /-- The resident frames are strung from the oldest to the newest. -/
  chain : ∃ l, m.Strung l ∧ ∀ i, i ∈ l ↔ m.IsResident i
  descriptors : ∀ d ∈ m.frames, d.WellFormed
  kernels : m.kernelCount = m.frames.countP fun d => d.allocated && !d.isUser
  users : m.userCount = m.frames.countP fun d => d.allocated && d.isUser
  evictings : m.evictingCount =
    m.frames.countP fun d => d.allocated && d.isUser && d.evicting

/-! ## The forward walk -/

/-- Each frame of `l` is resident and names the one before it. -/
def Backed (m : Coremap) (l : List Nat) : Prop :=
  ∀ older i newer, l = older ++ i :: newer →
    ∃ d, m.frames[i]? = some d ∧ d.isResident = true ∧ d.prev = older.getLast?

/-- What the forward walk compares. -/
theorem walkFlaw?_eq_none_iff {before : Option Nat} : m.walkFlaw? before l = none ↔
    ∀ older i newer, l = older ++ i :: newer →
      ∃ d, m.frames[i]? = some d ∧ d.isResident = true ∧ d.prev = older.getLast?.or before := by
  induction l generalizing before with
  | nil => simp [walkFlaw?]
  | cons first rest ih =>
      have hfirst : m.walkFlaw? before (first :: rest) = none ↔
          (∃ d, m.frames[first]? = some d ∧ d.isResident = true ∧ d.prev = before) ∧
            m.walkFlaw? (some first) rest = none := by
        rw [walkFlaw?]
        cases hd : m.frames[first]? with
        | none => simp [Descriptor.isResident, Descriptor.kind?, Descriptor.free]
        | some d => cases hresident : d.isResident <;> by_cases hprev : d.prev = before <;>
            simp [hresident, hprev]
      rw [hfirst, ih]
      constructor
      · rintro ⟨⟨d, hd, hresident, hprev⟩, hrest⟩ older i newer h
        cases older with
        | nil =>
            obtain ⟨rfl, rfl⟩ := List.cons.inj h
            exact ⟨d, hd, hresident, hprev⟩
        | cons x older =>
            obtain ⟨rfl, rfl⟩ := List.cons.inj h
            obtain ⟨e, he, hr, hp⟩ := hrest older i newer rfl
            refine ⟨e, he, hr, ?_⟩
            rw [hp, List.getLast?_cons]
            cases older.getLast? <;> rfl
      · intro h
        refine ⟨h [] first rest rfl, fun older i newer hsplit => ?_⟩
        obtain ⟨e, he, hr, hp⟩ := h (first :: older) i newer (by
          rw [hsplit]
          rfl)
        refine ⟨e, he, hr, ?_⟩
        rw [hp, List.getLast?_cons]
        cases older.getLast? <;> rfl

theorem walkFlaw?_none_iff : m.walkFlaw? none l = none ↔ m.Backed l := by
  rw [walkFlaw?_eq_none_iff]
  simp only [Option.or_none]
  exact Iff.rfl

theorem Backed.lt_size (h : m.Backed l) (hi : i ∈ l) : i < m.size := by
  obtain ⟨older, newer, hsplit⟩ := List.append_of_mem hi
  obtain ⟨d, hd, -, -⟩ := h older i newer hsplit
  exact (Array.getElem?_eq_some_iff.mp hd).1

/-- What the frame at one place of the list names. -/
theorem Backed.prev (h : m.Backed l) {k : Nat} (hk : l[k]? = some i) :
    ∃ d, m.frames[i]? = some d ∧ d.prev = if k = 0 then none else l[k - 1]? := by
  obtain ⟨hlt, hget⟩ := List.getElem?_eq_some_iff.mp hk
  have hsplit : l = l.take k ++ i :: l.drop (k + 1) := by
    rw [← hget, ← List.drop_eq_getElem_cons hlt, List.take_append_drop]
  obtain ⟨d, hd, -, hprev⟩ := h _ i _ hsplit
  refine ⟨d, hd, ?_⟩
  rw [hprev, List.getLast?_take]
  split
  · rfl
  · next hpos => rw [List.getElem?_eq_getElem (by omega), Option.some_or]

/-- **A list whose frames name the ones before them repeats nothing.** -/
theorem Backed.nodup (h : m.Backed l) : l.Nodup := by
  refine List.nodup_iff_getElem?_ne_getElem?.mpr fun j => ?_
  -- two equal frames have equal frames before them, and so on back to the first, which has none
  induction j with
  | zero =>
      intro k hpos hk heq
      obtain ⟨d, hd, hprev⟩ := h.prev (List.getElem?_eq_getElem hk)
      obtain ⟨d', hd', hnone⟩ := h.prev (heq.trans (List.getElem?_eq_getElem hk))
      obtain rfl : d = d' := Option.some.inj (hd.symm.trans hd')
      rw [hprev, if_neg (Nat.ne_of_gt hpos), if_pos rfl,
        List.getElem?_eq_getElem (Nat.lt_of_le_of_lt (Nat.sub_le k 1) hk)] at hnone
      exact nomatch hnone
  | succ j ih =>
      intro k hpos hk heq
      obtain ⟨d, hd, hprev⟩ := h.prev (List.getElem?_eq_getElem hk)
      obtain ⟨d', hd', hprev'⟩ := h.prev (heq.trans (List.getElem?_eq_getElem hk))
      obtain rfl : d = d' := Option.some.inj (hd.symm.trans hd')
      rw [hprev, if_neg (by omega), if_neg (Nat.succ_ne_zero j)] at hprev'
      exact ih (k - 1) (by omega) (by omega) hprev'.symm

theorem Backed.length_le (h : m.Backed l) : l.length ≤ m.size :=
  length_le_of_nodup h.nodup fun _ hi => h.lt_size hi

/-- Where the forward walk is told back and ends at the newest frame, it lists a string. -/
theorem Backed.strung (h : m.Backed m.chain) (hnewest : m.chain.getLast? = m.newest) :
    m.Strung m.chain := by
  refine ⟨h.nodup, ?_, hnewest.symm, fun older i newer hsplit => ?_⟩
  · rw [Coremap.chain, walk_eq]
    exact (head?_successors (Nat.succ_pos m.size) _).symm
  · obtain ⟨d, hd, -, hprev⟩ := h older i newer hsplit
    have hshort : m.chain.length < m.walkLimit := Nat.lt_succ_of_le h.length_le
    rw [Coremap.chain, walk_eq] at hsplit hshort
    have hnext := step_of_successors hshort hsplit
    rw [hd, Option.bind_some] at hnext
    exact ⟨d, hd, hprev, hnext⟩

/-! ## The parts of the check -/

/-- **Two checks of the chain never fail**: a walk that is told back is shorter than its limit, and
where it ends at the newest frame the walk from there is as long. -/
theorem chainFlaw?_eq : m.chainFlaw? =
    match m.walkFlaw? none m.chain with
    | some flaw => some flaw
    | none => if m.chain.getLast? ≠ m.newest then some .endMismatch else none := by
  rw [chainFlaw?]
  cases hwalk : m.walkFlaw? none m.chain with
  | some flaw => rfl
  | none =>
      have hbacked := walkFlaw?_none_iff.mp hwalk
      have hshort : m.chain.length ≠ m.walkLimit :=
        Nat.ne_of_lt (Nat.lt_succ_of_le hbacked.length_le)
      show (if m.chain.length = m.walkLimit then _ else _) = ite _ _ _
      rw [if_neg hshort]
      by_cases hnewest : m.chain.getLast? = m.newest
      · rw [if_neg (not_not_intro hnewest), if_neg (not_not_intro hnewest),
          (hbacked.strung hnewest).chainBack, List.length_reverse]
        exact if_neg (not_not_intro rfl)
      · rw [if_pos hnewest, if_pos hnewest]

theorem chainFlaw?_eq_none_iff :
    m.chainFlaw? = none ↔ m.Strung m.chain ∧ ∀ i ∈ m.chain, m.IsResident i := by
  have hparts : m.chainFlaw? = none ↔ m.Backed m.chain ∧ m.chain.getLast? = m.newest := by
    rw [chainFlaw?_eq, ← walkFlaw?_none_iff]
    cases m.walkFlaw? none m.chain <;> simp
  rw [hparts]
  constructor
  · rintro ⟨hbacked, hnewest⟩
    refine ⟨hbacked.strung hnewest, fun i hi => ?_⟩
    obtain ⟨older, newer, hsplit⟩ := List.append_of_mem hi
    obtain ⟨d, hd, hresident, -⟩ := hbacked older i newer hsplit
    exact ⟨d, hd, Descriptor.isResident_iff.mp hresident⟩
  · rintro ⟨hstrung, hresident⟩
    refine ⟨fun older i newer hsplit => ?_, hstrung.newest.symm⟩
    obtain ⟨d, hd, hprev, -⟩ := hstrung.link older i newer hsplit
    obtain ⟨d', hd', hflags⟩ := hresident i (by rw [hsplit]; simp)
    obtain rfl : d = d' := Option.some.inj (hd.symm.trans hd')
    exact ⟨d, hd, Descriptor.isResident_iff.mpr hflags, hprev⟩

/-- A count of descriptors counts frames. -/
theorem countFrames_eq_length (p : Descriptor → Bool) : m.countFrames p =
    ((List.range m.size).filter fun i => p ((m.frames[i]?).getD .free)).length := by
  have hlist : m.frames.toList =
      (List.range m.size).map fun i => (m.frames[i]?).getD .free := by
    refine List.ext_getElem? fun i => ?_
    rw [List.getElem?_map, Array.getElem?_toList]
    by_cases hi : i < m.size
    · rw [List.getElem?_range hi, Option.map_some, Array.getElem?_eq_getElem hi]
      rfl
    · rw [List.getElem?_eq_none (by rw [List.length_range]; exact Nat.le_of_not_lt hi),
        Array.getElem?_eq_none (Nat.le_of_not_lt hi)]
      rfl
  rw [countFrames, ← Array.countP_toList, hlist, List.countP_map, List.countP_eq_length_filter]
  rfl

/-- **Resident frames without repetitions are all of them** exactly when they are as many. -/
theorem countFrames_isResident_iff (hnodup : l.Nodup) (hresident : ∀ i ∈ l, m.IsResident i) :
    m.countFrames (·.isResident) = l.length ↔ ∀ i, m.IsResident i → i ∈ l := by
  rw [countFrames_eq_length]
  have hmem : ∀ i, i ∈ ((List.range m.size).filter fun i =>
      ((m.frames[i]?).getD .free).isResident) ↔ m.IsResident i := by
    intro i
    rw [List.mem_filter, List.mem_range, Descriptor.isResident_iff]
    constructor
    · rintro ⟨hi, hflags⟩
      rw [Array.getElem?_eq_getElem hi] at hflags
      exact ⟨_, Array.getElem?_eq_getElem hi, hflags⟩
    · rintro ⟨d, hd, hflags⟩
      rw [hd]
      exact ⟨(Array.getElem?_eq_some_iff.mp hd).1, hflags⟩
  have hsub := hnodup.subperm fun i hi => (hmem i).mpr (hresident i hi)
  constructor
  · intro hlength i hi
    exact (hsub.perm_of_length_le (Nat.le_of_eq hlength)).mem_iff.mpr ((hmem i).mpr hi)
  · intro hall
    refine List.Perm.length_eq ((List.perm_ext_iff_of_nodup (List.nodup_range.filter _) hnodup).mpr
      fun i => ?_)
    exact (hmem i).trans ⟨hall i, hresident i⟩

/-- What the recount of the three counters compares. -/
theorem counters_iff : (m.countFrames (·.kind? == some .kernel) = m.kernelCount ∧
      m.countFrames (·.kind? == some .user) = m.userCount ∧
      m.countFrames (fun d => d.kind? == some .user && d.evicting) = m.evictingCount) ↔
    m.kernelCount = (m.frames.countP fun d => d.allocated && !d.isUser) ∧
      m.userCount = (m.frames.countP fun d => d.allocated && d.isUser) ∧
      m.evictingCount = m.frames.countP fun d => d.allocated && d.isUser && d.evicting := by
  have hkernel : (fun d : Descriptor => d.kind? == some .kernel) =
      fun d => d.allocated && !d.isUser := by
    funext d
    rw [Descriptor.kind?]
    cases d.allocated <;> cases d.isUser <;> rfl
  have huser : (fun d : Descriptor => d.kind? == some .user) =
      fun d => d.allocated && d.isUser := by
    funext d
    rw [Descriptor.kind?]
    cases d.allocated <;> cases d.isUser <;> rfl
  have hevicting : (fun d : Descriptor => d.kind? == some .user && d.evicting) =
      fun d => d.allocated && d.isUser && d.evicting := by
    funext d
    exact congrArg (· && d.evicting) (congrFun huser d)
  rw [countFrames, countFrames, countFrames, hkernel, huser, hevicting, eq_comm (a := m.kernelCount),
    eq_comm (a := m.userCount), eq_comm (a := m.evictingCount)]

theorem countFlaw?_eq_none_iff : m.countFlaw? = none ↔
    m.countFrames (·.isResident) = m.chain.length ∧
      m.countFrames (·.kind? == some .kernel) = m.kernelCount ∧
      m.countFrames (·.kind? == some .user) = m.userCount ∧
      m.countFrames (fun d => d.kind? == some .user && d.evicting) = m.evictingCount := by
  rw [countFlaw?]
  split
  · next h => exact ⟨nofun, fun hall => absurd hall.1 h⟩
  · next h =>
      split
      · next hcount => exact ⟨nofun, fun hall => by simp [hall] at hcount⟩
      · next hcount =>
          simp only [not_or, not_not] at h hcount
          exact ⟨fun _ => ⟨h, hcount⟩, fun _ => rfl⟩

/-- **Verification decides whether the coremap is well formed.** -/
theorem flaw?_eq_none_iff : m.flaw? = none ↔ m.WellFormed := by
  have hparts : m.flaw? = none ↔ m.chainFlaw? = none ∧
      m.frames.toList.findSome? Descriptor.flaw? = none ∧ m.countFlaw? = none := by
    rw [flaw?]
    cases m.chainFlaw? <;> cases m.frames.toList.findSome? Descriptor.flaw? <;> simp
  have hdescriptors : m.frames.toList.findSome? Descriptor.flaw? = none ↔
      ∀ d ∈ m.frames, d.WellFormed := by
    simp only [List.findSome?_eq_none_iff, Array.mem_toList_iff, Descriptor.flaw?_eq_none_iff]
  rw [hparts, hdescriptors, chainFlaw?_eq_none_iff, countFlaw?_eq_none_iff, counters_iff]
  constructor
  · rintro ⟨⟨hstrung, hresident⟩, hwell, hcovers, hkernels, husers, hevictings⟩
    have hall := (countFrames_isResident_iff hstrung.nodup hresident).mp hcovers
    exact ⟨⟨_, hstrung, fun i => ⟨hresident i, hall i⟩⟩, hwell, hkernels, husers, hevictings⟩
  · rintro ⟨⟨l, hstrung, hmem⟩, hwell, hkernels, husers, hevictings⟩
    have hcovers := (countFrames_isResident_iff hstrung.nodup fun i => (hmem i).mp).mpr
      fun i => (hmem i).mpr
    rw [hstrung.chain]
    exact ⟨⟨hstrung, fun i => (hmem i).mp⟩, hwell, hcovers, hkernels, husers, hevictings⟩

/-! ## What can be found -/

/-- The flaws that are found. -/
def Flaw.IsFound (flaw : Flaw) : Prop := flaw ≠ .cycle ∧ flaw ≠ .lengthMismatch

theorem walkFlaw?_isFound {before : Option Nat} {flaw : Flaw}
    (h : m.walkFlaw? before l = some flaw) : flaw.IsFound := by
  induction l generalizing before with
  | nil => exact nomatch h
  | cons first rest ih =>
      rw [walkFlaw?] at h
      split at h
      · cases h
        exact ⟨nofun, nofun⟩
      · split at h
        · cases h
          exact ⟨nofun, nofun⟩
        · exact ih h

theorem chainFlaw?_isFound {flaw : Flaw} (h : m.chainFlaw? = some flaw) : flaw.IsFound := by
  rw [chainFlaw?_eq] at h
  split at h
  · next hwalk =>
      cases h
      exact walkFlaw?_isFound hwalk
  · split at h
    · cases h
      exact ⟨nofun, nofun⟩
    · exact nomatch h

theorem descriptorFlaw?_isFound {d : Descriptor} {flaw : Flaw} (h : d.flaw? = some flaw) :
    flaw.IsFound := by
  rw [Descriptor.flaw?] at h
  constructor <;> rintro rfl <;> split at h <;> split at h <;> exact nomatch h

theorem countFlaw?_isFound {flaw : Flaw} (h : m.countFlaw? = some flaw) : flaw.IsFound := by
  rw [countFlaw?] at h
  constructor <;> rintro rfl <;> split at h
  · exact nomatch h
  · split at h <;> exact nomatch h
  · exact nomatch h
  · split at h <;> exact nomatch h

theorem flaw?_isFound {flaw : Flaw} (h : m.flaw? = some flaw) : flaw.IsFound := by
  rw [flaw?] at h
  split at h
  · next hchain =>
      cases h
      exact chainFlaw?_isFound hchain
  · split at h
    · next hdescriptor =>
        cases h
        obtain ⟨d, -, hd⟩ := List.exists_of_findSome?_eq_some hdescriptor
        exact descriptorFlaw?_isFound hd
    · exact countFlaw?_isFound h

/-! ## The result -/

/-- The chain names frames of the table only, wherever an end or a link leads. -/
structure InRange (m : Coremap) : Prop where
  oldest : ∀ i, m.oldest = some i → i < m.size
  newest : ∀ i, m.newest = some i → i < m.size
  next : ∀ d ∈ m.frames, ∀ i, d.next = some i → i < m.size
  prev : ∀ d ∈ m.frames, ∀ i, d.prev = some i → i < m.size

/-- **Verification decides whether a coremap is well formed**, whatever has become of it, so long as
its links stay in the table. Both walks end, on a cycle too, and look at frames of the table only.
That the chain has a cycle and that the walks differ in length is never the answer, since an earlier
check has failed by then. -/
theorem verification_decides_wellFormed (hm : m.InRange) :
    (m.flaw? = none ↔ m.WellFormed) ∧ m.flaw? ≠ some .cycle ∧ m.flaw? ≠ some .lengthMismatch ∧
      (m.chain.length ≤ m.walkLimit ∧ m.chainBack.length ≤ m.walkLimit) ∧
      (∀ i ∈ m.chain, i < m.size) ∧ ∀ i ∈ m.chainBack, i < m.size := by
  have hnext : ∀ i j : Nat, (m.frames[i]?).bind Descriptor.next = some j → j < m.size := by
    intro i j h
    obtain ⟨d, hd, hj⟩ := Option.bind_eq_some_iff.mp h
    exact hm.next d (Array.mem_of_getElem? hd) j hj
  have hprev : ∀ i j : Nat, (m.frames[i]?).bind Descriptor.prev = some j → j < m.size := by
    intro i j h
    obtain ⟨d, hd, hj⟩ := Option.bind_eq_some_iff.mp h
    exact hm.prev d (Array.mem_of_getElem? hd) j hj
  rw [chain, chainBack, walk_eq, walkBack_eq]
  exact ⟨flaw?_eq_none_iff, fun h => (flaw?_isFound h).1 rfl, fun h => (flaw?_isFound h).2 rfl,
    ⟨length_successors_le _ _, length_successors_le _ _⟩,
    of_mem_successors hnext hm.oldest, of_mem_successors hprev hm.newest⟩

/-- Two resident frames that follow each other in a circle. -/
def circle : Coremap where
  frames := #[
    { allocated := true, isUser := true, page := some ⟨0, 0⟩, next := some 1 },
    { allocated := true, isUser := true, page := some ⟨0, 1⟩, prev := some 0, next := some 0 }]
  base := 0
  oldest := some 0
  newest := some 1
  placement := .firstFit
  userCount := 2

theorem circle_inRange : circle.InRange := by
  refine ⟨?_, ?_, ?_, ?_⟩
  · rintro i ⟨⟩
    decide
  · rintro i ⟨⟩
    decide
  · decide
  · decide

/-- The walk around the circle ends, and the answer is another than that it has a cycle. -/
theorem circle_is_not_wellFormed :
    circle.InRange ∧ circle.flaw? = some .backLinkMismatch ∧ ¬ circle.WellFormed := by
  have hflaw : circle.flaw? = some .backLinkMismatch := by decide
  have hdecides := (verification_decides_wellFormed circle_inRange).1
  exact ⟨circle_inRange, hflaw, fun h => nomatch hflaw.symm.trans (hdecides.mpr h)⟩

end Coremap

end PhysMem
