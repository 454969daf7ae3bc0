import Mathlib.Order.Bounds.Basic
import PhysMem.Proofs.NextFit

/-!
# First fit — the lowest free run there is

First fit tries starts in order. Like next fit it does not try them all: behind a run that is too
short it goes on past the frame in use that ended the run. So the whole argument is the invariant of
its loop, **`Seeking`**: no free run begins before the start that is tried next. The invariant also
keeps the sums in their word, whatever is asked for. A request longer than the table ends the loop
at frame 0, where its bound is the request itself, and behind any other start and count are both at
most the length of the table.

* **`seekAt`** is one turn of the loop, every sum and every look at the table checked, and
  **`seek`** runs it.
* **`Seeking.turn`** is the step, **`Seeking.finds`** the run. Both follow the search that the
  placement makes, so loop and placement find the same.
* **`first_fit_is_exact`** is the result.
-/

namespace PhysMem

namespace Placement

variable {frames : Array Descriptor} {count start next : Nat}

/-! ## The search as a loop -/

/-- One turn of the loop: it goes on with another start, or it ends. -/
def seekAt (frames : Array Descriptor) (count start : Nat) :
    Except Fault (Nat ⊕ Option (Nat × Nat)) := do
  let bound ← Word.add Word.bits start count
  if frames.size < bound then return .inr none
  let run ← countRun frames start count
  if run = count then
    let stop ← Word.add Word.bits start run
    return .inr (some (start, stop))
  let past ← Word.add Word.bits run 1
  let next ← Word.add Word.bits start past
  return .inl next

/-- **The loop goes on from inside the table, and upwards.** -/
theorem seekAt_lt (h : seekAt frames count start = .ok (.inl next)) :
    start ≤ frames.size ∧ start < next := by
  obtain ⟨bound, hbound, h⟩ := Fault.bind_eq_ok.mp h
  cases Word.eq_of_add hbound
  split at h
  · exact nomatch h
  · next hroom =>
      obtain ⟨run, -, h⟩ := Fault.bind_eq_ok.mp h
      split at h
      · obtain ⟨stop, -, h⟩ := Fault.bind_eq_ok.mp h
        exact nomatch h
      · obtain ⟨past, hpast, h⟩ := Fault.bind_eq_ok.mp h
        obtain ⟨next, hnext, h⟩ := Fault.bind_eq_ok.mp h
        cases Word.eq_of_add hpast
        cases Word.eq_of_add hnext
        cases h
        constructor <;> omega

/-- Turns the loop until it ends. -/
def seek (frames : Array Descriptor) (count start : Nat) : Except Fault (Option (Nat × Nat)) :=
  match _ : seekAt frames count start with
  | .error fault => .error fault
  | .ok (.inr found) => .ok found
  | .ok (.inl next) => seek frames count next
termination_by frames.size + 1 - start
decreasing_by
  have hturn := seekAt_lt ‹_›
  omega

/-! ## What it finds -/

/-- What first fit is to find: the lowest start where `count` free frames lie in the table, with the
bound behind them, and nothing if there is no such start. -/
def IsFirst (frames : Array Descriptor) (count : Nat) : Option (Nat × Nat) → Prop
  | some (start, stop) => stop = start + count ∧ IsLeast {s | IsFreeRun frames s count} start
  | none => ∀ s, ¬ IsFreeRun frames s count

/-- The invariant of the loop: the start lies in the table or at its end, the bound that is looked
at there is a word, and no free run begins before. -/
structure Seeking (frames : Array Descriptor) (count start : Nat) : Prop where
  inTable : start ≤ frames.size
  bound : start + count < Word.span Word.bits
  before : ∀ s, s < start → ¬ IsFreeRun frames s count

namespace Seeking

/-- The loop begins with nothing passed over. -/
theorem zero (hcount : count < Word.span Word.bits) : Seeking frames count 0 where
  inTable := Nat.zero_le _
  bound := (Nat.zero_add count).symm ▸ hcount
  before := fun s hs => absurd hs (Nat.not_lt_zero s)

/-- Where the table ends too early there is no free run at all. -/
theorem none_of_size_lt (h : Seeking frames count start) (hroom : frames.size < start + count) :
    IsFirst frames count none := by
  intro s
  rcases Nat.lt_or_ge s start with hlt | hle
  · exact h.before s hlt
  · exact not_isFreeRun_of_size_lt hroom hle

/-- A free run where the loop stands is the first. -/
theorem first (h : Seeking frames count start) (hfree : IsFreeRun frames start count) :
    IsFirst frames count (some (start, start + count)) := by
  refine ⟨rfl, hfree, fun s hs => ?_⟩
  by_contra hlt
  exact h.before s (Nat.lt_of_not_le hlt) hs

/-- Behind a run that is too short nothing has been passed over. -/
theorem behind (h : Seeking frames count start) (hroom : start + count ≤ frames.size)
    (hword : 2 * frames.size < Word.span Word.bits)
    (hshort : freeRun frames start count ≠ count) :
    Seeking frames count (start + (freeRun frames start count + 1)) := by
  have hle : freeRun frames start count ≤ count := freeRun_le start count
  refine ⟨by omega, by omega, fun s hs => ?_⟩
  rcases Nat.lt_or_ge s start with hlt | hge
  · exact h.before s hlt
  · exact not_isFreeRun_of_short hshort hge (by omega)

/-- **One turn keeps the invariant or finds the first free run.** No check fails, and the search of
the placement goes the same way. -/
theorem turn (h : Seeking frames count start) (hword : 2 * frames.size < Word.span Word.bits) :
    (∃ next, seekAt frames count start = .ok (.inl next) ∧ Seeking frames count next ∧
        scan frames count start (frames.size + 1) = scan frames count next (frames.size + 1)) ∨
      ∃ found, seekAt frames count start = .ok (.inr found) ∧ IsFirst frames count found ∧
        scan frames count start (frames.size + 1) = .ok (found.map Prod.fst) := by
  have hbound : Word.add Word.bits start count = .ok (start + count) := Word.add_eq_ok h.bound
  have hscan : scan frames count start (frames.size + 1) =
      if frames.size < start + count then .ok none
      else if freeRun frames start count = count then .ok (some start)
      else scan frames count (start + freeRun frames start count + 1) (frames.size + 1) := by
    rw [scan, if_pos (Nat.lt_succ_of_le h.inTable), hbound]
    rfl
  rw [hscan]
  by_cases hroom : frames.size < start + count
  · refine Or.inr ⟨none, ?_, h.none_of_size_lt hroom, if_pos hroom⟩
    rw [seekAt, hbound]
    exact if_pos hroom
  have hinside : start + count ≤ frames.size := Nat.le_of_not_lt hroom
  have hle : freeRun frames start count ≤ count := freeRun_le start count
  have hturn : seekAt frames count start =
      if freeRun frames start count = count then
        .ok (.inr (some (start, start + freeRun frames start count)))
      else .ok (.inl (start + (freeRun frames start count + 1))) := by
    rw [seekAt, hbound]
    show (if frames.size < start + count then _ else _) = _
    rw [if_neg hroom, countRun_eq hinside (by omega)]
    show (if freeRun frames start count = count then _ else _) = _
    by_cases hrun : freeRun frames start count = count
    · rw [if_pos hrun, if_pos hrun, Word.add_eq_ok (by omega)]
      rfl
    · rw [if_neg hrun, if_neg hrun, Word.add_eq_ok (by omega)]
      show (Word.add Word.bits start (freeRun frames start count + 1) >>= _) = _
      rw [Word.add_eq_ok (by omega)]
      rfl
  rw [hturn, if_neg hroom]
  by_cases hrun : freeRun frames start count = count
  · refine Or.inr ⟨some (start, start + count), ?_, h.first (isFreeRun_of_freeRun hinside hrun),
      if_pos hrun⟩
    rw [if_pos hrun, hrun]
  · exact Or.inl ⟨_, if_neg hrun, h.behind hinside hword hrun, if_neg hrun⟩

/-- **The loop ends, and with the first free run.** So does the search of the placement. -/
theorem finds (h : Seeking frames count start) (hword : 2 * frames.size < Word.span Word.bits) :
    ∃ found, seek frames count start = .ok found ∧ IsFirst frames count found ∧
      scan frames count start (frames.size + 1) = .ok (found.map Prod.fst) := by
  -- the starts left to try become fewer
  induction hleft : frames.size + 1 - start using Nat.strongRecOn generalizing start with
  | ind left ih =>
      rcases h.turn hword with ⟨next, hturn, hnext, hscan⟩ | ⟨found, hturn, hfirst, hscan⟩
      · have hless := seekAt_lt hturn
        obtain ⟨found, hseek, hfirst, hfound⟩ := ih _ (by omega) hnext rfl
        refine ⟨found, ?_, hfirst, hscan.trans hfound⟩
        rw [seek]
        split <;> simp_all
      · refine ⟨found, ?_, hfirst, hscan⟩
        rw [seek]
        split <;> simp_all

end Seeking

/-- What is to be found is found exactly when it is there. -/
theorem IsFirst.eq_some_iff {found : Option (Nat × Nat)} (h : IsFirst frames count found)
    (start stop : Nat) : found = some (start, stop) ↔
      stop = start + count ∧ IsLeast {s | IsFreeRun frames s count} start := by
  constructor
  · rintro rfl
    exact h
  · rintro ⟨rfl, hleast⟩
    cases found with
    | none => exact absurd hleast.1 (h start)
    | some range =>
        obtain ⟨first, last⟩ := range
        obtain ⟨rfl, hfirst⟩ := h
        rw [hfirst.unique hleast]

/-- Nothing is found exactly when there is nothing. -/
theorem IsFirst.eq_none_iff {found : Option (Nat × Nat)} (h : IsFirst frames count found) :
    found = none ↔ ∀ s, ¬ IsFreeRun frames s count := by
  constructor
  · rintro rfl
    exact h
  · intro hnone
    cases found with
    | none => rfl
    | some range => exact absurd h.2.1 (hnone range.1)

/-- The placement wraps up what its search finds. -/
theorem IsFirst.place_eq {found : Option (Nat × Nat)} (h : IsFirst frames count found)
    (hscan : scan frames count 0 (frames.size + 1) = .ok (found.map Prod.fst)) :
    place frames count .firstFit = .ok (found, .firstFit) := by
  rw [place, hscan]
  cases found with
  | none => rfl
  | some range =>
      obtain ⟨start, stop⟩ := range
      obtain ⟨rfl, -⟩ := h
      rfl

/-- **First fit is exact.** Whatever the frames of a table that lies in memory are in use for, and
whatever number that a word holds is asked for: the loop ends with no fault, so no sum leaves its
word and no frame outside the table is looked at. It and the placement find the range that begins
with the least start where so many free frames lie in the table, and they find none exactly where
there is no such start. -/
theorem first_fit_is_exact (frames : Array Descriptor) (count : Nat)
    (hmemory : frames.size * Coremap.descriptorSize ≤ Word.span Word.bits)
    (hcount : count < Word.span Word.bits) :
    ∃ found, seek frames count 0 = .ok found ∧
      place frames count .firstFit = .ok (found, .firstFit) ∧
      (∀ start stop, found = some (start, stop) ↔
        stop = start + count ∧ IsLeast {s | IsFreeRun frames s count} start) ∧
      (found = none ↔ ∀ s, ¬ IsFreeRun frames s count) := by
  have hword : 2 * frames.size < Word.span Word.bits := by
    have hlies : frames.size * 64 ≤ Word.span Word.bits := hmemory
    have hspan : 0 < Word.span Word.bits := by decide
    omega
  obtain ⟨found, hseek, hfirst, hscan⟩ := (Seeking.zero hcount).finds hword
  exact ⟨found, hseek, hfirst.place_eq hscan, hfirst.eq_some_iff, hfirst.eq_none_iff⟩

/-- Of five frames the first and the third are in use: two are found behind the third, and as many
as a word can ask for are found nowhere. -/
theorem first_fit_is_exact_up_to_the_last_word :
    let frames : Array Descriptor :=
      #[{ allocated := true }, .free, { allocated := true }, .free, .free]
    (frames.size * Coremap.descriptorSize ≤ Word.span Word.bits ∧ 2 < Word.span Word.bits ∧
        Word.last < Word.span Word.bits) ∧
      place frames 2 .firstFit = .ok (some (3, 5), .firstFit) ∧
      place frames Word.last .firstFit = .ok (none, .firstFit) := by
  intro frames
  refine ⟨by decide, ?_, ?_⟩
  · obtain ⟨found, -, hplace, hsome, -⟩ := first_fit_is_exact frames 2 (by decide) (by decide)
    have hleast : IsLeast {s | IsFreeRun frames s 2} 3 := by
      refine ⟨(by decide : IsFreeRun frames 3 2), fun s hs => ?_⟩
      have hnone : ∀ s, s < 3 → ¬ IsFreeRun frames s 2 := by decide
      by_contra hlt
      exact hnone s (Nat.lt_of_not_le hlt) hs
    rw [hplace, (hsome 3 5).mpr ⟨rfl, hleast⟩]
  · obtain ⟨found, -, hplace, -, hnone⟩ :=
      first_fit_is_exact frames Word.last (by decide) (by decide)
    have hempty : ∀ s, ¬ IsFreeRun frames s Word.last := by
      intro s hs
      have hroom : s + Word.last ≤ 5 := hs.1
      have hlast : 5 < Word.last := by decide
      omega
    rw [hplace, hnone.mpr hempty]

end Placement

end PhysMem
