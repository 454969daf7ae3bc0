import PhysMem.Frame.Bootstrap
import PhysMem.Proofs.Placement

/-!
# Next fit — once around the table

Next fit looks for a free run from its position to the end of the table, and then from the first
frame up to its position. It does not try every start: behind a run that is too short it goes on
past the frame in use that ended the run. The heart is that nothing is passed over so, since a run
that started in between would have to cross that frame.

* **`firstFree?`** is what a search should find among some starts, **`around`** the order in which
  next fit should try them.
* **`scan_eq`** — one search between two bounds finds that.
* **`turn`** is the search as a loop with one position and a flag, every sum and every look at the
  table checked, and **`lap`** runs it. **`turn_left`** is the step, **`lap_eq`** the run.
* **`next_fit_goes_around_once`** is the result.
-/

namespace PhysMem

/-- Whether a run is free can be tested. -/
instance isFreeRunDecidable (frames : Array Descriptor) (start count : Nat) :
    Decidable (IsFreeRun frames start count) :=
  decidable_of_iff (start + count ≤ frames.size ∧
      ∀ k, k < count → (frames[start + k]?).map (·.allocated) = some false) (by
    constructor
    · rintro ⟨hroom, hfree⟩
      refine ⟨hroom, fun i hle hlt => ?_⟩
      have := hfree (i - start) (by omega)
      rwa [Nat.add_sub_cancel' hle] at this
    · rintro ⟨hroom, hfree⟩
      exact ⟨hroom, fun k hk => hfree (start + k) (Nat.le_add_right _ _) (by omega)⟩)

namespace Placement

variable {frames : Array Descriptor} {count p s : Nat}

/-- The first of some starts where `count` free frames lie in the table. -/
def firstFree? (frames : Array Descriptor) (count : Nat) (starts : List Nat) : Option Nat :=
  starts.find? fun s => IsFreeRun frames s count

/-- The frames of a table of `n`, from `p` on to the end and then from the first up to `p`. -/
def around (p n : Nat) : List Nat := List.range' p (n - p) ++ List.range p

theorem mem_around {n : Nat} (hp : p ≤ n) : s ∈ around p n ↔ s < n := by
  simp only [around, List.mem_append, List.mem_range'_1, List.mem_range]
  omega

theorem firstFree?_eq_none {starts : List Nat} :
    firstFree? frames count starts = none ↔ ∀ s ∈ starts, ¬ IsFreeRun frames s count := by
  simp [firstFree?]

theorem firstFree?_append {first rest : List Nat} :
    firstFree? frames count (first ++ rest) =
      (firstFree? frames count first).or (firstFree? frames count rest) := List.find?_append

/-- Starts where no run is free can be left out. -/
theorem firstFree?_from {start next : Nat} (bound : Nat) (rest : List Nat) (hle : start ≤ next)
    (h : ∀ s, start ≤ s → s < next → ¬ IsFreeRun frames s count) :
    firstFree? frames count (List.range' start (bound - start) ++ rest) =
      firstFree? frames count (List.range' next (bound - next) ++ rest) := by
  have hnone : ∀ n, start + n ≤ next → firstFree? frames count (List.range' start n) = none := by
    intro n hn
    refine firstFree?_eq_none.mpr fun s hs => ?_
    rw [List.mem_range'_1] at hs
    exact h s hs.1 (by omega)
  by_cases hb : next ≤ bound
  · have hsplit := List.range'_append_1 (s := start) (m := next - start) (n := bound - next)
    rw [Nat.add_sub_cancel' hle, show next - start + (bound - next) = bound - start by omega]
      at hsplit
    rw [← hsplit, List.append_assoc, firstFree?_append, hnone _ (by omega), Option.none_or]
  · rw [show bound - next = 0 by omega, List.range'_zero, List.nil_append, firstFree?_append,
      hnone _ (by omega), Option.none_or]

/-- A start where a run is free is found before those behind it. -/
theorem firstFree?_head {start : Nat} {rest : List Nat} (h : IsFreeRun frames start count) :
    firstFree? frames count (start :: rest) = some start :=
  List.find?_cons_of_pos (decide_eq_true h)

/-! ## One search -/

/-- A count that went as far as it may has counted a free run. -/
theorem isFreeRun_of_freeRun {start : Nat} (hroom : start + count ≤ frames.size)
    (h : freeRun frames start count = count) : IsFreeRun frames start count := by
  refine ⟨hroom, fun i hle hlt => ?_⟩
  have hcounted : i - start < freeRun frames start count := by omega
  have := free_of_freeRun start count (i - start) hcounted
  rwa [Nat.add_sub_cancel' hle] at this

/-- **No free run starts in a run that is too short**, nor at the frame in use that ended it. -/
theorem not_isFreeRun_of_short {start : Nat} (h : freeRun frames start count ≠ count)
    (hle : start ≤ s) (hlt : s < start + freeRun frames start count + 1) :
    ¬ IsFreeRun frames s count := by
  intro hfree
  have hcount : freeRun frames start count ≤ count := freeRun_le start count
  exact not_free_of_freeRun start count (by omega) (hfree.2 _ (by omega) (by omega))

/-- Where the table ends too early for one start, it does for all behind it. -/
theorem not_isFreeRun_of_size_lt {start : Nat} (h : frames.size < start + count)
    (hle : start ≤ s) : ¬ IsFreeRun frames s count := by
  intro hfree
  have hroom := hfree.1
  omega

/-- **A search finds the first free run** between the bounds that it was given. -/
theorem scan_eq (start : Nat) {bound : Nat} (hbound : bound ≤ frames.size + 1)
    (hfits : frames.size + count < Word.span Word.bits) :
    scan frames count start bound =
      .ok (firstFree? frames count (List.range' start (bound - start))) := by
  -- the starts left to try become fewer
  induction hleft : bound - start using Nat.strongRecOn generalizing start with
  | ind left ih =>
      rw [scan]
      by_cases hlt : start < bound
      · rw [if_pos hlt, Word.add_eq_ok (by omega)]
        show (if frames.size < start + count then _ else _) = _
        by_cases hroom : frames.size < start + count
        · rw [if_pos hroom, firstFree?_eq_none.mpr]
          · rfl
          · intro s hs
            exact not_isFreeRun_of_size_lt hroom (List.mem_range'_1.mp hs).1
        · rw [if_neg hroom]
          show (if freeRun frames start count = count then _ else _) = _
          by_cases hrun : freeRun frames start count = count
          · have hfree := isFreeRun_of_freeRun (Nat.le_of_not_lt hroom) hrun
            obtain ⟨k, rfl⟩ := Nat.exists_eq_succ_of_ne_zero (n := left) (by omega)
            rw [if_pos hrun, List.range'_succ, firstFree?_head hfree]
            rfl
          · have hshort := firstFree?_from bound [] (by omega)
              fun s => not_isFreeRun_of_short (s := s) hrun
            rw [List.append_nil, List.append_nil, hleft] at hshort
            rw [if_neg hrun, hshort]
            exact ih _ (by omega) _ rfl
      · rw [if_neg hlt, ← hleft, show bound - start = 0 by omega]
        rfl

/-- **Next fit finds the first free run in the order in which it goes around.** -/
theorem place_nextFit {position : Nat} (hsize : 0 < frames.size)
    (hfits : frames.size + count < Word.span Word.bits) {found : Option Nat}
    (hfound : found = firstFree? frames count (around (position % frames.size) frames.size)) :
    place frames count (.nextFit position) =
      .ok (found.map fun start => (start, start + count),
        .nextFit (found.elim (position % frames.size) fun start => (start + count) % frames.size)) := by
  have hposition : position % frames.size < frames.size := Nat.mod_lt _ hsize
  have hahead := scan_eq (position % frames.size) (Nat.le_succ frames.size) hfits
  have hbehind := scan_eq 0 (Nat.le_succ_of_le (Nat.le_of_lt hposition)) hfits
  rw [Nat.sub_zero, ← List.range_eq_range'] at hbehind
  rw [around, firstFree?_append] at hfound
  simp only [place, if_neg (Nat.ne_of_gt hsize), hahead]
  cases hfirst : firstFree? frames count
      (List.range' (position % frames.size) (frames.size - position % frames.size)) with
  | some start =>
      rw [hfirst, Option.some_or] at hfound
      rw [hfound]
      rfl
  | none =>
      rw [hfirst, Option.none_or] at hfound
      show ((scan frames count 0 (position % frames.size)) >>= _) = _
      rw [hbehind, ← hfound]
      cases found <;> rfl

/-- First fit finds no place where there is none, and only there. -/
theorem place_firstFit_none (hfits : frames.size + count < Word.span Word.bits) :
    place frames count .firstFit = .ok (none, .firstFit) ↔ ∀ s, ¬ IsFreeRun frames s count := by
  have hall := scan_eq 0 (Nat.le_refl (frames.size + 1)) hfits
  have hplace : place frames count .firstFit =
      .ok ((firstFree? frames count (List.range' 0 (frames.size + 1 - 0))).map
        fun start => (start, start + count), .firstFit) := by
    simp only [place, hall]
    rfl
  rw [hplace]
  constructor
  · intro h s hfree
    have hnone := Option.map_eq_none_iff.mp (congrArg Prod.fst (Except.ok.inj h))
    have hroom := hfree.1
    exact firstFree?_eq_none.mp hnone s (List.mem_range'_1.mpr ⟨Nat.zero_le s, by omega⟩) hfree
  · intro h
    rw [firstFree?_eq_none.mpr fun s _ => h s]
    rfl

/-! ## The search as a loop -/

/-- How far the loop has come: the start it tries next, and whether it began anew at frame 0. -/
structure Lap where
  start : Nat
  wrapped : Bool
  deriving DecidableEq, Repr

namespace Lap

/-- The starts that are left in a table of `n` for a search that began at `p`. -/
def left (n p : Nat) (l : Lap) : List Nat :=
  if l.wrapped then List.range' l.start (p - l.start)
  else List.range' l.start (n - l.start) ++ List.range p

/-- How many turns are left at most. -/
def weight (n p : Nat) (l : Lap) : Nat := (l.left n p).length + if l.wrapped then 0 else 1

theorem weight_eq (n p : Nat) (l : Lap) :
    l.weight n p = if l.wrapped then p - l.start else n - l.start + p + 1 := by
  rw [weight, left]
  cases l.wrapped
  · rw [if_neg nofun, if_neg nofun, if_neg nofun, List.length_append, List.length_range',
      List.length_range]
  · rw [if_pos rfl, if_pos rfl, if_pos rfl, List.length_range', Nat.add_zero]

end Lap

/-- The length of the free run at `start`, counted up to `limit`. Every frame that is looked at must
lie in the table. -/
def countRun (frames : Array Descriptor) (start : Nat) : Nat → Except Fault Nat
  | 0 => .ok 0
  | limit + 1 =>
    match frames[start]? with
    | none => .error (.indexOutOfRange frames.size start)
    | some frame =>
      if frame.allocated then .ok 0
      else do
        let rest ← countRun frames (start + 1) limit
        Word.add Word.bits rest 1

/-- One turn of the loop that began at `p`: it goes on with another start, or it ends. -/
def turn (frames : Array Descriptor) (count p : Nat) (l : Lap) :
    Except Fault (Lap ⊕ Option Nat) :=
  if l.wrapped ∧ p ≤ l.start then .ok (.inr none)
  else do
    let stop ← Word.add Word.bits l.start count
    if frames.size < stop then
      if l.wrapped then return .inr none
      return .inl ⟨0, true⟩
    let run ← countRun frames l.start count
    if run = count then return .inr (some l.start)
    let past ← Word.add Word.bits run 1
    let next ← Word.add Word.bits l.start past
    return .inl ⟨next, l.wrapped⟩

theorem countRun_eq {start limit : Nat} (hroom : start + limit ≤ frames.size)
    (hfits : frames.size < Word.span Word.bits) :
    countRun frames start limit = .ok (freeRun frames start limit) := by
  induction limit generalizing start with
  | zero => rfl
  | succ limit ih =>
      have hstart : start < frames.size := by omega
      rw [countRun, freeRun, Array.getElem?_eq_getElem hstart]
      dsimp only
      split
      · rfl
      · have hle : freeRun frames (start + 1) limit ≤ limit := freeRun_le (start + 1) limit
        rw [ih (by omega)]
        exact Word.add_eq_ok (by omega)

theorem countRun_le {start limit run : Nat} (h : countRun frames start limit = .ok run) :
    run ≤ limit := by
  induction limit generalizing start run with
  | zero =>
      cases h
      exact Nat.le_refl 0
  | succ limit ih =>
      rw [countRun] at h
      split at h
      · exact nomatch h
      · split at h
        · cases h
          exact Nat.zero_le _
        · obtain ⟨rest, hrest, h⟩ := Fault.bind_eq_ok.mp h
          rw [Word.eq_of_add h]
          exact Nat.succ_le_succ (ih hrest)

/-- **The loop begins anew once, or it goes on behind a run that is too short.** -/
theorem turn_cases {l next : Lap} (h : turn frames count p l = .ok (.inl next)) :
    l.wrapped = false ∧ next = ⟨0, true⟩ ∨
      ∃ run, run < count ∧ l.start + count ≤ frames.size ∧ ¬ (l.wrapped = true ∧ p ≤ l.start) ∧
        next = ⟨l.start + (run + 1), l.wrapped⟩ := by
  rw [turn] at h
  split at h
  · exact nomatch h
  · next hleft =>
      obtain ⟨stop, hstop, h⟩ := Fault.bind_eq_ok.mp h
      cases Word.eq_of_add hstop
      split at h
      · split at h
        · exact nomatch h
        · next hwrapped =>
            cases h
            exact Or.inl ⟨Bool.eq_false_iff.mpr hwrapped, rfl⟩
      · next hroom =>
          obtain ⟨run, hrun, h⟩ := Fault.bind_eq_ok.mp h
          split at h
          · exact nomatch h
          · next hshort =>
              obtain ⟨past, hpast, h⟩ := Fault.bind_eq_ok.mp h
              obtain ⟨next, hnext, h⟩ := Fault.bind_eq_ok.mp h
              cases Word.eq_of_add hpast
              cases Word.eq_of_add hnext
              cases h
              have hle := countRun_le hrun
              exact Or.inr ⟨run, by omega, by omega, hleft, rfl⟩

/-- **Every turn leaves fewer.** -/
theorem turn_weight {l next : Lap} (h : turn frames count p l = .ok (.inl next)) :
    next.weight frames.size p < l.weight frames.size p := by
  rw [Lap.weight_eq, Lap.weight_eq]
  rcases turn_cases h with ⟨hwrapped, rfl⟩ | ⟨run, hrun, hroom, hleft, rfl⟩
  · rw [hwrapped, if_pos rfl, if_neg nofun]
    omega
  · cases hwrapped : l.wrapped with
    | true =>
        have hbefore : l.start < p := Nat.lt_of_not_le fun hle => hleft ⟨hwrapped, hle⟩
        show p - (l.start + (run + 1)) < p - l.start
        omega
    | false =>
        show frames.size - (l.start + (run + 1)) + p + 1 < frames.size - l.start + p + 1
        omega

/-- Turns the loop until it ends. -/
def lap (frames : Array Descriptor) (count p : Nat) (l : Lap) : Except Fault (Option Nat) :=
  match _ : turn frames count p l with
  | .error fault => .error fault
  | .ok (.inr found) => .ok found
  | .ok (.inl next) => lap frames count p next
termination_by l.weight frames.size p
decreasing_by exact turn_weight ‹_›

/-- What a turn does where the table has room for the run. -/
theorem turn_room {l : Lap} (hback : ¬ (l.wrapped = true ∧ p ≤ l.start))
    (hroom : l.start + count ≤ frames.size) (hfits : frames.size + count < Word.span Word.bits) :
    turn frames count p l =
      .ok (if freeRun frames l.start count = count then .inr (some l.start)
        else .inl ⟨l.start + (freeRun frames l.start count + 1), l.wrapped⟩) := by
  have hle : freeRun frames l.start count ≤ count := freeRun_le l.start count
  rw [turn, if_neg hback, Word.add_eq_ok (by omega)]
  show (if frames.size < l.start + count then _ else _) = _
  rw [if_neg (Nat.not_lt.mpr hroom), countRun_eq hroom (by omega)]
  show (if freeRun frames l.start count = count then _ else _) = _
  by_cases hrun : freeRun frames l.start count = count
  · rw [if_pos hrun, if_pos hrun]
    rfl
  · rw [if_neg hrun, if_neg hrun, Word.add_eq_ok (by omega)]
    show (Word.add Word.bits l.start (freeRun frames l.start count + 1) >>= _) = _
    rw [Word.add_eq_ok (by omega)]
    rfl

/-- Where the loop stands is the first start that is left. -/
theorem Lap.left_eq_cons {l : Lap} {size : Nat} (hback : ¬ (l.wrapped = true ∧ p ≤ l.start))
    (hlt : l.start < size) : ∃ rest, l.left size p = l.start :: rest := by
  obtain ⟨start, wrapped⟩ := l
  cases wrapped with
  | true =>
      have hbefore : p - start ≠ 0 := Nat.sub_ne_zero_of_lt (Nat.lt_of_not_le fun hle =>
        hback ⟨rfl, hle⟩)
      obtain ⟨n, hn⟩ := Nat.exists_eq_succ_of_ne_zero hbefore
      exact ⟨List.range' (start + 1) n, by simp [Lap.left, hn, List.range'_succ]⟩
  | false =>
      obtain ⟨n, hn⟩ := Nat.exists_eq_succ_of_ne_zero (Nat.sub_ne_zero_of_lt hlt)
      exact ⟨List.range' (start + 1) n ++ List.range p, by simp [Lap.left, hn, List.range'_succ]⟩

/-- **One turn loses no free run**: no check fails, and what is first among the starts that were left
is found, or is first among those that are left now. -/
theorem turn_left {l : Lap} (hpos : 0 < count) (hstart : l.start ≤ frames.size)
    (hfits : frames.size + count < Word.span Word.bits) :
    (∃ next, turn frames count p l = .ok (.inl next) ∧ next.start ≤ frames.size ∧
        firstFree? frames count (next.left frames.size p) =
          firstFree? frames count (l.left frames.size p)) ∨
      turn frames count p l = .ok (.inr (firstFree? frames count (l.left frames.size p))) := by
  obtain ⟨start, wrapped⟩ := l
  have hstart : start ≤ frames.size := hstart
  by_cases hback : wrapped = true ∧ p ≤ start
  · -- back at the position
    obtain ⟨rfl, hle⟩ := hback
    refine Or.inr ?_
    rw [turn, if_pos ⟨rfl, hle⟩]
    simp [Lap.left, Nat.sub_eq_zero_of_le hle, firstFree?]
  have hstop : Word.add Word.bits start count = .ok (start + count) := Word.add_eq_ok (by omega)
  by_cases hroom : frames.size < start + count
  · -- the table ends too early for every start up to its end
    have hnone := fun s (hs : start ≤ s) => not_isFreeRun_of_size_lt (s := s) hroom hs
    cases wrapped with
    | true =>
        refine Or.inr ?_
        rw [turn, if_neg hback, hstop, firstFree?_eq_none.mpr]
        · exact if_pos hroom
        · intro s hs
          exact hnone s (List.mem_range'_1.mp hs).1
    | false =>
        refine Or.inl ⟨⟨0, true⟩, ?_, Nat.zero_le _, ?_⟩
        · rw [turn, if_neg hback, hstop]
          exact if_pos hroom
        · have hskip := firstFree?_from frames.size (List.range p) hstart
            fun s hs _ => hnone s hs
          rw [Nat.sub_self, List.range'_zero, List.nil_append] at hskip
          simpa [Lap.left, List.range_eq_range'] using hskip.symm
  have hturn := turn_room (p := p) (l := ⟨start, wrapped⟩) hback (Nat.le_of_not_lt hroom) hfits
  dsimp only at hturn
  by_cases hrun : freeRun frames start count = count
  · -- a free run: its start is the first of those that are left
    have hfree := isFreeRun_of_freeRun (Nat.le_of_not_lt hroom) hrun
    obtain ⟨rest, hrest⟩ := Lap.left_eq_cons (l := ⟨start, wrapped⟩) hback
      (show start < frames.size by omega)
    rw [if_pos hrun] at hturn
    exact Or.inr (by rw [hturn, hrest, firstFree?_head hfree])
  · -- no free run starts here, nor up to the frame in use behind it
    have hle : freeRun frames start count ≤ count := freeRun_le start count
    have hnext : start ≤ start + (freeRun frames start count + 1) := Nat.le_add_right _ _
    have hskip := fun bound rest => firstFree?_from bound rest hnext
      fun s hs hlt => not_isFreeRun_of_short hrun hs (by omega)
    rw [if_neg hrun] at hturn
    refine Or.inl ⟨_, hturn, ?_, ?_⟩
    · show start + (freeRun frames start count + 1) ≤ frames.size
      omega
    · cases wrapped with
      | true => simpa [Lap.left] using (hskip p []).symm
      | false => exact (hskip frames.size (List.range p)).symm

/-- **The loop finds the first free run among the starts that are left**, and it ends. -/
theorem lap_eq {l : Lap} (hpos : 0 < count) (hstart : l.start ≤ frames.size)
    (hfits : frames.size + count < Word.span Word.bits) :
    lap frames count p l = .ok (firstFree? frames count (l.left frames.size p)) := by
  induction hweight : l.weight frames.size p using Nat.strongRecOn generalizing l with
  | ind weight ih =>
      rw [lap]
      rcases turn_left (p := p) hpos hstart hfits with ⟨next, hturn, hnext, hleft⟩ | hturn
      · have hless := turn_weight hturn
        rw [← hleft, ← ih _ (hweight ▸ hless) hnext rfl]
        split <;> simp_all
      · split <;> simp_all

/-- **Next fit goes around the table once.** The loop ends with no fault, and it and the placement
find the first start with `count` free frames in the order in which they go around. They find none
exactly where there is none, and there first fit finds none either. The next search begins behind
the run that was found, or where this one began. -/
theorem next_fit_goes_around_once (frames : Array Descriptor) (count position : Nat)
    (hmemory : frames.size * Coremap.descriptorSize ≤ Word.span Word.bits)
    (hcount : 1 ≤ count) (hle : count ≤ frames.size) :
    ∃ found, found = firstFree? frames count (around (position % frames.size) frames.size) ∧
      lap frames count (position % frames.size) ⟨position % frames.size, false⟩ = .ok found ∧
      place frames count (.nextFit position) =
        .ok (found.map fun start => (start, start + count),
          .nextFit (found.elim (position % frames.size) fun start => (start + count) % frames.size)) ∧
      (found = none ↔ ∀ s, ¬ IsFreeRun frames s count) ∧
      (found = none ↔ place frames count .firstFit = .ok (none, .firstFit)) := by
  have hsize : 0 < frames.size := Nat.lt_of_lt_of_le hcount hle
  have hfits : frames.size + count < Word.span Word.bits := by
    have hposition : frames.size * 64 ≤ Word.span Word.bits := hmemory
    omega
  have hposition := Nat.mod_lt position hsize
  have hnone : firstFree? frames count (around (position % frames.size) frames.size) = none ↔
      ∀ s, ¬ IsFreeRun frames s count := by
    rw [firstFree?_eq_none]
    constructor
    · intro h s hfree
      have hroom := hfree.1
      exact h s ((mem_around (Nat.le_of_lt hposition)).mpr (by omega)) hfree
    · intro h s _
      exact h s
  exact ⟨_, rfl, lap_eq hcount (Nat.le_of_lt hposition) hfits, place_nextFit hsize hfits rfl, hnone,
    hnone.trans (place_firstFit_none hfits).symm⟩

/-- Five frames, the first in use: a search for four from frame 3 on begins anew and finds them
behind the first. -/
theorem next_fit_begins_anew :
    (5 * Coremap.descriptorSize ≤ Word.span Word.bits ∧ 1 ≤ 4 ∧ 4 ≤ 5) ∧
      place #[{ allocated := true }, .free, .free, .free, .free] 4 (.nextFit 8) =
        .ok (some (1, 5), .nextFit 0) := by
  refine ⟨by decide, ?_⟩
  obtain ⟨found, hfound, -, hplace, -, -⟩ :=
    next_fit_goes_around_once #[{ allocated := true }, .free, .free, .free, .free] 4 8
      (by decide) (by decide) (by decide)
  have hone : found = some 1 := hfound.trans (by decide)
  rw [hplace, hone]
  rfl

end Placement

end PhysMem
