import PhysMem.Frame.Bootstrap

/-!
# Steals — frames that are given away for good

A steal multiplies and adds, and looks at both results before it takes anything. What is left is
counted otherwise, by a difference that stops at zero and a division that drops what is no whole
frame. The two agree for every end of memory and every count, also where the end lies below the
first frame, inside a frame, or where the product leaves its word.

* **`steal_cases`** is all that a steal can do.
* **`Tiles`** says that runs lie behind each other, and what follows from it holds of all of them.
  **`stealAll_tiles`** is the induction over the requests.
* **`BootAllocator.Exact`** is what is answered to the next request.
* **`steals_are_disjoint_and_exact`** is the result.
-/

namespace PhysMem

open Address

/-- A run of frames that was stolen. -/
structure Stolen where
  start : Nat
  count : Nat
  deriving DecidableEq, Repr

/-- The address behind the last frame. -/
def Stolen.stop (run : Stolen) : Nat := run.start + run.count * frameSize

theorem Stolen.start_le_stop (run : Stolen) : run.start ≤ run.stop := Nat.le_add_right _ _

/-! ## Runs behind each other -/

/-- The runs lie behind each other from the first address to the last, none of them past `stop`. -/
inductive Tiles (stop : Nat) : Nat → List Stolen → Nat → Prop where
  | nil (address : Nat) : Tiles stop address [] address
  | cons (run : Stolen) {runs : List Stolen} {last : Nat} :
      run.stop ≤ stop → Tiles stop run.stop runs last → Tiles stop run.start (run :: runs) last

namespace Tiles

variable {stop first last : Nat} {runs : List Stolen}

/-- No run begins below the first address or ends past `stop`. -/
theorem inside (h : Tiles stop first runs last) :
    ∀ run ∈ runs, first ≤ run.start ∧ run.stop ≤ stop := by
  induction h with
  | nil address => exact List.forall_mem_nil _
  | cons run hstop htiles ih =>
      refine List.forall_mem_cons.mpr ⟨⟨Nat.le_refl _, hstop⟩, ?_⟩
      intro later hlater
      obtain ⟨hfirst, hlast⟩ := ih later hlater
      exact ⟨Nat.le_trans run.start_le_stop hfirst, hlast⟩

/-- Whatever lies behind a run begins where it ends or later. -/
theorem disjoint (h : Tiles stop first runs last) :
    runs.Pairwise fun run later => run.stop ≤ later.start := by
  induction h with
  | nil address => exact .nil
  | cons run hstop htiles ih =>
      refine .cons ?_ ih
      intro later hlater
      exact (htiles.inside later hlater).1

/-- Runs of whole frames keep to the starts of frames. -/
theorem aligned (h : Tiles stop first runs last) (hfirst : isAligned first) :
    (∀ run ∈ runs, isAligned run.start) ∧ isAligned last := by
  induction h with
  | nil address => exact ⟨List.forall_mem_nil _, hfirst⟩
  | cons run hstop htiles ih =>
      have hnext : isAligned run.stop := by
        simp only [isAligned, Stolen.stop, beq_iff_eq] at hfirst ⊢
        rw [Nat.add_mul_mod_self_right, hfirst]
      obtain ⟨hruns, hlast⟩ := ih hnext
      exact ⟨List.forall_mem_cons.mpr ⟨hfirst, hruns⟩, hlast⟩

end Tiles

namespace BootAllocator

variable {b after : BootAllocator} {count firstFree stop : Nat}

/-! ## One steal -/

/-- Memory begins at the first frame that does not begin below `firstFree`. -/
theorem create_eq_ok (h : framesFor firstFree * frameSize < Word.span Word.bits) :
    create firstFree stop = .ok ⟨framesFor firstFree * frameSize, stop⟩ := by
  by_cases hpast : firstFree % frameSize = 0
  · have hround : framesFor firstFree * frameSize = firstFree := by
      simp only [framesFor, frameSize] at hpast ⊢
      omega
    rw [hround]
    exact if_pos hpast
  · have hround : firstFree + (frameSize - firstFree % frameSize) =
        framesFor firstFree * frameSize := by
      simp only [framesFor, frameSize] at hpast ⊢
      omega
    have hadd := Word.add_eq_ok (hround ▸ h)
    simp only [create, if_neg hpast, hadd, hround]
    rfl

/-- Rounding up leaves the end of memory as it is. -/
theorem create_stop (h : create firstFree stop = .ok b) : b.stop = stop := by
  by_cases hpast : firstFree % frameSize = 0
  · cases (if_pos hpast).symm.trans h
    rfl
  · obtain ⟨nextFree, -, h⟩ := Fault.bind_eq_ok.mp ((if_neg hpast).symm.trans h)
    cases h
    rfl

/-- **All that a steal can do.** It takes its frames from the front if they end in the memory, and
otherwise nothing. -/
theorem steal_cases (b : BootAllocator) (count : Nat) :
    (b.nextFree + count * frameSize ≤ b.stop ∧
      b.nextFree + count * frameSize < Word.span Word.bits ∧
      b.steal count = (.ok b.nextFree, ⟨b.nextFree + count * frameSize, b.stop⟩)) ∨
    ((b.stop < b.nextFree + count * frameSize ∨
        Word.span Word.bits ≤ b.nextFree + count * frameSize) ∧
      b.steal count = (.error .bootstrapExhausted, b)) := by
  by_cases hmul : count * frameSize < Word.span Word.bits
  · have hproduct : Word.mul? Word.bits count frameSize = some (count * frameSize) := if_pos hmul
    by_cases hadd : b.nextFree + count * frameSize < Word.span Word.bits
    · have hsum : Word.add? Word.bits b.nextFree (count * frameSize) =
          some (b.nextFree + count * frameSize) := if_pos hadd
      by_cases hstop : b.nextFree + count * frameSize ≤ b.stop
      · refine .inl ⟨hstop, hadd, ?_⟩
        simp only [steal, hproduct, hsum, if_pos hstop]
      · refine .inr ⟨.inl (Nat.lt_of_not_le hstop), ?_⟩
        simp only [steal, hproduct, hsum, if_neg hstop]
    · have hsum : Word.add? Word.bits b.nextFree (count * frameSize) = none := if_neg hadd
      refine .inr ⟨.inr (Nat.le_of_not_lt hadd), ?_⟩
      simp only [steal, hproduct, hsum]
  · have hproduct : Word.mul? Word.bits count frameSize = none := if_neg hmul
    refine .inr ⟨.inr (Nat.le_trans (Nat.le_of_not_lt hmul) (Nat.le_add_left _ _)), ?_⟩
    simp only [steal, hproduct]

/-- What is stolen is taken from the front. -/
theorem steal_stop {answer : Except FrameError Nat} (h : b.steal count = (answer, after)) :
    after.stop = b.stop := by
  rcases b.steal_cases count with ⟨-, -, heq⟩ | ⟨-, heq⟩
  · cases heq.symm.trans h
    rfl
  · cases heq.symm.trans h
    rfl

/-- Frames that end in the memory are left. -/
theorem le_remaining (hstop : b.nextFree + count * frameSize ≤ b.stop) : count ≤ b.remaining := by
  simp only [remaining, frameSize] at hstop ⊢
  omega

/-- Frames that are left end in the memory. -/
theorem le_stop (hcount : count ≤ b.remaining) (hpos : count ≠ 0) :
    b.nextFree + count * frameSize ≤ b.stop := by
  simp only [remaining, frameSize] at hcount ⊢
  omega

/-- Frames that are left can be stolen. -/
theorem steal_eq (hcount : count ≤ b.remaining) (hpos : count ≠ 0)
    (hstop : b.stop < Word.span Word.bits) :
    b.steal count = (.ok b.nextFree, ⟨b.nextFree + count * frameSize, b.stop⟩) := by
  have hle := le_stop hcount hpos
  rcases b.steal_cases count with ⟨-, -, heq⟩ | ⟨hlarge, -⟩
  · exact heq
  · omega

/-- What is left behind frames that were stolen. -/
theorem remaining_behind (hcount : count ≤ b.remaining) :
    remaining ⟨b.nextFree + count * frameSize, b.stop⟩ = b.remaining - count := by
  simp only [remaining, frameSize] at hcount ⊢
  omega

/-- What is answered to the next request, whatever it asks for. -/
structure Exact (b : BootAllocator) : Prop where
  /-- Frames can be stolen if and only if so many are left. -/
  ok_iff : ∀ count, 1 ≤ count →
    ((∃ start after, b.steal count = (.ok start, after)) ↔ count ≤ b.remaining)
  /-- They begin where the memory that was left began, and there are so many fewer. -/
  of_ok : ∀ count start after, b.steal count = (.ok start, after) →
    start = b.nextFree ∧ isAligned start ∧
      after.nextFree = start + count * frameSize ∧ after.stop = b.stop ∧
      after.nextFree < Word.span Word.bits ∧ after.remaining + count = b.remaining
  /-- A request that fails changes nothing. -/
  of_error : ∀ count e after, b.steal count = (.error e, after) →
    e = .bootstrapExhausted ∧ after = b

theorem exact_of_aligned (haligned : isAligned b.nextFree) (hstop : b.stop < Word.span Word.bits) :
    b.Exact where
  ok_iff := by
    intro count hcount
    constructor
    · rintro ⟨start, after, h⟩
      rcases b.steal_cases count with ⟨hle, -, -⟩ | ⟨-, heq⟩
      · exact le_remaining hle
      · cases heq.symm.trans h
    · intro hleft
      exact ⟨_, _, steal_eq hleft (Nat.ne_of_gt hcount) hstop⟩
  of_ok := by
    intro count start after h
    rcases b.steal_cases count with ⟨hle, hword, heq⟩ | ⟨-, heq⟩
    · cases heq.symm.trans h
      have hleft := le_remaining hle
      refine ⟨rfl, haligned, rfl, rfl, hword, ?_⟩
      rw [remaining_behind hleft, Nat.sub_add_cancel hleft]
    · cases heq.symm.trans h
  of_error := by
    intro count e after h
    rcases b.steal_cases count with ⟨-, -, heq⟩ | ⟨-, heq⟩
    · cases heq.symm.trans h
    · cases heq.symm.trans h
      exact ⟨rfl, rfl⟩

/-! ## One steal after the other -/

/-- Steals as often as is asked, and keeps each answer beside its request. -/
def stealAll (b : BootAllocator) : List Nat → List (Nat × Except FrameError Nat) × BootAllocator
  | [] => ([], b)
  | count :: counts =>
    let (answer, b) := b.steal count
    let (answers, b) := b.stealAll counts
    ((count, answer) :: answers, b)

/-- The runs that were stolen, in the order of the requests. -/
def stolen : List (Nat × Except FrameError Nat) → List Stolen
  | [] => []
  | (count, .ok start) :: answers => ⟨start, count⟩ :: stolen answers
  | (_, .error _) :: answers => stolen answers

/-- What was stolen lies behind each other, up to where the rest of the memory begins. -/
theorem stealAll_tiles (b : BootAllocator) (counts : List Nat) :
    Tiles b.stop b.nextFree (stolen (b.stealAll counts).1) (b.stealAll counts).2.nextFree ∧
      (b.stealAll counts).2.stop = b.stop ∧
      (b.nextFree < Word.span Word.bits →
        (b.stealAll counts).2.nextFree < Word.span Word.bits) := by
  induction counts generalizing b with
  | nil => exact ⟨.nil _, rfl, id⟩
  | cons count counts ih =>
      rcases b.steal_cases count with ⟨hstop, hword, heq⟩ | ⟨-, heq⟩
      · obtain ⟨htiles, hend, hrest⟩ := ih ⟨b.nextFree + count * frameSize, b.stop⟩
        simp only [stealAll, heq, stolen]
        exact ⟨.cons ⟨b.nextFree, count⟩ hstop htiles, hend, fun _ => hrest hword⟩
      · simp only [stealAll, heq, stolen]
        exact ih b

/-- How runs lie that were stolen from the memory between two addresses, with what is left `after`
them. -/
structure Laid (firstFree stop : Nat) (runs : List Stolen) (after : BootAllocator) : Prop where
  /-- The first begins at the first frame, every other where the one before it ended, and what is
  left where the last one ended. -/
  tiles : Tiles stop (framesFor firstFree * frameSize) runs after.nextFree
  aligned : ∀ run ∈ runs, isAligned run.start
  /-- They lie in the order in which they were stolen and have no byte in common. -/
  disjoint : runs.Pairwise fun run later => run.stop ≤ later.start
  inside : ∀ run ∈ runs, firstFree ≤ run.start ∧ run.stop ≤ stop
  stop_eq : after.stop = stop
  /-- No sum has left its word. -/
  inWord : after.nextFree < Word.span Word.bits

/-- **Steals are disjoint and exact.** Memory may begin and end anywhere, as long as its first frame
begins at an address, and any counts may be asked for. Then rounding up meets no fault, and no sum
or product leaves its word. All that is stolen lies in order, each run at the start of a frame where
the one before it ended, inside the memory. And after whatever was asked for, frames can be stolen
if and only if so many are left, which then are so many fewer, while a failed request changes
nothing. -/
theorem steals_are_disjoint_and_exact
    (hround : framesFor firstFree * frameSize < Word.span Word.bits)
    (hstop : stop < Word.span Word.bits) (counts : List Nat) :
    ∃ b, create firstFree stop = .ok b ∧
      Laid firstFree stop (stolen (b.stealAll counts).1) (b.stealAll counts).2 ∧
      (b.stealAll counts).2.Exact := by
  refine ⟨_, create_eq_ok hround, ?_⟩
  obtain ⟨htiles, hend, hword⟩ :=
    stealAll_tiles ⟨framesFor firstFree * frameSize, stop⟩ counts
  have hfirst : isAligned (framesFor firstFree * frameSize) := by
    simp only [isAligned, Nat.mul_mod_left, beq_self_eq_true]
  obtain ⟨haligned, hlast⟩ := htiles.aligned hfirst
  constructor
  · exact
      { tiles := htiles
        aligned := haligned
        disjoint := htiles.disjoint
        inside := fun run hrun =>
          ⟨Nat.le_trans (le_framesFor_mul firstFree) (htiles.inside run hrun).1,
            (htiles.inside run hrun).2⟩
        stop_eq := hend
        inWord := hword hround }
  · exact exact_of_aligned hlast (hend ▸ hstop)

/-- Memory that begins and ends inside a frame. The second request leaves its word, the third asks
for nothing, and the last finds all frames taken. -/
theorem steals_are_disjoint_and_exact_of_the_greedy :
    (framesFor 0x10010 * frameSize < Word.span Word.bits ∧ 0x20123 < Word.span Word.bits) ∧
      ∃ b, create 0x10010 0x20123 = .ok b ∧
        (b.stealAll [2, Word.last, 0, 13, 1]).1 =
          [(2, .ok 0x11000), (Word.last, .error .bootstrapExhausted), (0, .ok 0x13000),
            (13, .ok 0x13000), (1, .error .bootstrapExhausted)] ∧
        Laid 0x10010 0x20123 [⟨0x11000, 2⟩, ⟨0x13000, 0⟩, ⟨0x13000, 13⟩]
          (b.stealAll [2, Word.last, 0, 13, 1]).2 ∧
        (b.stealAll [2, Word.last, 0, 13, 1]).2.Exact := by
  have hround : framesFor 0x10010 * frameSize < Word.span Word.bits := by decide
  have hstop : 0x20123 < Word.span Word.bits := by decide
  refine ⟨⟨hround, hstop⟩, ?_⟩
  obtain ⟨b, hcreate, hlaid, hexact⟩ :=
    steals_are_disjoint_and_exact hround hstop [2, Word.last, 0, 13, 1]
  have hb : create 0x10010 0x20123 = .ok ⟨0x11000, 0x20123⟩ := by decide
  cases hb.symm.trans hcreate
  have hanswers : (stealAll ⟨0x11000, 0x20123⟩ [2, Word.last, 0, 13, 1]).1 =
      [(2, .ok 0x11000), (Word.last, .error .bootstrapExhausted), (0, .ok 0x13000),
        (13, .ok 0x13000), (1, .error .bootstrapExhausted)] := by decide
  rw [hanswers] at hlaid
  exact ⟨_, hcreate, hanswers, hlaid, hexact⟩

end BootAllocator

end PhysMem
