import PhysMem.Memory.Task

/-!
# Ranks — no operation calls out for ever

The rank of a task bounds the call-outs it has left, the one it is stopped at included. Every piece
that starts an operation ends at a rank of at most `maxRank`, and every piece that goes on ends
lower than it began.

* **`start_rank`** and **`resume_rank`** are these two statements.
-/

namespace PhysMem.Task

/-- The call-outs that a need has left once there is room. -/
def needRank : Option Need → Nat
  | some (.pageIn ..) => 18
  | _ => 0

/-- A bound on the call-outs an operation has left. -/
def rank : Task → Nat
  | .evictMapping e => needRank e.need + 10
  | .evictWriting e i => needRank e.need + 9 - i
  | .evictTelling e => needRank e.need + 1
  | .fillMapping _ => 17
  | .fillReading _ i => 16 - i
  | .fillScrubbing _ i => 8 - i
  | .slotReading _ _ i => 8 - i
  | .slotWriting _ _ i => 8 - i

/-- The rank of what comes next; a reply has none. -/
def Next.rank : Next → Nat
  | .callOut task => task.rank
  | .reply _ => 0

/-- The rank no operation exceeds. -/
def maxRank : Nat := 28

/-- The piece, if it comes about, ends at a rank of at most `k`. -/
def EndsBy (x : Except Fault Piece) (k : Nat) : Prop := ∀ p, x = .ok p → p.next.rank ≤ k

namespace EndsBy

variable {α : Type} {k : Nat}

theorem ok {p : Piece} (h : p.next.rank ≤ k) : EndsBy (.ok p) k := fun _ e => by cases e; exact h

theorem bind {x : Except Fault α} {f : α → Except Fault Piece} (h : ∀ a, EndsBy (f a) k) :
    EndsBy (x >>= f) k := fun p e =>
  let ⟨a, _, ha⟩ := Fault.bind_eq_ok.mp e
  h a p ha

theorem mono {x : Except Fault Piece} {j : Nat} (h : EndsBy x j) (hjk : j ≤ k) : EndsBy x k :=
  fun p e => Nat.le_trans (h p e) hjk

theorem finish {m : Memory} {notices : List Notice} {reply : Reply} :
    EndsBy (.ok (Task.finish m notices reply)) k := ok (Nat.zero_le k)

theorem stop {m : Memory} {notices : List Notice} {task : Task} (h : task.rank ≤ k) :
    EndsBy (.ok (Task.stop m notices task)) k := ok h

end EndsBy

theorem nextPlace_eq_some {i j : Place} (h : nextPlace i = some j) : j.val = i.val + 1 := by
  unfold nextPlace at h
  split at h
  · cases h
    rfl
  · cases h

theorem place_lt (i : Place) : i.val < 8 := i.isLt

theorem rank_pos (t : Task) : 0 < t.rank := by
  cases t with
  | evictMapping e => exact Nat.succ_pos _
  | evictTelling e => exact Nat.succ_pos _
  | fillMapping f => exact Nat.succ_pos _
  | evictWriting e i =>
    have := place_lt i
    simp only [rank]
    omega
  | fillReading f i =>
    have := place_lt i
    simp only [rank]
    omega
  | fillScrubbing f i => exact Nat.sub_pos_of_lt (place_lt i)
  | slotReading slot buffer i => exact Nat.sub_pos_of_lt (place_lt i)
  | slotWriting slot data i => exact Nat.sub_pos_of_lt (place_lt i)

variable (held : Bool) (m : Memory)

/-! ## Filling a frame from a slot -/

theorem filled_rank (notices : List Notice) (f : Filling) : EndsBy (filled m notices f) 0 := by
  unfold filled
  split
  · refine .bind fun ⟨_, _⟩ => ?_
    dsimp only
    split
    · exact .finish
    · exact .finish
  · exact .bind fun _ => .bind fun _ => .finish

theorem fillFailed_rank (f : Filling) (e : SwapError) : EndsBy (fillFailed m f e) 0 := by
  unfold fillFailed
  split
  · exact .finish
  · exact .bind fun _ => .bind fun _ => .finish

theorem scrubAt_rank (f : Filling) (i : Place) : EndsBy (scrubAt m f i) (8 - i) := by
  refine .bind fun a => ?_
  split
  · exact (filled_rank m _ f).mono (Nat.zero_le _)
  · exact .stop (Nat.le_refl _)

theorem slotRead_rank (f : Filling) : EndsBy (slotRead held m f) 8 := by
  unfold slotRead
  split
  · exact .bind fun _ => scrubAt_rank m f firstPlace
  · exact (filled_rank m _ f).mono (Nat.zero_le _)

theorem readAt_rank (f : Filling) (i : Place) : EndsBy (readAt m f i) (16 - i) := by
  refine .bind fun a => ?_
  split
  · exact (fillFailed_rank m f _).mono (Nat.zero_le _)
  · exact .stop (Nat.le_refl _)

theorem readNow_rank (f : Filling) (i : Place) : EndsBy (readNow held m f i) (15 - i) := by
  have hi := place_lt i
  refine .bind fun ⟨_, _⟩ => ?_
  dsimp only
  split
  · exact (fillFailed_rank _ f _).mono (Nat.zero_le _)
  · split
    · next h => exact (readAt_rank _ f _).mono (by have := nextPlace_eq_some h; omega)
    · exact (slotRead_rank held _ f).mono (by omega)

theorem scrubNow_rank (f : Filling) (i : Place) : EndsBy (scrubNow m f i) (7 - i) := by
  refine .bind fun ⟨_, _⟩ => ?_
  dsimp only
  split
  · exact (filled_rank _ _ f).mono (Nat.zero_le _)
  · split
    · next h => exact (scrubAt_rank _ f _).mono (by have := nextPlace_eq_some h; omega)
    · exact (filled_rank _ _ f).mono (Nat.zero_le _)

/-! ## Finding room -/

theorem met_rank (notices : List Notice) (i : Nat) (need : Need) :
    EndsBy (met m notices i need) (needRank (some need)) := by
  cases need with
  | allocate owner count seen =>
    refine .bind fun _ => ?_
    cases seen with
    | true => exact .bind fun _ => .finish
    | false => exact .finish
  | pageIn page slot => exact .bind fun _ => .stop (by decide : 17 ≤ 18)

theorem unmet_rank (notices : List Notice) (e : FrameError) (need : Need) :
    EndsBy (unmet m notices e need) 0 := by
  cases need with
  | allocate owner count seen => exact .finish
  | pageIn page slot => exact .bind fun _ => .finish

theorem evictionEnded_rank (notices : List Notice) (need : Option Need)
    (result : Except EvictError (Nat × Nat)) :
    EndsBy (evictionEnded m notices need result) (needRank need) := by
  unfold evictionEnded
  split
  · exact .finish
  · exact (unmet_rank m _ _ _).mono (Nat.zero_le _)
  · exact (unmet_rank m _ _ _).mono (Nat.zero_le _)
  · refine .bind fun ⟨_, _⟩ => ?_
    dsimp only
    split
    · exact met_rank _ _ _ _
    · exact (unmet_rank _ _ _ _).mono (Nat.zero_le _)

/-! ## Evictions -/

theorem evict_rank (need : Option Need) : EndsBy (evict m need) (needRank need + 10) := by
  refine .bind fun ⟨_, _⟩ => ?_
  dsimp only
  split
  · exact (evictionEnded_rank m _ need _).mono (by omega)
  · refine .bind fun _ => .bind fun _ => ?_
    split
    · exact .bind fun _ => (evictionEnded_rank _ _ need _).mono (by omega)
    · exact .stop (Nat.le_refl _)

theorem writeFailed_rank (e : Eviction) (cause : SwapError) :
    EndsBy (writeFailed m e cause) (needRank e.need) :=
  .bind fun _ => .bind fun _ => evictionEnded_rank _ _ _ _

theorem writeAt_rank (e : Eviction) (i : Place) :
    EndsBy (writeAt m e i) (needRank e.need + 9 - i) := by
  have hi := place_lt i
  refine .bind fun a => ?_
  split
  · exact (writeFailed_rank m e _).mono (by omega)
  · exact .stop (Nat.le_refl _)

theorem written_rank (e : Eviction) : EndsBy (written m e) (needRank e.need + 1) := by
  refine .bind fun _ => .bind fun _ => ?_
  split
  · exact .bind fun _ => .bind fun _ => (evictionEnded_rank _ _ _ _).mono (by omega)
  · exact .stop (Nat.le_refl _)

theorem writeNow_rank (e : Eviction) (i : Place) :
    EndsBy (writeNow m e i) (needRank e.need + 8 - i) := by
  have hi := place_lt i
  refine .bind fun ⟨_, _⟩ => ?_
  dsimp only
  split
  · exact (writeFailed_rank _ e _).mono (by omega)
  · split
    · next h => exact (writeAt_rank _ e _).mono (by have := nextPlace_eq_some h; omega)
    · exact (written_rank _ e).mono (by omega)

theorem toldPager_rank (e : Eviction) : EndsBy (toldPager m e) (needRank e.need) := by
  refine .bind fun ⟨_, _⟩ => ?_
  dsimp only
  split
  · exact .bind fun _ => evictionEnded_rank _ _ _ _
  · exact .bind fun _ => evictionEnded_rank _ _ _ _

/-! ## Bare transfers -/

theorem bareReadAt_rank (slot : Nat) (buffer : Contents) (i : Place) :
    EndsBy (bareReadAt m slot buffer i) (8 - i) := by
  refine .bind fun a => ?_
  split
  · exact .finish
  · exact .stop (Nat.le_refl _)

theorem bareReadNow_rank (slot : Nat) (buffer : Contents) (i : Place) :
    EndsBy (bareReadNow m slot buffer i) (7 - i) := by
  refine .bind fun ⟨_, _⟩ => ?_
  dsimp only
  split
  · exact .finish
  · split
    · next h => exact (bareReadAt_rank _ _ _ _).mono (by have := nextPlace_eq_some h; omega)
    · exact .finish

theorem bareWriteAt_rank (slot : Nat) (data : Contents) (i : Place) :
    EndsBy (bareWriteAt m slot data i) (8 - i) := by
  refine .bind fun a => ?_
  split
  · exact .finish
  · exact .stop (Nat.le_refl _)

theorem bareWriteNow_rank (slot : Nat) (data : Contents) (i : Place) :
    EndsBy (bareWriteNow m slot data i) (7 - i) := by
  refine .bind fun ⟨_, _⟩ => ?_
  dsimp only
  split
  · exact .finish
  · split
    · next h => exact (bareWriteAt_rank _ _ _ _).mono (by have := nextPlace_eq_some h; omega)
    · exact .finish

/-! ## Operations -/

theorem provide_rank (need : Need) : EndsBy (provide m need) maxRank := by
  have hneed : needRank (some need) ≤ 18 := by cases need <;> simp [needRank]
  unfold provide maxRank
  split
  · exact (unmet_rank m _ _ _).mono (Nat.zero_le _)
  · refine .bind fun ⟨_, _⟩ => ?_
    dsimp only
    split
    · exact (met_rank _ _ _ _).mono (by omega)
    · exact (evict_rank _ _).mono (by omega)

theorem allocate_rank (kind : FrameKind) (count : Nat) (page : Option Page) (seen : Bool) :
    EndsBy (allocate m kind count page seen) maxRank := by
  unfold allocate
  split
  · exact .finish
  · exact provide_rank m _

theorem free_rank (address : Nat) : EndsBy (free m address) 0 := by
  unfold free
  split
  · exact .finish
  · refine .bind fun ⟨_, _⟩ => ?_
    dsimp only
    split <;> exact .finish

/-- An operation that starts ends its first piece at a rank of at most `maxRank`. -/
theorem start_rank (op : Operation) : EndsBy (start held m op) maxRank := by
  cases op with
  | allocate kind count page => exact allocate_rank m kind count page false
  | free address => exact (free_rank m address).mono (Nat.zero_le _)
  | evict => exact (evict_rank m none).mono (by decide)
  | restore slot address =>
    show EndsBy (restore m slot address) maxRank
    unfold restore
    split
    · exact .finish
    · refine .bind fun a => ?_
      split
      · exact .stop (by decide : 17 ≤ 28)
      · exact .finish
  | pageIn page slot =>
    refine .bind fun ⟨_, _⟩ => ?_
    dsimp only
    split
    · exact provide_rank _ _
    · exact .finish
  | tearDown space => exact .bind fun _ => .bind fun _ => .finish
  | allocateSeen count => exact allocate_rank m .kernel count none true
  | freeSeen seen =>
    show EndsBy (freeSeen m seen) maxRank
    unfold freeSeen
    split
    · exact .finish
    · exact (free_rank m _).mono (Nat.zero_le _)
  | recordTlbSlot address slot =>
    show EndsBy (recordTlbSlot m address slot) maxRank
    unfold recordTlbSlot
    split
    · exact .finish
    · exact .bind fun _ => .finish
  | readSlot slot buffer =>
    refine .bind fun _ => ?_
    split
    · exact .finish
    · split
      · exact .finish
      · exact (bareReadAt_rank m _ _ _).mono (by decide)
  | writeSlot slot buffer =>
    refine .bind fun _ => ?_
    split
    · exact .finish
    · split
      · exact .finish
      · exact (bareWriteAt_rank m _ _ _).mono (by decide)
  | scrubSlot slot => exact .bind fun _ => (bareWriteAt_rank m _ _ _).mono (by decide)

/-- A task that goes on ends its piece at a lower rank. -/
theorem resume_rank (t : Task) {p : Piece} (h : resume held m t = .ok p) :
    p.next.rank < t.rank := by
  suffices EndsBy (resume held m t) (t.rank - 1) by
    have := this p h
    have := rank_pos t
    omega
  cases t with
  | evictMapping e => exact .bind fun _ => (writeAt_rank m e _).mono (Nat.le_refl _)
  | evictWriting e i => exact (writeNow_rank m e i).mono (by simp only [rank]; omega)
  | evictTelling e => exact toldPager_rank m e
  | fillMapping f => exact .bind fun _ => readAt_rank m f _
  | fillReading f i => exact (readNow_rank held m f i).mono (by simp only [rank]; omega)
  | fillScrubbing f i => exact (scrubNow_rank m f i).mono (by simp only [rank]; omega)
  | slotReading slot buffer i =>
    exact (bareReadNow_rank m slot buffer i).mono (by simp only [rank]; omega)
  | slotWriting slot data i =>
    exact (bareWriteNow_rank m slot data i).mono (by simp only [rank]; omega)

end PhysMem.Task
