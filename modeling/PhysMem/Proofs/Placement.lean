import PhysMem.Proofs.FrameUse
import PhysMem.Proofs.Overflow

/-!
# Placement finds free runs

What a policy chooses is a run of frames that lie in the table and are free, so the claim that
follows never meets a frame in use. A search stops only when the end of a run would leave the word.

* **`scan_isFreeRun`**, **`place_isFreeRun`** — what is found is free.
* **`scan_none`**, **`place_none`** — where nothing is found there is nothing, and the position stays.
* **`scan_onlyOverflows`**, **`place_onlyOverflows`** — how a search can stop.
-/

namespace PhysMem.Placement

variable {frames : Array Descriptor} {count : Nat}

/-- The frames counted are free. -/
theorem free_of_freeRun (start limit k : Nat) (hk : k < freeRun frames start limit) :
    (frames[start + k]?).map (·.allocated) = some false := by
  induction limit generalizing start k with
  | zero => exact absurd hk (Nat.not_lt_zero k)
  | succ limit ih =>
      unfold freeRun at hk
      split at hk
      · next d hd =>
          split at hk
          · exact absurd hk (Nat.not_lt_zero k)
          · next hfree =>
              cases k with
              | zero =>
                  rw [Nat.add_zero, hd, Option.map_some, Bool.eq_false_iff.mpr hfree]
              | succ k =>
                  rw [show start + (k + 1) = start + 1 + k by omega]
                  exact ih (start + 1) k (by omega)
      · exact absurd hk (Nat.not_lt_zero k)

/-- **A search finds a free run**, between the bounds it was given. -/
theorem scan_isFreeRun {start bound found : Nat}
    (h : scan frames count start bound = .ok (some found)) :
    start ≤ found ∧ found < bound ∧ IsFreeRun frames found count := by
  -- the starts left to try become fewer
  induction hleft : bound - start using Nat.strongRecOn generalizing start with
  | ind left ih =>
      subst hleft
      unfold scan at h
      split at h
      · next hlt =>
          obtain ⟨stop, hstop, h⟩ := Fault.bind_eq_ok.mp h
          have hstop' : stop = start + count := Word.eq_of_add hstop
          split at h
          · cases h
          · next hroom =>
              dsimp only at h
              split at h
              · next hrun =>
                  obtain rfl : start = found := Option.some.inj (Except.ok.inj h)
                  refine ⟨Nat.le_refl _, hlt, by omega, fun i hle hi => ?_⟩
                  have hcounted : i - start < freeRun frames start count := by omega
                  have := free_of_freeRun start count (i - start) hcounted
                  rwa [Nat.add_sub_cancel' hle] at this
              · obtain ⟨hle, hbound, hfree⟩ := ih _ (by omega) h rfl
                exact ⟨by omega, hbound, hfree⟩
      · cases h

theorem scan_onlyOverflows {fits : Prop} {bound : Nat} (hbound : bound ≤ frames.size + 1)
    (hfits : fits → frames.size + count < Word.span Word.bits) (start : Nat) :
    Fault.OnlyOverflows fits (scan frames count start bound) := by
  induction hleft : bound - start using Nat.strongRecOn generalizing start with
  | ind left ih =>
      subst hleft
      unfold scan
      refine .ite (fun hlt => ?_) fun _ => .ok none
      have hadd : fits → start + count < Word.span Word.bits := by
        intro h
        have := hfits h
        omega
      refine (Fault.OnlyOverflows.add hadd).bind fun stop _ => ?_
      refine .ite (fun _ => .ok none) fun _ => ?_
      refine .ite (fun _ => .ok (some start)) fun _ => ?_
      exact ih _ (by omega) _ rfl

/-- **A policy chooses a free run**, of the length asked for. -/
theorem place_isFreeRun {pl pl' : Placement} {start stop : Nat}
    (h : pl.place frames count = .ok (some (start, stop), pl')) (hp : pl.IsPolicy) :
    stop = start + count ∧ IsFreeRun frames start count := by
  refine ⟨(Coremap.place_policy h hp).2 start stop rfl, ?_⟩
  cases pl with
  | listed ranges => exact hp.elim
  | firstFit =>
      obtain ⟨found, hfound, h⟩ := Fault.bind_eq_ok.mp h
      cases found with
      | none => cases h
      | some first =>
          cases h
          exact (scan_isFreeRun hfound).2.2
  | nextFit position =>
      simp only [place] at h
      split at h
      · cases h
      · obtain ⟨ahead, hahead, h⟩ := Fault.bind_eq_ok.mp h
        cases ahead with
        | some first =>
            cases h
            exact (scan_isFreeRun hahead).2.2
        | none =>
            obtain ⟨found, hfound, h⟩ := Fault.bind_eq_ok.mp h
            cases found with
            | none => cases h
            | some first =>
                cases h
                exact (scan_isFreeRun hfound).2.2

/-! ## Searches that find nothing -/

/-- The count of free frames ends at a frame that is in use, or at the end of the table. -/
theorem not_free_of_freeRun (start limit : Nat) (hlt : freeRun frames start limit < limit) :
    (frames[start + freeRun frames start limit]?).map (·.allocated) ≠ some false := by
  induction limit generalizing start with
  | zero => exact absurd hlt (Nat.not_lt_zero _)
  | succ limit ih =>
      unfold freeRun at hlt ⊢
      cases hd : frames[start]? with
      | none =>
          dsimp only
          rw [Nat.add_zero, hd]
          exact nofun
      | some d =>
          rw [hd] at hlt
          dsimp only at hlt ⊢
          by_cases hused : d.allocated = true
          · rw [if_pos hused, Nat.add_zero, hd, Option.map_some, hused]
            exact nofun
          · rw [if_neg hused] at hlt ⊢
            rw [show start + (freeRun frames (start + 1) limit + 1) =
              start + 1 + freeRun frames (start + 1) limit by omega]
            exact ih (start + 1) (by omega)

theorem freeRun_le (start limit : Nat) : freeRun frames start limit ≤ limit := by
  induction limit generalizing start with
  | zero => exact Nat.le_refl 0
  | succ limit ih =>
      unfold freeRun
      split
      · split
        · exact Nat.zero_le _
        · exact Nat.succ_le_succ (ih (start + 1))
      · exact Nat.zero_le _

/-- **A search that finds nothing had nothing to find** between the bounds it was given. -/
theorem scan_none {start bound : Nat} (h : scan frames count start bound = .ok none) :
    ∀ s, start ≤ s → s < bound → ¬ IsFreeRun frames s count := by
  induction hleft : bound - start using Nat.strongRecOn generalizing start with
  | ind left ih =>
      subst hleft
      intro s hle hlt hfree
      unfold scan at h
      rw [if_pos (Nat.lt_of_le_of_lt hle hlt)] at h
      obtain ⟨stop, hstop, h⟩ := Fault.bind_eq_ok.mp h
      have hstop' : stop = start + count := Word.eq_of_add hstop
      have hroom := hfree.1
      rw [if_neg (by omega)] at h
      dsimp only at h
      split at h
      · cases h
      · next hshort =>
          have hcount : freeRun frames start count ≤ count := freeRun_le start count
          -- a run cannot reach over the frame where the count ended
          by_cases hover : s ≤ start + freeRun frames start count
          · exact not_free_of_freeRun start count (by omega) (hfree.2 _ hover (by omega))
          · exact ih _ (by omega) h rfl s (by omega) hlt hfree

/-- **A policy that finds no place leaves none unfound.** -/
theorem place_none {pl pl' : Placement} (h : pl.place frames count = .ok (none, pl'))
    (hp : pl.IsPolicy) (hcount : 0 < count) (s : Nat) : ¬ IsFreeRun frames s count := by
  intro hfree
  have hroom := hfree.1
  cases pl with
  | listed ranges => exact hp.elim
  | firstFit =>
      obtain ⟨found, hfound, h⟩ := Fault.bind_eq_ok.mp h
      cases found with
      | some first => cases h
      | none => exact scan_none hfound s (Nat.zero_le s) (by omega) hfree
  | nextFit position =>
      simp only [place] at h
      split at h
      · omega
      · obtain ⟨ahead, hahead, h⟩ := Fault.bind_eq_ok.mp h
        cases ahead with
        | some first => cases h
        | none =>
            obtain ⟨found, hfound, h⟩ := Fault.bind_eq_ok.mp h
            cases found with
            | some first => cases h
            | none =>
                by_cases hs : s < position % frames.size
                · exact scan_none hfound s (Nat.zero_le s) hs hfree
                · exact scan_none hahead s (by omega) (by omega) hfree

/-- The position of a next fit is that of a frame in a table of `n`. -/
def InTable (n : Nat) : Placement → Prop
  | .nextFit position => position % n = position
  | .firstFit | .listed _ => True

theorem place_inTable {pl pl' : Placement} {range : Option (Nat × Nat)}
    (h : pl.place frames count = .ok (range, pl')) (hin : pl.InTable frames.size) :
    pl'.InTable frames.size := by
  cases pl with
  | listed ranges => cases ranges <;> cases h <;> exact trivial
  | firstFit =>
      obtain ⟨found, -, h⟩ := Fault.bind_eq_ok.mp h
      cases h
      exact trivial
  | nextFit position =>
      simp only [place] at h
      split at h
      · cases h
        exact hin
      · obtain ⟨ahead, -, h⟩ := Fault.bind_eq_ok.mp h
        cases ahead with
        | some first =>
            cases h
            exact Nat.mod_mod _ _
        | none =>
            obtain ⟨found, -, h⟩ := Fault.bind_eq_ok.mp h
            cases found <;> cases h <;> exact Nat.mod_mod _ _

/-- A search that finds nothing leaves the position where it was. -/
theorem place_none_same {pl pl' : Placement} (h : pl.place frames count = .ok (none, pl'))
    (hp : pl.IsPolicy) (hin : pl.InTable frames.size) : pl' = pl := by
  cases pl with
  | listed ranges => exact hp.elim
  | firstFit =>
      obtain ⟨found, -, h⟩ := Fault.bind_eq_ok.mp h
      cases found <;> cases h
      rfl
  | nextFit position =>
      simp only [place] at h
      split at h
      · cases h
        rfl
      · obtain ⟨ahead, -, h⟩ := Fault.bind_eq_ok.mp h
        cases ahead with
        | some first => cases h
        | none =>
            obtain ⟨found, -, h⟩ := Fault.bind_eq_ok.mp h
            cases found with
            | some first => cases h
            | none =>
                cases h
                exact congrArg Placement.nextFit hin

/-! ## How a search can stop -/

theorem place_onlyOverflows {fits : Prop}
    (hfits : fits → frames.size + count < Word.span Word.bits) (pl : Placement) :
    Fault.OnlyOverflows fits (pl.place frames count) := by
  cases pl with
  | listed ranges => cases ranges <;> exact .ok _
  | firstFit =>
      refine (scan_onlyOverflows (Nat.le_refl _) hfits 0).bind fun found _ => ?_
      exact .ok _
  | nextFit position =>
      simp only [place]
      refine .ite (fun _ => .ok _) fun hsize => ?_
      have hposition : position % frames.size < frames.size :=
        Nat.mod_lt _ (Nat.pos_of_ne_zero hsize)
      refine (scan_onlyOverflows (Nat.le_succ _) hfits _).bind fun ahead _ => ?_
      cases ahead with
      | some first => exact .ok _
      | none =>
          refine (scan_onlyOverflows (by omega) hfits 0).bind fun found _ => ?_
          cases found <;> exact .ok _

end PhysMem.Placement
