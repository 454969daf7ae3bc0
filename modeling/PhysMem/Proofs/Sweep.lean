import PhysMem.Fault

/-!
# Sweeps — loops over the entries of a table

A sweep visits the entries of a table in order and stops at the first fault. What holds before the
first entry and is carried from each entry to the next holds behind the last.
-/

namespace PhysMem.Sweep

variable {σ : Type}

/-- **The sweep rule**: `P k` is what is known once the first `k` entries have been visited. -/
theorem foldlM_range {f : σ → Nat → Except Fault σ} {P : Nat → σ → Prop} {n : Nat} {s s' : σ}
    (start : P 0 s)
    (step : ∀ k t t', k < n → P k t → f t k = .ok t' → P (k + 1) t')
    (h : (List.range n).foldlM f s = .ok s') : P n s' := by
  induction n generalizing s' with
  | zero =>
      cases h
      exact start
  | succ n ih =>
      rw [List.range_succ, List.foldlM_append] at h
      obtain ⟨t, ht, h⟩ := Fault.bind_eq_ok.mp h
      have hn : P n t := by
        refine ih ?_ ht
        intro k u u' hk
        exact step k u u' (Nat.lt_succ_of_lt hk)
      rw [List.foldlM_cons] at h
      obtain ⟨u, hu, h⟩ := Fault.bind_eq_ok.mp h
      cases h
      exact step n t s' (Nat.lt_succ_self n) hn hu

end PhysMem.Sweep
