import PhysMem.Proofs.Sweep

/-!
# Overflows — the one way in which a step that keeps its promises can stop

An assertion that holds never stops a run, but a sum or a product may still leave its machine word.
Whether it can depends on how far the frames reach, so a step is said to stop only by an overflow,
and only where they do not fit.

* **`Fault.OnlyOverflows`** is the property, **`OnlyOverflows.bind`** and **`OnlyOverflows.guard`**
  carry it through a sequence of steps.
* **`Sweep.onlyOverflows`** carries it, with an invariant, through a sweep.
-/

namespace PhysMem

/-- The step stops a run only because a sum or a product left its word, which cannot happen when
`fits` holds. -/
def Fault.OnlyOverflows (fits : Prop) {α : Type} (x : Except Fault α) : Prop :=
  ∀ fault, x = .error fault → ¬ fits ∧ (fault = .overflow .add ∨ fault = .overflow .multiply)

namespace Fault.OnlyOverflows

variable {fits : Prop} {α β : Type}

theorem ok (a : α) : OnlyOverflows fits (.ok a) := nofun

theorem of_ok {x : Except Fault α} (h : ∃ a, x = .ok a) : OnlyOverflows fits x := by
  obtain ⟨a, rfl⟩ := h
  exact ok a

/-- Where everything fits the step has a result. -/
theorem exists_ok {x : Except Fault α} (h : OnlyOverflows fits x) (hfits : fits) :
    ∃ a, x = .ok a := by
  cases x with
  | ok a => exact ⟨a, rfl⟩
  | error fault => exact absurd hfits (h fault rfl).1

theorem bind {x : Except Fault α} {f : α → Except Fault β} (h : OnlyOverflows fits x)
    (hf : ∀ a, x = .ok a → OnlyOverflows fits (f a)) : OnlyOverflows fits (x >>= f) := by
  cases x with
  | ok a => exact hf a rfl
  | error fault =>
      rintro fault' ⟨⟩
      exact h fault rfl

/-- What follows a result that is known. -/
theorem bind_ok {x : Except Fault α} {f : α → Except Fault β} {a : α} (h : x = .ok a)
    (hf : OnlyOverflows fits (f a)) : OnlyOverflows fits (x >>= f) := by
  rw [h]
  exact hf

/-- A check that holds stops nothing. -/
theorem guard {c : Prop} [Decidable c] {e : Fault} {f : Unit → Except Fault β} (hc : ¬ c)
    (hf : OnlyOverflows fits (f ())) :
    OnlyOverflows fits (if c then (do let r ← throw e; f r) else f ()) := by
  rw [if_neg hc]
  exact hf

theorem ite {c : Prop} [Decidable c] {x y : Except Fault α} (hx : c → OnlyOverflows fits x)
    (hy : ¬ c → OnlyOverflows fits y) : OnlyOverflows fits (if c then x else y) := by
  split
  · next hc => exact hx hc
  · next hc => exact hy hc

theorem add {width a b : Nat} (h : fits → a + b < Word.span width) :
    OnlyOverflows fits (Word.add width a b) := by
  unfold Word.add
  split
  · exact ok _
  · next hlarge =>
      rintro fault ⟨⟩
      exact ⟨fun hfits => hlarge (h hfits), Or.inl rfl⟩

theorem mul {width a b : Nat} (h : fits → a * b < Word.span width) :
    OnlyOverflows fits (Word.mul width a b) := by
  unfold Word.mul
  split
  · exact ok _
  · next hlarge =>
      rintro fault ⟨⟩
      exact ⟨fun hfits => hlarge (h hfits), Or.inr rfl⟩

/-- What falls short of nothing never overflows. -/
theorem sub {a b : Nat} (h : b ≤ a) : OnlyOverflows fits (Word.sub a b) :=
  of_ok ⟨_, Word.sub_eq_ok h⟩

end Fault.OnlyOverflows

/-- A sweep whose steps keep an invariant and stop only by an overflow stops only so. -/
theorem Sweep.onlyOverflows {σ : Type} {fits : Prop} {f : σ → Nat → Except Fault σ}
    {P : Nat → σ → Prop} {n : Nat} {s : σ} (start : P 0 s)
    (step : ∀ k t, k < n → P k t → Fault.OnlyOverflows fits (f t k) ∧
      ∀ t', f t k = .ok t' → P (k + 1) t') :
    Fault.OnlyOverflows fits ((List.range n).foldlM f s) := by
  induction n with
  | zero => exact .ok s
  | succ n ih =>
      rw [List.range_succ, List.foldlM_append]
      refine (ih fun k t hk => step k t (Nat.lt_succ_of_lt hk)).bind fun t ht => ?_
      have hn : P n t := foldlM_range start
        (fun k u u' hk hu => (step k u (Nat.lt_succ_of_lt hk) hu).2 u') ht
      rw [List.foldlM_cons]
      refine (step n t (Nat.lt_succ_self n) hn).1.bind fun u _ => ?_
      exact .ok u

end PhysMem
