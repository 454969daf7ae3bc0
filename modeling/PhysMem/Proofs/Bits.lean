import PhysMem.Bits.Packed

/-!
# Packed bits as a vector of booleans

`Bits.bit` is the view of a packed vector. An access that succeeds reads or writes the view at its
index and nowhere else, also across the boundaries of words, and the search for a clear bit finds
the lowest one.

* **`bit_of_get`**, **`bit_of_set`** are what a successful access tells, **`get_eq_ok`** and
  **`set_eq_ok`** say when it succeeds.
* **`firstClear_bit`** and **`bit_of_lt_firstClear`** are the two halves of the search.
-/

namespace PhysMem

namespace BitWord

variable {w : Nat}

/-- The bit that is found is clear and lies within the word. -/
theorem firstClear_spec {b : BitWord w} {i : Nat} (h : b.firstClear = some i) :
    i < w ∧ b.bit i = false ∧ ∀ j, j < i → b.bit j = true := by
  unfold firstClear at h
  split at h
  · exact nomatch h
  · next hfull =>
      have hi := Option.some.inj h
      have hne : ~~~b.word ≠ 0#w := by
        intro hz
        refine hfull ?_
        have hw : b.word = BitVec.allOnes w := by
          rw [← BitVec.not_not (b := b.word), hz, BitVec.not_zero]
        show b = full
        rw [full, ← hw]
      have hlt : (~~~b.word).ctz.toNat < w := by
        have := BitVec.ctz_lt_iff_ne_zero.mpr hne
        rw [BitVec.lt_def] at this
        exact Nat.lt_of_lt_of_le this (Nat.mod_le w (2 ^ w))
      have hset := BitVec.getLsbD_true_ctz_of_ne_zero hne
      subst hi
      refine ⟨hlt, ?_, ?_⟩
      · simpa [bit, hlt] using hset
      · intro j hj
        have hclear := BitVec.getLsbD_false_of_lt_ctz hj
        have hjw : j < w := Nat.lt_trans hj hlt
        simpa [bit, hjw] using hclear

/-- Without a clear bit in the word the search finds nothing. -/
theorem bit_of_firstClear_none {b : BitWord w} (h : b.firstClear = none) {j : Nat} (hj : j < w) :
    b.bit j = true := by
  unfold firstClear at h
  split at h
  · next hfull =>
      rw [hfull]
      simp [bit, full, hj]
  · cases h

end BitWord

namespace Bits

/-- How many bits the words have room for. -/
def room (b : Bits) : Nat := b.words.size * wordBits

theorem div_lt_of_lt_room {b : Bits} {i : Nat} (h : i < b.room) : i / wordBits < b.words.size :=
  (Nat.div_lt_iff_lt_mul (by decide)).mpr h

theorem get_eq_ok {b : Bits} {i : Nat} (h : i < b.room) : b.get i = .ok (b.bit i) := by
  have hw := div_lt_of_lt_room h
  unfold get bit
  rw [Array.getElem?_eq_getElem hw]
  exact BitWord.get_eq_ok _ (Nat.mod_lt _ (by decide))

theorem room_of_get {b : Bits} {i : Nat} {v : Bool} (h : b.get i = .ok v) : i < b.room := by
  unfold get at h
  split at h
  · next word hword =>
      obtain ⟨hw, -⟩ := Array.getElem?_eq_some_iff.mp hword
      exact (Nat.div_lt_iff_lt_mul (by decide)).mp hw
  · exact nomatch h

/-- A bit that was read is that of the view. -/
theorem bit_of_get {b : Bits} {i : Nat} {v : Bool} (h : b.get i = .ok v) : b.bit i = v := by
  rw [get_eq_ok (room_of_get h)] at h
  exact Except.ok.inj h

/-- The bits of a word past the vector are clear. -/
theorem bit_of_room_le {b : Bits} {i : Nat} (h : b.room ≤ i) : b.bit i = false := by
  unfold bit
  rw [Array.getElem?_eq_none ((Nat.le_div_iff_mul_le (by decide)).mpr h)]

/-- A set bit can be read. -/
theorem get_eq_ok_of_bit {b : Bits} {i : Nat} (h : b.bit i = true) : b.get i = .ok true := by
  have hlt : i < b.room := by
    refine Nat.lt_of_not_le fun hle => ?_
    rw [bit_of_room_le hle] at h
    exact nomatch h
  rw [get_eq_ok hlt, h]

/-- A write changes the view at its index only. -/
theorem bit_of_set {b b' : Bits} {i : Nat} {v : Bool} (h : b.set i v = .ok b') :
    b'.room = b.room ∧ ∀ j, b'.bit j = if j = i then v else b.bit j := by
  unfold set at h
  split at h
  · next word hword =>
      obtain ⟨hw, -⟩ := Array.getElem?_eq_some_iff.mp hword
      obtain ⟨word', hput, hbit⟩ : ∃ word', word.put v (i % wordBits) = .ok word' ∧
          ∀ j, j < wordBits → word'.bit j = if j = i % wordBits then v else word.bit j :=
        word.put_eq_ok v (Nat.mod_lt i (by decide))
      rw [hput] at h
      cases h
      refine ⟨by simp [room], ?_⟩
      intro j
      by_cases hj : i / wordBits = j / wordBits
      · -- the same word: the other bits of it are kept by the word's own write
        have hmod : j % wordBits = i % wordBits ↔ j = i := by
          unfold wordBits at hj ⊢
          omega
        unfold bit
        rw [← hj, hword]
        simp only [Array.getElem?_setIfInBounds_self_of_lt hw]
        rw [hbit _ (Nat.mod_lt j (by decide))]
        by_cases hji : j = i
        · rw [if_pos (hmod.mpr hji), if_pos hji]
        · rw [if_neg (fun e => hji (hmod.mp e)), if_neg hji]
      · have hji : j ≠ i := fun e => hj (by rw [e])
        unfold bit
        simp only [Array.getElem?_setIfInBounds_ne hj]
        rw [if_neg hji]
  · exact nomatch h

theorem room_of_set {b b' : Bits} {i : Nat} {v : Bool} (h : b.set i v = .ok b') : i < b.room := by
  unfold set at h
  split at h
  · next word hword =>
      obtain ⟨hw, -⟩ := Array.getElem?_eq_some_iff.mp hword
      exact (Nat.div_lt_iff_lt_mul (by decide)).mp hw
  · exact nomatch h

/-- A bit that was written is read again. -/
theorem get_of_set {b b' : Bits} {i : Nat} {v : Bool} (h : b.set i v = .ok b') :
    b'.get i = .ok v := by
  obtain ⟨hroom, hbit⟩ := bit_of_set h
  rw [get_eq_ok (hroom ▸ room_of_set h), hbit, if_pos rfl]

/-- A packed vector is known by its room and its view. -/
theorem ext_bit {b b' : Bits} (hroom : b'.room = b.room) (hbit : ∀ i, b'.bit i = b.bit i) :
    b' = b := by
  have hsize : b'.words.size = b.words.size := by
    unfold room wordBits at hroom
    omega
  suffices hwords : b'.words = b.words by
    cases b
    cases b'
    exact congrArg Bits.mk hwords
  refine Array.ext hsize fun k hk' hk => ?_
  refine congrArg BitWord.mk (BitVec.eq_of_getLsbD_eq fun j hj => ?_)
  -- bit `j` of word `k` is one bit of the view
  have hplace : (k * wordBits + j) / wordBits = k ∧ (k * wordBits + j) % wordBits = j := by
    unfold wordBits
    omega
  have hview := hbit (k * wordBits + j)
  unfold bit at hview
  rwa [hplace.1, hplace.2, Array.getElem?_eq_getElem hk', Array.getElem?_eq_getElem hk] at hview

theorem set_eq_ok {b : Bits} {i : Nat} (v : Bool) (h : i < b.room) : ∃ b', b.set i v = .ok b' := by
  have hw := div_lt_of_lt_room h
  obtain ⟨word', hput, -⟩ : ∃ word', (b.words[i / wordBits]).put v (i % wordBits) = .ok word' ∧ _ :=
    (b.words[i / wordBits]).put_eq_ok v (Nat.mod_lt i (by decide))
  unfold set
  rw [Array.getElem?_eq_getElem hw]
  exact ⟨_, congrArg (Except.map _) hput⟩

/-! ## The search for a clear bit -/

/-- The search over the words behind the first `index` ones, in terms of the view of all. -/
theorem go_spec {b : Bits} (rest : List (BitWord 64)) (index : Nat)
    (hrest : b.words.toList.drop index = rest) :
    match firstClear.go rest index with
    | some i => index * wordBits ≤ i ∧ i < b.room ∧ b.bit i = false ∧
        ∀ j, index * wordBits ≤ j → j < i → b.bit j = true
    | none => ∀ j, index * wordBits ≤ j → j < b.room → b.bit j = true := by
  induction rest generalizing index with
  | nil =>
      have hlen : b.words.size ≤ index := by
        have := List.drop_eq_nil_iff.mp hrest
        simpa using this
      intro j hj hroom
      unfold room at hroom
      have := Nat.mul_le_mul_right wordBits hlen
      omega
  | cons word rest ih =>
      have hword : b.words[index]? = some word := by
        rw [← Array.getElem?_toList]
        have := congrArg List.head? hrest
        rwa [List.head?_drop, List.head?_cons] at this
      have hidx : index < b.words.size := (Array.getElem?_eq_some_iff.mp hword).1
      have hbit : ∀ j, index * wordBits ≤ j → j < (index + 1) * wordBits →
          b.bit j = word.bit (j - index * wordBits) := by
        intro j hlo hhi
        have hdiv : j / wordBits = index := by
          unfold wordBits at hlo hhi ⊢
          omega
        have hmod : j % wordBits = j - index * wordBits := by
          unfold wordBits at hlo hhi ⊢
          omega
        unfold bit
        rw [hdiv, hword]
        simp only [hmod]
      have hroom : (index + 1) * wordBits ≤ b.room := Nat.mul_le_mul_right _ hidx
      have hstep : (index + 1) * wordBits = index * wordBits + 64 := by
        unfold wordBits
        omega
      unfold firstClear.go
      cases hc : word.firstClear with
      | some place =>
          obtain ⟨hp, hclear, hbelow⟩ := BitWord.firstClear_spec hc
          simp only
          refine ⟨Nat.le_add_right _ _, by omega, ?_, ?_⟩
          · rw [hbit _ (Nat.le_add_right _ _) (by omega), Nat.add_sub_cancel_left]
            exact hclear
          · intro j hlo hj
            rw [hbit j hlo (by omega)]
            exact hbelow _ (by omega)
      | none =>
          have hfull : ∀ j, index * wordBits ≤ j → j < (index + 1) * wordBits →
              b.bit j = true := by
            intro j hlo hhi
            rw [hbit j hlo hhi]
            exact BitWord.bit_of_firstClear_none hc (by omega)
          have hnext := ih (index + 1) (by
            rw [← List.tail_drop, hrest, List.tail_cons])
          simp only
          split at hnext
          · next i _ =>
              obtain ⟨hle, hlt, hclear, hbelow⟩ := hnext
              refine ⟨by omega, hlt, hclear, ?_⟩
              intro j hlo hj
              by_cases hhi : j < (index + 1) * wordBits
              · exact hfull j hlo hhi
              · exact hbelow j (by omega) hj
          · intro j hlo hlt
            by_cases hhi : j < (index + 1) * wordBits
            · exact hfull j hlo hhi
            · exact hnext j (by omega) hlt

/-- The bit that is found is clear and has a place in the words. -/
theorem firstClear_bit {b : Bits} {i : Nat} (h : b.firstClear = some i) :
    i < b.room ∧ b.bit i = false := by
  have hgo := go_spec (b := b) b.words.toList 0 rfl
  rw [show firstClear.go b.words.toList 0 = some i from h] at hgo
  exact ⟨hgo.2.1, hgo.2.2.1⟩

/-- Every bit below the one that is found is set. -/
theorem bit_of_lt_firstClear {b : Bits} {i j : Nat} (h : b.firstClear = some i) (hj : j < i) :
    b.bit j = true := by
  have hgo := go_spec (b := b) b.words.toList 0 rfl
  rw [show firstClear.go b.words.toList 0 = some i from h] at hgo
  exact hgo.2.2.2 j (by omega) hj

/-- Nothing is found only if every bit is set. -/
theorem bit_of_firstClear_none {b : Bits} {j : Nat} (h : b.firstClear = none) (hj : j < b.room) :
    b.bit j = true := by
  have hgo := go_spec (b := b) b.words.toList 0 rfl
  rw [show firstClear.go b.words.toList 0 = none from h] at hgo
  exact hgo j (by omega) hj

/-- A fresh vector has room for its length, and every bit of it is clear. -/
theorem clear_spec (n : Nat) : n ≤ (clear n).room ∧ ∀ i, (clear n).bit i = false := by
  refine ⟨?_, ?_⟩
  · simp only [clear, room, Array.size_replicate]
    unfold wordBits
    omega
  · intro i
    unfold bit clear
    rw [Array.getElem?_replicate]
    split
    · next word hword =>
        split at hword
        · cases hword
          simp [BitWord.bit, BitWord.zero]
        · cases hword
    · rfl

end Bits

end PhysMem
