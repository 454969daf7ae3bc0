import Mathlib.Order.Bounds.Basic
import PhysMem.Proofs.Bits

/-!
# Boolean arrays — what packed bits stand for

Nothing that is read from a packed vector tells it from an array of booleans: what is read at a place
is what was last written there, on both sides of a boundary between words. A single word is searched
and counted without looking at its bits one by one, by the trailing zeros of its complement and by
its population count. Both agree with reading every bit, for every width.

* **`BitWord.firstClear_eq_some_iff`** and **`BitWord.count_eq`** are search and count in terms of
  what is read.
* **`Bits.lastWritten`** reads a list of writes, **`Bits.bit_of_setAll`** is the induction over it.
* **`Bits.bits_are_an_array_of_booleans`** is the result.
-/

namespace PhysMem

namespace BitWord

variable {w : Nat} {b : BitWord w} {i : Nat} {value : Bool}

/-- A bit is read by shifting it to the lowest place, where all others are masked. -/
theorem get_eq_shifted (b : BitWord w) (hi : i < w) :
    b.get i = .ok ((b.word >>> i &&& 1#w) != 0#w) := by
  have hmask : b.word >>> i &&& 1#w = (BitVec.ofBool (b.bit i)).setWidth w := by
    rw [BitVec.and_one_eq_setWidth_ofBool_getLsbD, BitVec.getLsbD_ushiftRight, Nat.add_zero]
    rfl
  have hone : BitVec.setWidth w 1#1 ≠ 0#w := by
    intro h
    have hbit := congrArg (BitVec.getLsbD · 0) h
    simp [Nat.zero_lt_of_lt hi] at hbit
  rw [get_eq_ok b hi, hmask]
  cases b.bit i with
  | false => simp
  | true => simp [hone]

theorem get_eq_ok_iff : b.get i = .ok value ↔ i < w ∧ b.bit i = value := by
  by_cases hi : i < w
  · rw [get_eq_ok b hi]
    simp [hi]
  · simp [get, hi]

/-- The search finds nothing in the word with every bit set, and in no other. -/
theorem firstClear_eq_none_iff : b.firstClear = none ↔ b = full := by
  by_cases hfull : b = full <;> simp [firstClear, hfull]

theorem isLeast_of_firstClear (h : b.firstClear = some i) : IsLeast {j | b.get j = .ok false} i := by
  obtain ⟨hi, hclear, hbelow⟩ := firstClear_spec h
  refine ⟨get_eq_ok_iff.mpr ⟨hi, hclear⟩, ?_⟩
  intro j hj
  obtain ⟨-, hj⟩ := get_eq_ok_iff.mp hj
  refine Nat.le_of_not_lt fun hlt => ?_
  exact Bool.false_ne_true (hj.symm.trans (hbelow j hlt))

/-- **The search finds the lowest place where a clear bit is read.** -/
theorem firstClear_eq_some_iff : b.firstClear = some i ↔ IsLeast {j | b.get j = .ok false} i := by
  constructor
  · exact isLeast_of_firstClear
  · intro hleast
    obtain ⟨hi, hclear⟩ := get_eq_ok_iff.mp hleast.1
    cases h : b.firstClear with
    | none => exact absurd (bit_of_firstClear_none h hi) (Bool.eq_false_iff.mp hclear)
    | some first => rw [(isLeast_of_firstClear h).unique hleast]

example : (⟨0b0111⟩ : BitWord 8).firstClear = some 3 := by decide

/-- The population count, up to any place. -/
theorem cpopNatRec_eq (b : BitWord w) {n : Nat} (hn : n ≤ w) :
    b.word.cpopNatRec n 0 = (List.range n).countP fun i => b.get i = .ok true := by
  induction n with
  | zero => rfl
  | succ n ih =>
      rw [BitVec.cpopNatRec_succ, BitVec.cpopNatRec_add, ih (Nat.le_of_succ_le hn),
        List.range_succ, List.countP_append, List.countP_singleton, get_eq_ok b hn]
      show _ + (b.bit n).toNat = _
      cases b.bit n <;> simp

/-- **The count is the number of places where a set bit is read.** -/
theorem count_eq (b : BitWord w) :
    b.count = (List.range w).countP fun i => b.get i = .ok true := by
  show b.word.cpop.toNat = _
  rw [BitVec.toNat_cpop, cpopNatRec_eq b (Nat.le_refl w)]

end BitWord

namespace Bits

variable {b b' : Bits} {i j n : Nat} {value : Bool} {writes : List (Nat × Bool)}

/-! ## Writes one after the other -/

/-- Sets one bit after the other. -/
def setAll (b : Bits) : List (Nat × Bool) → Except Fault Bits
  | [] => .ok b
  | (i, value) :: writes => do
    let b ← b.set i value
    b.setAll writes

/-- The value that was last written at a place, if any was. -/
def lastWritten : List (Nat × Bool) → Nat → Option Bool
  | [], _ => none
  | (written, value) :: writes, i =>
    (lastWritten writes i).or (if written = i then some value else none)

/-- **A bit is what was last written there**, and as it was before if nothing was. -/
theorem bit_of_setAll (h : b.setAll writes = .ok b') :
    b'.room = b.room ∧ ∀ j, b'.bit j = (lastWritten writes j).getD (b.bit j) := by
  induction writes generalizing b with
  | nil =>
      cases h
      exact ⟨rfl, fun j => rfl⟩
  | cons write writes ih =>
      obtain ⟨i, value⟩ := write
      obtain ⟨b₁, hset, h⟩ := Fault.bind_eq_ok.mp h
      obtain ⟨hroom₁, hbit₁⟩ := bit_of_set hset
      obtain ⟨hroom, hbit⟩ := ih h
      refine ⟨hroom.trans hroom₁, ?_⟩
      intro j
      rw [hbit j, hbit₁ j, lastWritten]
      cases lastWritten writes j with
      | some last => rfl
      | none => by_cases hj : j = i <;> simp [hj, Ne.symm]

/-- Writes meet no fault exactly when all of them are inside the words. -/
theorem setAll_ok_iff :
    (∃ b', b.setAll writes = .ok b') ↔ ∀ write ∈ writes, write.1 < b.room := by
  induction writes generalizing b with
  | nil => exact ⟨fun _ => List.forall_mem_nil _, fun _ => ⟨b, rfl⟩⟩
  | cons write writes ih =>
      obtain ⟨i, value⟩ := write
      rw [List.forall_mem_cons]
      constructor
      · rintro ⟨b', h⟩
        obtain ⟨b₁, hset, h⟩ := Fault.bind_eq_ok.mp h
        exact ⟨room_of_set hset, (bit_of_set hset).1 ▸ ih.mp ⟨b', h⟩⟩
      · rintro ⟨hi, hwrites⟩
        obtain ⟨b₁, hset⟩ := set_eq_ok value hi
        obtain ⟨b', h⟩ := ih.mpr ((bit_of_set hset).1 ▸ hwrites)
        exact ⟨b', Fault.bind_eq_ok.mpr ⟨b₁, hset, h⟩⟩

/-- A place behind the words is a fault to read. -/
theorem get_behind (h : b.room ≤ i) :
    b.get i = .error (.indexOutOfRange (b.room / wordBits) (i / wordBits)) := by
  have hword : b.words[i / wordBits]? = none :=
    Array.getElem?_eq_none ((Nat.le_div_iff_mul_le (by decide)).mpr h)
  have hsize : b.room / wordBits = b.words.size := Nat.mul_div_cancel _ (by decide)
  simp only [get, hword, hsize]

/-- What is read depends on the room and on one bit. -/
theorem get_congr (hroom : b'.room = b.room) (hbit : b'.bit i = b.bit i) : b'.get i = b.get i := by
  by_cases hi : i < b.room
  · rw [get_eq_ok hi, get_eq_ok (hroom ▸ hi), hbit]
  · have hle : b.room ≤ i := Nat.le_of_not_lt hi
    rw [get_behind hle, get_behind (hroom ▸ hle), hroom]

/-- A write is not seen at any other place. -/
theorem get_of_set_ne (h : b.set i value = .ok b') (hj : j ≠ i) : b'.get j = b.get j := by
  obtain ⟨hroom, hbit⟩ := bit_of_set h
  refine get_congr hroom ?_
  rw [hbit j, if_neg hj]

/-! ## The result -/

/-- **Packed bits are an array of booleans**, for every length and every list of writes. The writes
meet no fault exactly if they are inside the words, where all places below the length are. At these,
what was last written is read, and false if nothing was. A write there succeeds, is read, and
changes nothing that is read elsewhere, in the same word or in another.

In a word of any width, a bit is what is left of it when it is shifted to the lowest place and the
others are masked. The search answers the lowest place where false is read, and nothing for the full
word only. The count is the number of places where true is read. -/
theorem bits_are_an_array_of_booleans :
    (∀ (n : Nat) (writes : List (Nat × Bool)),
      n ≤ (clear n).room ∧
      ((∃ b, (clear n).setAll writes = .ok b) ↔ ∀ write ∈ writes, write.1 < (clear n).room) ∧
      ∀ b, (clear n).setAll writes = .ok b → ∀ i, i < n →
        b.get i = .ok ((lastWritten writes i).getD false) ∧
        ∀ value, ∃ b', b.set i value = .ok b' ∧ b'.get i = .ok value ∧
          ∀ j, j ≠ i → b'.get j = b.get j) ∧
    ∀ (w : Nat) (word : BitWord w),
      (∀ i, i < w → word.get i = .ok ((word.word >>> i &&& 1#w) != 0#w)) ∧
      (word.firstClear = none ↔ word = .full) ∧
      (∀ i, word.firstClear = some i ↔ IsLeast {j | word.get j = .ok false} i) ∧
      word.count = (List.range w).countP fun i => word.get i = .ok true := by
  constructor
  · intro n writes
    obtain ⟨hlength, hclear⟩ := clear_spec n
    refine ⟨hlength, setAll_ok_iff, ?_⟩
    intro b h i hi
    obtain ⟨hroom, hbit⟩ := bit_of_setAll h
    have hinside : i < b.room := hroom ▸ Nat.lt_of_lt_of_le hi hlength
    constructor
    · rw [get_eq_ok hinside, hbit i, hclear i]
    · intro value
      obtain ⟨b', hset⟩ := set_eq_ok value hinside
      exact ⟨b', hset, get_of_set hset, fun j hj => get_of_set_ne hset hj⟩
  · intro w word
    exact ⟨fun i hi => word.get_eq_shifted hi, BitWord.firstClear_eq_none_iff,
      fun i => BitWord.firstClear_eq_some_iff, word.count_eq⟩

/-- Of 66 bits the last two are in a word of their own. One of them and its neighbour in the first
word are written, the neighbour twice. -/
theorem bits_are_an_array_of_booleans_in_two_words :
    ∃ b, (clear 66).setAll [(64, true), (63, true), (2, true), (63, false)] = .ok b ∧
      b.get 64 = .ok true ∧ b.get 63 = .ok false ∧ b.get 2 = .ok true ∧ b.get 65 = .ok false ∧
      ∃ b', b.set 63 true = .ok b' ∧ b'.get 63 = .ok true ∧ b'.get 64 = .ok true := by
  obtain ⟨-, hok, hread⟩ := bits_are_an_array_of_booleans.1 66
    [(64, true), (63, true), (2, true), (63, false)]
  obtain ⟨b, h⟩ := hok.mpr (by decide)
  have h64 := (hread b h 64 (by decide)).1
  obtain ⟨h63, hset⟩ := hread b h 63 (by decide)
  obtain ⟨b', hb', h63', hother⟩ := hset true
  exact ⟨b, h, h64, h63, (hread b h 2 (by decide)).1, (hread b h 65 (by decide)).1, b', hb', h63',
    (hother 64 (by decide)).trans h64⟩

end Bits

end PhysMem
